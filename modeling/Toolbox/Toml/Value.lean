/-!
# TOML values

What stands on the right of a `=`: texts, numbers, truth values, dates and times, arrays and tables.
-/

namespace Toolbox.Toml

/-- A number with a fraction or an exponent, as it was written. -/
inductive Real where
  /-- The number `± mantissa * 10 ^ exponent`. -/
  | finite (negative : Bool) (mantissa : Nat) (exponent : Int)
  | infinite (negative : Bool)
  | notANumber
  deriving DecidableEq, Repr

/-- A day of the calendar. -/
structure Date where
  year : Nat
  month : Nat
  day : Nat
  deriving DecidableEq, Repr

/-- A time of day; the fraction of the second is kept as its digits. -/
structure Time where
  hour : Nat
  minute : Nat
  second : Nat
  fraction : List Char := []
  deriving DecidableEq, Repr

/-- A date, a time, or both; a full one can carry its distance from UTC in minutes. -/
inductive Moment where
  | date (d : Date)
  | time (t : Time)
  | local (d : Date) (t : Time)
  | offset (d : Date) (t : Time) (minutes : Int)
  deriving DecidableEq, Repr

/-- A value of a document. -/
inductive Value where
  | text (s : String)
  | integer (n : Int)
  | real (r : Real)
  | bool (b : Bool)
  | moment (m : Moment)
  | array (items : List Value)
  | table (entries : List (String × Value))
  deriving Repr, Inhabited

mutual

/-- Whether two values are the same. -/
def Value.same : Value → Value → Bool
  | .text s, .text t => s = t
  | .integer m, .integer n => m = n
  | .real r, .real q => r = q
  | .bool a, .bool b => a = b
  | .moment a, .moment b => a = b
  | .array items, .array others => sameItems items others
  | .table entries, .table others => sameEntries entries others
  | _, _ => false

def sameItems : List Value → List Value → Bool
  | [], [] => true
  | v :: items, w :: others => v.same w && sameItems items others
  | _, _ => false

def sameEntries : List (String × Value) → List (String × Value) → Bool
  | [], [] => true
  | (k, v) :: entries, (l, w) :: others => k = l && v.same w && sameEntries entries others
  | _, _ => false

end

mutual

theorem Value.same_iff (v w : Value) : v.same w = true ↔ v = w := by
  cases v with
  | array items => cases w <;> simp [Value.same, sameItems_iff items]
  | table entries => cases w <;> simp [Value.same, sameEntries_iff entries]
  | _ => cases w <;> simp [Value.same]

theorem sameItems_iff (items others : List Value) :
    sameItems items others = true ↔ items = others := by
  cases items with
  | nil => cases others <;> simp [sameItems]
  | cons v items => cases others <;> simp [sameItems, v.same_iff, sameItems_iff items]

theorem sameEntries_iff (entries others : List (String × Value)) :
    sameEntries entries others = true ↔ entries = others := by
  cases entries with
  | nil => cases others <;> simp [sameEntries]
  | cons entry entries =>
    obtain ⟨k, v⟩ := entry
    cases others <;> simp [sameEntries, v.same_iff, sameEntries_iff entries, Prod.ext_iff]

end

instance : DecidableEq Value := fun v w => decidable_of_iff _ (v.same_iff w)

def find? (key : String) : List (String × Value) → Option Value
  | [] => none
  | (k, v) :: rest => if k = key then some v else find? key rest

end Toolbox.Toml
