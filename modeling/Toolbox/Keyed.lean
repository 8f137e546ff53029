/-!
# Keyed values

A table of values under distinct keys, listed in the order of the keys' code points. Storing under a
key replaces what was there.
-/

namespace Toolbox

/-- Values under keys, in key order. -/
abbrev Keyed (α : Type) := List (String × α)

namespace Keyed

variable {α : Type}

/-- The table with `value` stored under `key`. -/
def put (key : String) (value : α) : Keyed α → Keyed α
  | [] => [(key, value)]
  | (k, v) :: rest =>
    if key < k then (key, value) :: (k, v) :: rest
    else if key = k then (key, value) :: rest
    else (k, v) :: put key value rest

/-- The table that storing the pairs one after the other makes of the empty one. -/
def ofPairs (pairs : List (String × α)) : Keyed α :=
  pairs.foldl (fun t p => t.put p.1 p.2) []

def get? (key : String) : Keyed α → Option α
  | [] => none
  | (k, v) :: rest => if k = key then some v else get? key rest

/-- What was stored last under a key is found there, and nothing else changes. -/
theorem get?_put (key other : String) (value : α) (t : Keyed α) :
    (t.put key value).get? other = if key = other then some value else t.get? other := by
  induction t with
  | nil => simp [put, get?]
  | cons p rest ih =>
    obtain ⟨k, v⟩ := p
    by_cases h₁ : key < k
    · simp [put, get?, h₁]
    · by_cases h₂ : key = k
      · subst h₂
        by_cases h₃ : key = other <;> simp [put, get?, h₃]
      · by_cases h₃ : k = other
        · subst h₃
          simp [put, get?, h₁, h₂]
        · simp [put, get?, h₁, h₂, h₃, ih]

end Keyed

end Toolbox
