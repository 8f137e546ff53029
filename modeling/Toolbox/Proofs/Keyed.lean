import Mathlib.Data.List.Sort
import Mathlib.Data.String.Basic
import Toolbox.Keyed

/-!
# Tables in key order

A keyed table is a list, and as a list it remembers nothing of how it came about: `put` keeps the
keys in rising order, so a table is settled by what is found in it (`InOrder.ext`). That is what lets
theorems about records built in many steps speak of look-ups only.

The order is that of the keys' code points. Elsewhere texts are compared octet by octet, in UTF-8;
`octets_lt_iff` says that this is the same order, so no table has to be sorted again.
-/

namespace Toolbox

namespace Keyed

variable {α : Type}

/-- The keys rise from entry to entry, so no key has two. -/
def InOrder (t : Keyed α) : Prop :=
  t.Pairwise fun p q => p.1 < q.1

theorem mem_put {key : String} {value : α} {t : Keyed α} {p : String × α}
    (h : p ∈ t.put key value) : p = (key, value) ∨ p ∈ t := by
  induction t with
  | nil => exact .inl (List.mem_singleton.mp h)
  | cons q rest ih =>
    rw [put] at h
    split at h
    · exact List.mem_cons.mp h
    · split at h
      · exact (List.mem_cons.mp h).imp_right (List.mem_cons_of_mem _)
      · rcases List.mem_cons.mp h with rfl | h
        · exact .inr List.mem_cons_self
        · exact (ih h).imp_right (List.mem_cons_of_mem _)

/-- Storing a value keeps the order. -/
theorem InOrder.put {t : Keyed α} (h : t.InOrder) (key : String) (value : α) :
    (t.put key value).InOrder := by
  induction t with
  | nil => exact List.pairwise_singleton _ _
  | cons q rest ih =>
    obtain ⟨k, v⟩ := q
    obtain ⟨hfirst, hrest⟩ := List.pairwise_cons.mp h
    rw [Keyed.put]
    split
    case isTrue hlt =>
      refine List.pairwise_cons.mpr ⟨?_, h⟩
      intro p hp
      rcases List.mem_cons.mp hp with rfl | hp
      · exact hlt
      · exact String.lt_trans hlt (hfirst p hp)
    case isFalse hnot =>
      split
      case isTrue heq =>
        subst heq
        exact List.pairwise_cons.mpr ⟨hfirst, hrest⟩
      case isFalse hne =>
        refine List.pairwise_cons.mpr ⟨?_, ih hrest⟩
        intro p hp
        rcases mem_put hp with rfl | hp
        · exact lt_of_le_of_ne (String.not_lt.mp hnot) (Ne.symm hne)
        · exact hfirst p hp

/-- In a table in order the entries are exactly what is found. -/
theorem InOrder.mem_iff {t : Keyed α} (h : t.InOrder) {key : String} {value : α} :
    (key, value) ∈ t ↔ t.get? key = some value := by
  induction t with
  | nil => simp [get?]
  | cons q rest ih =>
    obtain ⟨k, v⟩ := q
    obtain ⟨hfirst, hrest⟩ := List.pairwise_cons.mp h
    rw [List.mem_cons, ih hrest, get?]
    split
    case isTrue heq =>
      subst heq
      constructor
      · rintro (hsame | hlater)
        · rw [(Prod.mk.inj hsame).2]
        · -- a second entry under the key would have to be greater than itself
          exact absurd (hfirst _ ((ih hrest).mpr hlater)) (String.lt_irrefl k)
      · intro hfound
        exact .inl (by rw [Option.some.inj hfound])
    case isFalse hne =>
      constructor
      · rintro (hsame | hlater)
        · exact absurd (Prod.mk.inj hsame).1.symm hne
        · exact hlater
      · exact .inr

/-- **A table in order is settled by its look-ups.** -/
theorem InOrder.ext {t u : Keyed α} (ht : t.InOrder) (hu : u.InOrder)
    (h : ∀ key, t.get? key = u.get? key) : t = u := by
  have hirrefl : Std.Irrefl fun p q : String × α => p.1 < q.1 := ⟨fun p => String.lt_irrefl p.1⟩
  have hantisymm : Std.Antisymm fun p q : String × α => p.1 < q.1 :=
    ⟨fun _ _ hpq hqp => absurd hqp (String.lt_asymm hpq)⟩
  refine List.Pairwise.eq_of_mem_iff ht hu ?_
  intro p
  obtain ⟨key, value⟩ := p
  rw [ht.mem_iff, hu.mem_iff, h key]

end Keyed

/-! ## Octet order -/

namespace Text

/-- The octets of a text in UTF-8. -/
def octets (s : String) : List UInt8 :=
  s.toUTF8.data.toList

theorem octets_eq_flatMap (s : String) : octets s = s.toList.flatMap String.utf8EncodeChar := by
  rw [octets, String.toUTF8_eq_toByteArray, ← String.utf8Encode_toList, List.utf8Encode]
  simp

theorem ofNat_cons_lt_iff {a b : Nat} (ha : a < 256) (hb : b < 256) (x y : List UInt8) :
    UInt8.ofNat a :: x < UInt8.ofNat b :: y ↔ a < b ∨ a = b ∧ x < y := by
  rw [List.cons_lt_cons_iff, UInt8.lt_iff_toNat_lt, ← UInt8.toNat_inj, UInt8.toNat_ofNat',
    UInt8.toNat_ofNat', Nat.mod_eq_of_lt ha, Nat.mod_eq_of_lt hb]

/-- Two characters are told apart by their octets, whatever follows them: a longer character begins
with a greater octet, and among those of one length the digits to base 64 decide. -/
theorem utf8EncodeChar_append_lt {c d : Char} (h : c < d) (xs ys : List UInt8) :
    String.utf8EncodeChar c ++ xs < String.utf8EncodeChar d ++ ys := by
  have hlt : c.val.toNat < d.val.toNat := h
  have hmax : d.val.toNat < 0x110000 := by
    have hvalid := d.valid
    simp only [UInt32.isValidChar, Nat.isValidChar] at hvalid
    omega
  unfold String.utf8EncodeChar
  generalize c.val.toNat = m at hlt
  generalize d.val.toNat = n at hlt hmax
  have hsecond : ∀ k, k / 4096 = k / 64 / 64 := by
    intro k
    rw [Nat.div_div_eq_div_mul]
  have hthird : ∀ k, k / 262144 = k / 64 / 64 / 64 := by
    intro k
    rw [Nat.div_div_eq_div_mul, Nat.div_div_eq_div_mul]
  simp only [hsecond, hthird]
  -- one case for each pair of lengths; the greater character is not the shorter one
  repeat' split
  all_goals try omega
  all_goals simp (disch := omega) only [List.cons_append, List.nil_append, ofNat_cons_lt_iff]
  all_goals omega

theorem flatMap_utf8EncodeChar_lt {cs ds : List Char} (h : cs < ds) :
    cs.flatMap String.utf8EncodeChar < ds.flatMap String.utf8EncodeChar := by
  induction cs generalizing ds with
  | nil =>
    cases ds with
    | nil => exact absurd h (List.lt_irrefl _)
    | cons d ds =>
      obtain ⟨b, bs, hd⟩ := List.exists_cons_of_ne_nil (@String.utf8EncodeChar_ne_nil d)
      rw [List.flatMap_cons, hd]
      exact List.nil_lt_cons _ _
  | cons c cs ih =>
    cases ds with
    | nil => exact absurd h (List.not_lt_nil _)
    | cons d ds =>
      rw [List.flatMap_cons, List.flatMap_cons]
      rcases List.cons_lt_cons_iff.mp h with hlt | ⟨rfl, hrest⟩
      · exact utf8EncodeChar_append_lt hlt _ _
      · exact List.append_left_lt (ih hrest)

/-- **Octet order is code point order.** -/
theorem octets_lt_iff {s t : String} : octets s < octets t ↔ s < t := by
  have hforth : ∀ {s t : String}, s < t → octets s < octets t := by
    intro s t h
    rw [octets_eq_flatMap, octets_eq_flatMap]
    exact flatMap_utf8EncodeChar_lt h
  refine ⟨?_, hforth⟩
  intro h
  rcases lt_trichotomy s t with hlt | rfl | hgt
  · exact hlt
  · exact absurd h (List.lt_irrefl _)
  · exact absurd (hforth hgt) (List.lt_asymm h)

end Text

namespace Keyed

variable {α : Type}

theorem InOrder.pairwise_octets {t : Keyed α} (h : t.InOrder) :
    (t.map fun p => Text.octets p.1).Pairwise (· < ·) := by
  rw [List.pairwise_map]
  exact h.imp Text.octets_lt_iff.mpr

end Keyed

end Toolbox
