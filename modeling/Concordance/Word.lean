/-!
# Checked 32-bit arithmetic

Document ids, positions and byte offsets are 32-bit numbers that are stored as
differences and restored as sums. `sum?` and `difference?` give the result
where it fits the width and nothing where it does not;
`sum?_eq_some_iff` and `difference?_eq_some_iff` state this in natural numbers.
-/

namespace Concordance.Word

/-- The sum, where it fits 32 bits. -/
def sum? (a b : UInt32) : Option UInt32 :=
  if a.toNat + b.toNat < UInt32.size then some (a + b) else none

/-- The difference, where the second number is no larger than the first. -/
def difference? (a b : UInt32) : Option UInt32 :=
  if b ≤ a then some (a - b) else none

theorem sum?_eq_some_iff {a b c : UInt32} :
    sum? a b = some c ↔ a.toNat + b.toNat = c.toNat := by
  unfold sum?
  have hc := c.toNat_lt
  constructor
  · intro h
    split at h
    · next hlt =>
        cases h
        rw [UInt32.toNat_add, Nat.mod_eq_of_lt hlt]
    · cases h
  · intro h
    have hlt : a.toNat + b.toNat < UInt32.size := by simpa [h] using hc
    rw [if_pos hlt, Option.some.injEq, ← UInt32.toNat_inj, UInt32.toNat_add,
      Nat.mod_eq_of_lt hlt, h]

theorem difference?_eq_some_iff {a b c : UInt32} :
    difference? a b = some c ↔ c.toNat + b.toNat = a.toNat := by
  unfold difference?
  constructor
  · intro h
    split at h
    · next hle =>
        cases h
        rw [UInt32.toNat_sub_of_le _ _ hle]
        have := UInt32.le_iff_toNat_le.1 hle
        omega
    · cases h
  · intro h
    have hle : b ≤ a := UInt32.le_iff_toNat_le.2 (by omega)
    rw [if_pos hle, Option.some.injEq, ← UInt32.toNat_inj, UInt32.toNat_sub_of_le _ _ hle]
    omega

end Concordance.Word
