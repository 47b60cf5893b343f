/-
A set of characters, as the ranges of code points that a property of the
Unicode character database lists, both ends included.
-/

namespace LowPass

abbrev Ranges := List (Nat × Nat)

/-- Whether a character is in a set. -/
def Ranges.has (ranges : Ranges) (c : Char) : Bool :=
  ranges.any fun (low, high) => low ≤ c.toNat && c.toNat ≤ high

theorem Ranges.has_iff {ranges : Ranges} {c : Char} :
    ranges.has c = true ↔ ∃ r ∈ ranges, r.1 ≤ c.toNat ∧ c.toNat ≤ r.2 := by
  simp [Ranges.has]

/-- A character between bounds that no range reaches is not in the set. -/
theorem Ranges.has_of_apart {ranges : Ranges} {low high : Nat} {c : Char}
    (hapart : ∀ r ∈ ranges, r.2 < low ∨ high < r.1) (hlow : low ≤ c.toNat)
    (hhigh : c.toNat ≤ high) : ranges.has c = false := by
  rw [← Bool.not_eq_true, Ranges.has_iff]
  rintro ⟨r, hr, hfirst, hlast⟩
  have := hapart r hr
  omega

end LowPass
