/-
Rounding a quotient of naturals to the nearest natural, a half going to the
even neighbour. Binary numbers and decimal text are both rounded by this one
rule: they differ only in the denominator.

The quotient is never more than half a unit away (`nearestEven_le`,
`le_nearestEven`), whole quotients are kept (`nearestEven_mul_right`), and a
bound that is whole itself survives rounding (`nearestEven_le_of_le`,
`le_nearestEven_of_le`).
-/

namespace LowPass

/-- The natural nearest to `num / den`; of two equally near, the even one. -/
def nearestEven (num den : Nat) : Nat :=
  let down := num / den
  let left := num % den
  if 2 * left < den then down
  else if den < 2 * left then down + 1
  else down + down % 2

theorem nearestEven_eq_or (num den : Nat) :
    nearestEven num den = num / den ∨ nearestEven num den = num / den + 1 := by
  have h : (num / den) % 2 = 0 ∨ (num / den) % 2 = 1 := by omega
  simp only [nearestEven]
  split
  · exact .inl rfl
  · split
    · exact .inr rfl
    · rcases h with h | h <;> simp [h]

/-- Rounding goes up by at most half a unit. -/
theorem nearestEven_le {num den : Nat} (hd : 0 < den) :
    2 * (den * nearestEven num den) ≤ 2 * num + den := by
  have hdiv := Nat.div_add_mod num den
  have hmod := Nat.mod_lt num hd
  simp only [nearestEven]
  split
  · omega
  · split
    · rw [Nat.mul_add]; omega
    · have : (num / den) % 2 ≤ 1 := by omega
      have := Nat.mul_le_mul_left den this
      rw [Nat.mul_add]; omega

theorem le_nearestEven {num den : Nat} (hd : 0 < den) :
    2 * num ≤ 2 * (den * nearestEven num den) + den := by
  have hdiv := Nat.div_add_mod num den
  have hmod := Nat.mod_lt num hd
  simp only [nearestEven]
  split
  · omega
  · split
    · rw [Nat.mul_add]; omega
    · rw [Nat.mul_add]; omega

/-- A whole number is its own rounding. -/
theorem nearestEven_mul_right (n : Nat) {den : Nat} (hd : 0 < den) :
    nearestEven (n * den) den = n := by
  simp [nearestEven, Nat.mul_div_cancel n hd, hd]

theorem nearestEven_le_of_le {num den bound : Nat} (hd : 0 < den) (h : num ≤ bound * den) :
    nearestEven num den ≤ bound := by
  rcases Nat.lt_or_ge num (bound * den) with hlt | hge
  · have hq : num / den < bound := (Nat.div_lt_iff_lt_mul hd).2 hlt
    rcases nearestEven_eq_or num den with h | h <;> omega
  · exact Nat.le_of_eq (by rw [Nat.le_antisymm h hge, nearestEven_mul_right _ hd])

theorem le_nearestEven_of_le {num den bound : Nat} (hd : 0 < den) (h : bound * den ≤ num) :
    bound ≤ nearestEven num den := by
  have hq : bound ≤ num / den := (Nat.le_div_iff_mul_le hd).2 h
  rcases nearestEven_eq_or num den with h | h <;> omega

end LowPass
