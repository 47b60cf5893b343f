/-
How far representable magnitudes are apart, and what that says of rounding.

* `isLeast_add_spacing`: the next larger magnitude is one spacing away.
* `nearestEven_closest`, `roundMag_closest`: what is rounded to is nearest among
  all there is to round to.
* `roundMag_mono`: rounding keeps the order.
-/
import LowPass.Proofs.Binary32.Nearest

namespace LowPass

/-! ## Quotients -/

theorem mul_add_le_of_lt (den : Nat) {a b : Nat} (h : a < b) : den * a + den ≤ den * b := by
  rw [← Nat.mul_succ]
  exact Nat.mul_le_mul_left den h

section
variable {num den : Nat} (hd : 0 < den)
include hd

theorem nearestEven_closest (n : Nat) :
    |((den * nearestEven num den : Nat) : Int) - num| ≤ |((den * n : Nat) : Int) - num| := by
  have hup := @nearestEven_le num _ hd
  have hdown := @le_nearestEven num _ hd
  simp only [Int.abs_eq_natAbs]
  rcases Nat.lt_trichotomy n (nearestEven num den) with hlt | rfl | hgt
  · have := mul_add_le_of_lt den hlt
    omega
  · exact le_refl _
  · have := mul_add_le_of_lt den hgt
    omega

theorem nearestEven_eq_of_lt {n : Nat} (h : 2 * |((den * n : Nat) : Int) - num| < den) :
    nearestEven num den = n := by
  have hclosest := @nearestEven_closest num _ hd n
  simp only [Int.abs_eq_natAbs] at h hclosest
  rcases Nat.lt_trichotomy n (nearestEven num den) with hlt | heq | hgt
  · have := mul_add_le_of_lt den hlt
    omega
  · exact heq.symm
  · have := mul_add_le_of_lt den hgt
    omega

end

theorem nearestEven_mono {num num' : Nat} (den : Nat) (h : num ≤ num') :
    nearestEven num den ≤ nearestEven num' den := by
  have hdiv : num / den ≤ num' / den := Nat.div_le_div_right h
  rcases Nat.eq_or_lt_of_le hdiv with heq | hlt
  · -- With the same whole part, the larger quotient has the larger rest.
    have hnum := Nat.div_add_mod num den
    have hnum' := Nat.div_add_mod num' den
    rw [← heq] at hnum'
    have hmod : num % den ≤ num' % den := by omega
    simp only [nearestEven, ← heq]
    split <;> split <;> (try split) <;> (try split) <;> omega
  · have hnum := nearestEven_eq_or num den
    have hnum' := nearestEven_eq_or num' den
    omega

namespace Binary32

/-! ## Magnitudes -/

/-- The distance from a representable magnitude to the next larger one. -/
def spacing (mag : Nat) : Nat := 2 ^ gap mag

theorem spacing_pos (mag : Nat) : 0 < spacing mag := Nat.two_pow_pos _

theorem gap_le_iff {mag k : Nat} : gap mag ≤ k ↔ mag < 2 ^ (24 + k) := by
  constructor
  · intro h
    exact Nat.lt_of_lt_of_le (lt_two_pow_of_gap mag) (Nat.pow_le_pow_right (by decide) (by omega))
  · intro h
    by_contra hgap
    have hlow := @two_pow_le_of_gap mag (by omega)
    have hpow := Nat.pow_le_pow_right (by decide : 0 < 2) (show 24 + k ≤ 23 + gap mag by omega)
    omega

theorem gap_le_of_fits {mag : Nat} (h : Representable mag) : gap mag ≤ 253 := by
  rw [gap_le_iff, Nat.pow_add, ← Nat.shiftLeft_eq]
  exact h.lt

theorem spacing_dvd_of_le {a b : Nat} (hb : Representable b) (h : a ≤ b) : spacing a ∣ b :=
  Nat.dvd_trans (pow_dvd_pow 2 (gap_mono h)) (two_pow_gap_dvd hb)

/-- Between a magnitude and the next there is none. -/
theorem add_spacing_le {a b : Nat} (ha : Representable a) (hb : Representable b) (h : a < b) :
    a + spacing a ≤ b := by
  have hdvd : spacing a ∣ b - a :=
    Nat.dvd_sub (spacing_dvd_of_le hb (Nat.le_of_lt h)) (two_pow_gap_dvd ha)
  have := Nat.le_of_dvd (by omega) hdvd
  omega

theorem representable_add_spacing {a b : Nat} (ha : Representable a) (hb : Representable b)
    (h : a < b) : Representable (a + spacing a) := by
  have hlimit := Nat.lt_of_le_of_lt (add_spacing_le ha hb h) hb.lt
  obtain ⟨m, hm⟩ := two_pow_gap_dvd ha
  have hlt := lt_two_pow_of_gap a
  have hgap := gap_le_of_fits ha
  unfold spacing at hlimit ⊢
  simp only [magLimit, Nat.shiftLeft_eq] at hlimit
  generalize gap a = k at hm hlt hgap hlimit ⊢
  subst hm
  have hsum : 2 ^ k * m + 2 ^ k = (m + 1) <<< k := by
    rw [Nat.shiftLeft_eq, Nat.succ_mul, Nat.mul_comm]
  rw [hsum] at hlimit ⊢
  rw [Nat.pow_add, Nat.mul_comm] at hlt
  have hm24 : m < 2 ^ 24 := Nat.lt_of_mul_lt_mul_right hlt
  rcases Nat.lt_or_ge (m + 1) 0x1000000 with hm1 | hm1
  · exact ⟨m + 1, k, hm1, hgap, rfl⟩
  · -- The significand is full: the next magnitude begins the next binade.
    obtain rfl : m = 0xffffff := by omega
    rw [Nat.shiftLeft_eq] at hlimit
    have hk : k < 253 := (Nat.pow_lt_pow_iff_right (by decide)).1 (Nat.lt_of_mul_lt_mul_left hlimit)
    refine ⟨0x800000, k + 1, by decide, by omega, ?_⟩
    rw [Nat.shiftLeft_eq, Nat.shiftLeft_eq, Nat.pow_succ]
    omega

/-- **The next larger magnitude** is one spacing away. -/
theorem isLeast_add_spacing {a b : Nat} (ha : Representable a) (hb : Representable b) (h : a < b) :
    IsLeast {m | Representable m ∧ a < m} (a + spacing a) := by
  have hpos := spacing_pos a
  exact ⟨⟨representable_add_spacing ha hb h, by omega⟩, fun m hm => add_spacing_le ha hm.1 hm.2⟩

/-- The distance from the size of a value to the next larger one; for
subnormals, and zero, one unit. -/
def ulp (x : Binary32) : ℚ := spacing x.scaled.natAbs / 2 ^ 149

/-! ## Rounding -/

section
variable {num den : Nat} (hd : 0 < den)
include hd

theorem two_pow_le_roundMag (h : gap (num / den) ≠ 0) :
    2 ^ (23 + gap (num / den)) ≤ roundMag num den := by
  have hlow := (Nat.le_div_iff_mul_le hd).1 (two_pow_le_of_gap h)
  unfold roundMag
  generalize gap (num / den) = k at hlow ⊢
  dsimp only
  rw [Nat.shiftLeft_eq, Nat.shiftLeft_eq, Nat.pow_add]
  apply Nat.mul_le_mul_right
  apply le_nearestEven_of_le (Nat.mul_pos hd (Nat.two_pow_pos k))
  calc 2 ^ 23 * (den * 2 ^ k) = 2 ^ (23 + k) * den := by rw [Nat.pow_add]; ring
    _ ≤ num := hlow

theorem roundMag_le_two_pow : roundMag num den ≤ 2 ^ (24 + gap (num / den)) := by
  have hhigh := (Nat.div_lt_iff_lt_mul hd).1 (lt_two_pow_of_gap (num / den))
  unfold roundMag
  generalize gap (num / den) = k at hhigh ⊢
  dsimp only
  rw [Nat.shiftLeft_eq, Nat.shiftLeft_eq, Nat.pow_add]
  apply Nat.mul_le_mul_right
  apply nearestEven_le_of_le (Nat.mul_pos hd (Nat.two_pow_pos k))
  calc num ≤ 2 ^ (24 + k) * den := Nat.le_of_lt hhigh
    _ = 2 ^ 24 * (den * 2 ^ k) := by rw [Nat.pow_add]; ring

theorem gap_le_gap_roundMag : gap (num / den) ≤ gap (roundMag num den) := by
  by_contra hless
  have hlow := @two_pow_le_roundMag num _ hd (by omega)
  have hhigh := gap_le_iff.1 (Nat.le_refl (gap (roundMag num den)))
  have hpow := Nat.pow_le_pow_right (by decide : 0 < 2)
    (show 24 + gap (roundMag num den) ≤ 23 + gap (num / den) by omega)
  omega

omit hd in
theorem two_pow_gap_dvd_roundMag : 2 ^ gap (num / den) ∣ roundMag num den := by
  unfold roundMag
  dsimp only
  rw [Nat.shiftLeft_eq _ (gap _)]
  exact Nat.dvd_mul_left _ _

theorem roundMag_closest_multiple (m : Nat) :
    |((den * roundMag num den : Nat) : Int) - num| ≤
      |((den * (m * 2 ^ gap (num / den)) : Nat) : Int) - num| := by
  unfold roundMag
  generalize gap (num / den) = k
  dsimp only
  have hclosest := @nearestEven_closest num _ (Nat.mul_pos hd (Nat.two_pow_pos k)) m
  rw [Nat.shiftLeft_eq, Nat.shiftLeft_eq]
  have hmul : ∀ n, den * (n * 2 ^ k) = den * 2 ^ k * n := fun n => by ring
  rwa [hmul, hmul]

/-- **No representable magnitude is nearer** to a quotient than its rounding. -/
theorem roundMag_closest {b : Nat} (hb : Representable b) :
    |((den * roundMag num den : Nat) : Int) - num| ≤ |((den * b : Nat) : Int) - num| := by
  rcases Nat.lt_or_ge (gap b) (gap (num / den)) with hlt | hge
  · -- A magnitude with a finer spacing is below the binade of the quotient, and
    -- the first magnitude of that binade is nearer.
    have hfirst := @roundMag_closest_multiple num _ hd (2 ^ 23)
    have hlow := (Nat.le_div_iff_mul_le hd).1 (@two_pow_le_of_gap (num / den) (by omega))
    have hbelow : b ≤ 2 ^ (23 + gap (num / den)) :=
      Nat.le_trans (Nat.le_of_lt (lt_two_pow_of_gap b))
        (Nat.pow_le_pow_right (by decide) (by omega))
    rw [← Nat.pow_add] at hfirst
    generalize 2 ^ (23 + gap (num / den)) = first at hfirst hlow hbelow
    have hle : den * b ≤ den * first := Nat.mul_le_mul_left den hbelow
    rw [Nat.mul_comm] at hlow
    simp only [Int.abs_eq_natAbs] at hfirst ⊢
    omega
  · obtain ⟨m, hm⟩ := Nat.dvd_trans (pow_dvd_pow 2 hge) (two_pow_gap_dvd hb)
    rw [hm, Nat.mul_comm (2 ^ gap (num / den))]
    exact roundMag_closest_multiple hd m

end

/-- **Rounding keeps the order.** -/
theorem roundMag_mono {num num' den : Nat} (hd : 0 < den) (h : num ≤ num') :
    roundMag num den ≤ roundMag num' den := by
  have hgap : gap (num / den) ≤ gap (num' / den) := gap_mono (Nat.div_le_div_right h)
  rcases Nat.eq_or_lt_of_le hgap with heq | hlt
  · unfold roundMag
    simp only [← heq, Nat.shiftLeft_eq]
    exact Nat.mul_le_mul_right _ (nearestEven_mono _ h)
  · calc roundMag num den ≤ 2 ^ (24 + gap (num / den)) := roundMag_le_two_pow hd
      _ ≤ 2 ^ (23 + gap (num' / den)) := Nat.pow_le_pow_right (by decide) (by omega)
      _ ≤ roundMag num' den := two_pow_le_roundMag hd (by omega)

theorem natAbs_nearest_mono {num num' : Int} {den : Nat} (hd : 0 < den)
    (h : num.natAbs ≤ num'.natAbs) : (nearest num den).natAbs ≤ (nearest num' den).natAbs := by
  rw [natAbs_nearest, natAbs_nearest]
  exact roundMag_mono hd h

end Binary32
end LowPass
