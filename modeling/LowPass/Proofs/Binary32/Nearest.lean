/-
What rounding to binary32 does to an exact value, proved on integers: a value
`num / den` counts units of 2⁻¹⁴⁹, and so does its rounding.

* `roundMag_le_of_le`, `le_roundMag_of_le`: no representable bound is passed.
* `roundMag_error`: rounding moves a value by at most 2⁻²⁴ of it and half a
  unit; `roundMag_error_one`: a sum, being a whole number of units, moves by at
  most 2⁻²⁴ of it.
* `nearest`: the same with a sign; `nearest_error_rat` over the rationals.
* `scaled_add`, `scaled_sub`, `scaled_mul`: each operation is its exact result
  rounded so, as long as that is in range.
-/
import LowPass.Binary32.Arithmetic
import Mathlib.Tactic

namespace LowPass
namespace Binary32

/-! ## Places -/

theorem gap_mono {a b : Nat} (h : a ≤ b) : gap a ≤ gap b := by
  rcases Nat.eq_zero_or_pos a with rfl | ha
  · simp [gap]
  · have hlog : a.log2 ≤ b.log2 := by
      rw [Nat.le_log2 (by omega)]
      exact Nat.le_trans (Nat.log2_self_le (by omega)) h
    unfold gap
    omega

theorem two_pow_gap_dvd {mag : Nat} (h : Representable mag) : 2 ^ gap mag ∣ mag := by
  rcases h.lt_or_normal with hlt | ⟨m, k, hge, hlt, -, rfl⟩
  · rw [gap_of_lt hlt]
    exact one_dvd _
  · rw [gap_shiftLeft k hge hlt, Nat.shiftLeft_eq]
    exact Nat.dvd_mul_left _ _

theorem two_pow_le_of_gap {mag : Nat} (h : gap mag ≠ 0) : 2 ^ (23 + gap mag) ≤ mag := by
  have hlog : 23 + gap mag = mag.log2 := by
    unfold gap at h ⊢
    omega
  have hne : mag ≠ 0 := by
    rintro rfl
    exact h rfl
  rw [hlog]
  exact Nat.log2_self_le hne

theorem lt_two_pow_of_gap (mag : Nat) : mag < 2 ^ (24 + gap mag) := by
  apply Nat.lt_of_lt_of_le Nat.lt_log2_self
  apply Nat.pow_le_pow_right (by decide)
  unfold gap
  omega

/-! ## Magnitudes -/

section
variable {num den bound : Nat} (hd : 0 < den)
include hd

theorem roundMag_le_of_le (hb : Representable bound) (h : num ≤ bound * den) :
    roundMag num den ≤ bound := by
  have hdiv : num / den ≤ bound := Nat.div_le_of_le_mul (by rwa [Nat.mul_comm])
  have hdvd : 2 ^ gap (num / den) ∣ bound :=
    Nat.dvd_trans (pow_dvd_pow 2 (gap_mono hdiv)) (two_pow_gap_dvd hb)
  unfold roundMag
  generalize gap (num / den) = k at hdvd ⊢
  obtain ⟨m, rfl⟩ := hdvd
  dsimp only
  rw [Nat.shiftLeft_eq, Nat.shiftLeft_eq, Nat.mul_comm (2 ^ k)]
  apply Nat.mul_le_mul_right
  apply nearestEven_le_of_le (Nat.mul_pos hd (Nat.two_pow_pos k))
  calc num ≤ 2 ^ k * m * den := h
    _ = m * (den * 2 ^ k) := by ring

theorem le_roundMag_of_le (hb : Representable bound) (h : bound * den ≤ num) :
    bound ≤ roundMag num den := by
  have hdiv : bound ≤ num / den := (Nat.le_div_iff_mul_le hd).2 h
  have hgap := gap_mono hdiv
  have hdvd := two_pow_gap_dvd hb
  have hlt := lt_two_pow_of_gap bound
  have hden : ∀ k, 0 < den * 2 ^ k := fun k => Nat.mul_pos hd (Nat.two_pow_pos k)
  unfold roundMag
  dsimp only
  rw [Nat.shiftLeft_eq, Nat.shiftLeft_eq]
  rcases Nat.eq_or_lt_of_le hgap with heq | hlt'
  · -- The bound has the unit of the result: it is a multiple of it.
    rw [← heq]
    obtain ⟨m, hm⟩ := hdvd
    generalize gap bound = k at hm ⊢
    subst hm
    rw [Nat.mul_comm (2 ^ k)]
    apply Nat.mul_le_mul_right
    apply le_nearestEven_of_le (hden k)
    calc m * (den * 2 ^ k) = 2 ^ k * m * den := by ring
      _ ≤ num := h
  · -- The result has a larger unit, and so at least 2²³ of it.
    have hlow := @two_pow_le_of_gap (num / den) (by omega)
    generalize gap (num / den) = k at hlow hlt' ⊢
    have hnear : 2 ^ 23 ≤ nearestEven num (den * 2 ^ k) := by
      apply le_nearestEven_of_le (hden k)
      calc 2 ^ 23 * (den * 2 ^ k) = 2 ^ (23 + k) * den := by rw [Nat.pow_add]; ring
        _ ≤ num := (Nat.le_div_iff_mul_le hd).1 hlow
    calc bound ≤ 2 ^ (24 + gap bound) := Nat.le_of_lt hlt
      _ ≤ 2 ^ (23 + k) := Nat.pow_le_pow_right (by decide) (by omega)
      _ = 2 ^ 23 * 2 ^ k := Nat.pow_add 2 23 k
      _ ≤ nearestEven num (den * 2 ^ k) * 2 ^ k := Nat.mul_le_mul_right _ hnear

theorem roundMag_error_unit (num : Nat) :
    2 * |((den * roundMag num den : Nat) : Int) - num| ≤ (den * 2 ^ gap (num / den) : Nat) := by
  unfold roundMag
  generalize gap (num / den) = k
  dsimp only
  rw [Nat.shiftLeft_eq, Nat.shiftLeft_eq]
  have hpos : 0 < den * 2 ^ k := Nat.mul_pos hd (Nat.two_pow_pos k)
  have hup := @nearestEven_le num _ hpos
  have hdown := @le_nearestEven num _ hpos
  have hmul : den * (nearestEven num (den * 2 ^ k) * 2 ^ k) =
      den * 2 ^ k * nearestEven num (den * 2 ^ k) := by ring
  rw [hmul]
  generalize den * 2 ^ k * nearestEven num (den * 2 ^ k) = r at hup hdown ⊢
  rcases abs_cases ((r : Int) - num) with ⟨h, -⟩ | ⟨h, -⟩ <;> rw [h] <;> omega

/-- Rounding moves a value by at most 2⁻²⁴ of it and half a unit. -/
theorem roundMag_error (num : Nat) :
    2 ^ 24 * |((den * roundMag num den : Nat) : Int) - num| ≤ num + 2 ^ 23 * den := by
  have herror := roundMag_error_unit hd num
  have hunit : 2 ^ 23 * (den * 2 ^ gap (num / den)) ≤ num + 2 ^ 23 * den := by
    by_cases hgap : gap (num / den) = 0
    · simp [hgap]
    · have hlow := (Nat.le_div_iff_mul_le hd).1 (two_pow_le_of_gap hgap)
      rw [Nat.pow_add] at hlow
      calc 2 ^ 23 * (den * 2 ^ gap (num / den)) = 2 ^ 23 * 2 ^ gap (num / den) * den := by ring
        _ ≤ num + 2 ^ 23 * den := by omega
  omega

end

@[simp] theorem roundMag_zero (den : Nat) : roundMag 0 den = 0 := by
  simp [roundMag, nearestEven]

/-- A whole number of units is kept as long as it has 24 places. -/
theorem roundMag_error_one (num : Nat) : 2 ^ 24 * |(roundMag num 1 : Int) - num| ≤ num := by
  by_cases hgap : gap num = 0
  · have hlt := lt_two_pow_of_gap num
    rw [hgap] at hlt
    rw [roundMag_of_fits (.of_lt hlt)]
    simp
  · have herror := roundMag_error_unit Nat.one_pos num
    have hlow := two_pow_le_of_gap hgap
    rw [Nat.div_one, Nat.one_mul, Nat.one_mul] at herror
    rw [Nat.pow_add] at hlow
    omega

/-! ## With a sign -/

/-- `num / den` units, rounded. -/
def nearest (num : Int) (den : Nat) : Int :=
  if num < 0 then -(roundMag num.natAbs den : Int) else roundMag num.natAbs den

@[simp] theorem nearest_zero (den : Nat) : nearest 0 den = 0 := by
  simp [nearest]

@[simp] theorem nearest_neg (num : Int) (den : Nat) : nearest (-num) den = -nearest num den := by
  rcases lt_trichotomy num 0 with hneg | rfl | hpos
  · rw [nearest, nearest, if_pos hneg, if_neg (by omega), Int.natAbs_neg, Int.neg_neg]
  · simp
  · have hneg : -num < 0 := by omega
    rw [nearest, nearest, if_pos hneg, if_neg (by omega), Int.natAbs_neg]

theorem natAbs_nearest (num : Int) (den : Nat) :
    (nearest num den).natAbs = roundMag num.natAbs den := by
  unfold nearest
  split <;> simp

theorem representable_nearest {num : Int} {den : Nat} (h : (nearest num den).natAbs < magLimit) :
    Representable (nearest num den).natAbs := by
  rw [natAbs_nearest] at h ⊢
  exact roundMag_fits h

theorem nearest_of_nonneg {num : Int} (h : 0 ≤ num) (den : Nat) :
    nearest num den = roundMag num.natAbs den := by
  rw [nearest, if_neg (by omega)]

section
variable {num bound : Int} {den : Nat} (hd : 0 < den) (hb : Representable bound.natAbs)
include hd hb

theorem nearest_le_of_le (h : num ≤ bound * den) : nearest num den ≤ bound := by
  rcases lt_or_ge num 0 with hneg | hpos
  · rw [nearest, if_pos hneg]
    rcases lt_or_ge bound 0 with hbneg | hbpos
    · have hmul : bound.natAbs * den ≤ num.natAbs := by
        zify
        rw [abs_of_neg hbneg, abs_of_neg hneg]
        linarith
      have := le_roundMag_of_le hd hb hmul
      omega
    · omega
  · have hbpos : 0 ≤ bound := by
      have hd' : (0 : Int) < den := by exact_mod_cast hd
      by_contra hlt
      have := mul_neg_of_neg_of_pos (not_le.1 hlt) hd'
      omega
    have hmul : num.natAbs ≤ bound.natAbs * den := by
      zify
      rwa [abs_of_nonneg hbpos, abs_of_nonneg hpos]
    have := roundMag_le_of_le hd hb hmul
    rw [nearest_of_nonneg hpos]
    omega

theorem le_nearest_of_le (h : bound * den ≤ num) : bound ≤ nearest num den := by
  have hneg : Representable (-bound).natAbs := by rwa [Int.natAbs_neg]
  have := @nearest_le_of_le (-num) _ _ hd hneg (by linarith)
  rw [nearest_neg] at this
  omega

end

theorem nearest_mem_uIcc {num a b : Int} (ha : Representable a.natAbs)
    (hb : Representable b.natAbs) (h : num ∈ Set.uIcc a b) : nearest num 1 ∈ Set.uIcc a b := by
  have hone : (0 : Nat) < 1 := Nat.one_pos
  rw [Set.mem_uIcc] at h ⊢
  rcases h with ⟨hlow, hhigh⟩ | ⟨hlow, hhigh⟩
  · exact .inl ⟨le_nearest_of_le hone ha (by simpa using hlow),
      nearest_le_of_le hone hb (by simpa using hhigh)⟩
  · exact .inr ⟨le_nearest_of_le hone hb (by simpa using hlow),
      nearest_le_of_le hone ha (by simpa using hhigh)⟩

theorem nearest_nonneg {num : Int} (h : 0 ≤ num) (den : Nat) : 0 ≤ nearest num den := by
  rw [nearest_of_nonneg h]
  exact Int.natCast_nonneg _

theorem abs_nearest_sub (num : Int) (den : Nat) :
    |den * nearest num den - num| =
      |((den * roundMag num.natAbs den : Nat) : Int) - num.natAbs| := by
  rcases lt_or_ge num 0 with hneg | hpos
  · rw [nearest, if_pos hneg, ← abs_neg]
    congr 1
    push_cast
    rw [abs_of_neg hneg]
    ring
  · rw [nearest_of_nonneg hpos]
    congr 1
    push_cast
    rw [abs_of_nonneg hpos]

theorem nearest_error (num : Int) {den : Nat} (hd : 0 < den) :
    2 ^ 24 * |den * nearest num den - num| ≤ |num| + 2 ^ 23 * den := by
  have h := roundMag_error hd num.natAbs
  rwa [← abs_nearest_sub, Int.natCast_natAbs] at h

theorem nearest_error_one (num : Int) : 2 ^ 24 * |nearest num 1 - num| ≤ |num| := by
  have h := roundMag_error_one num.natAbs
  have habs := abs_nearest_sub num 1
  rw [Nat.one_mul, Nat.cast_one, one_mul] at habs
  rwa [← habs, Int.natCast_natAbs] at h

theorem nearest_error_rat (num : Int) {den : Nat} (hd : 0 < den) :
    |(nearest num den : ℚ) - num / den| ≤ |(num : ℚ) / den| / 2 ^ 24 + 1 / 2 := by
  have herror : (2 : ℚ) ^ 24 * |(den : ℚ) * nearest num den - num| ≤ |(num : ℚ)| + 2 ^ 23 * den := by
    exact_mod_cast nearest_error num hd
  have hd' : (0 : ℚ) < den := by exact_mod_cast hd
  have hsub : (nearest num den : ℚ) - num / den = (den * nearest num den - num) / den := by
    field_simp
  rw [hsub, abs_div, abs_div, abs_of_pos hd', div_le_iff₀ hd']
  field_simp
  linarith

theorem nearest_error_one_rat (num : Int) :
    |(nearest num 1 : ℚ) - num| ≤ |(num : ℚ)| / 2 ^ 24 := by
  have herror : (2 : ℚ) ^ 24 * |(nearest num 1 : ℚ) - num| ≤ |(num : ℚ)| := by
    exact_mod_cast nearest_error_one num
  rw [le_div_iff₀ (by norm_num)]
  linarith

/-! ## Range -/

/-- The greatest finite value. -/
def largest : Binary32 :=
  .finite false (0xffffff <<< 253) ⟨0xffffff, 253, by decide, by decide, rfl⟩

theorem nearest_lt_magLimit {num : Int} {den : Nat} (hd : 0 < den)
    (h : |num| ≤ largest.scaled * den) : (nearest num den).natAbs < magLimit := by
  have hfits : Representable largest.scaled.natAbs :=
    ⟨0xffffff, 253, by decide, by decide, rfl⟩
  have hfits' : Representable (-largest.scaled).natAbs := by rwa [Int.natAbs_neg]
  obtain ⟨hlow, hhigh⟩ := abs_le.1 h
  have hle : nearest num den ≤ largest.scaled := nearest_le_of_le hd hfits hhigh
  have hge : -largest.scaled ≤ nearest num den :=
    le_nearest_of_le hd hfits' (by rwa [neg_mul])
  have : largest.scaled < magLimit := by decide
  omega

/-- The exact value of a finite number. -/
def value (x : Binary32) : ℚ := x.scaled / 2 ^ 149

theorem scaled_eq_value (x : Binary32) : (x.scaled : ℚ) = x.value * 2 ^ 149 := by
  unfold value
  field_simp

theorem abs_value (x : Binary32) : |x.value| = |(x.scaled : ℚ)| / 2 ^ 149 := by
  rw [value, abs_div, abs_of_pos (by norm_num : (0 : ℚ) < 2 ^ 149)]

theorem abs_value_sub (x y : Binary32) :
    |x.value - y.value| = |(x.scaled : ℚ) - y.scaled| / 2 ^ 149 := by
  rw [value, value, ← sub_div, abs_div, abs_of_pos (by norm_num : (0 : ℚ) < 2 ^ 149)]

theorem abs_value_le_iff {x : Binary32} {bound : ℚ} :
    |x.value| ≤ bound ↔ |(x.scaled : ℚ)| ≤ bound * 2 ^ 149 := by
  rw [abs_value, div_le_iff₀ (by norm_num)]

/-! ## Operations -/

theorem representable_scaled (x : Binary32) : Representable x.scaled.natAbs := by
  cases x with
  | finite negative mag fits => cases negative <;> simpa [scaled] using fits
  | _ => exact .of_lt (by simp [scaled])

/-- A ratio with the right sign is rounded to its nearest value in range. -/
theorem scaled_ofRatio {num : Int} {den : Nat} {negative : Bool}
    (hsign : num = 0 ∨ negative = decide (num < 0))
    (h : (nearest num den).natAbs < magLimit) :
    (ofRatio negative num.natAbs den).isFinite = true ∧
      (ofRatio negative num.natAbs den).scaled = nearest num den := by
  rw [natAbs_nearest] at h
  rw [ofRatio, dif_pos h]
  refine ⟨rfl, ?_⟩
  rcases hsign with rfl | rfl
  · simp [scaled]
  · simp [scaled, nearest]

/-- A sum of finite values vanishes, or it is the exact sum, rounded. -/
theorem add_cases {x y : Binary32} (hx : x.isFinite = true) (hy : y.isFinite = true) :
    (x.scaled + y.scaled = 0 ∧ ∃ sign, x + y = zero sign) ∨
      (x.scaled + y.scaled ≠ 0 ∧
        x + y = ofRatio (decide (x.scaled + y.scaled < 0)) (x.scaled + y.scaled).natAbs 1) := by
  cases x with
  | finite s mag fits =>
    cases y with
    | finite t mag' fits' =>
      rw [add_def]
      unfold add
      dsimp only
      split
      · rename_i hsum
        exact .inl ⟨hsum, _, rfl⟩
      · rename_i hsum
        exact .inr ⟨hsum, rfl⟩
    | _ => cases hy
  | _ => cases hx

theorem scaled_add {x y : Binary32} (hx : x.isFinite = true) (hy : y.isFinite = true)
    (h : (nearest (x.scaled + y.scaled) 1).natAbs < magLimit) :
    (x + y).isFinite = true ∧ (x + y).scaled = nearest (x.scaled + y.scaled) 1 := by
  rcases add_cases hx hy with ⟨hsum, sign, hadd⟩ | ⟨-, hadd⟩
  · rw [hadd, hsum]
    simp [zero, isFinite, scaled]
  · rw [hadd]
    exact scaled_ofRatio (.inr rfl) h

theorem scaled_sub {x y : Binary32} (hx : x.isFinite = true) (hy : y.isFinite = true)
    (h : (nearest (x.scaled - y.scaled) 1).natAbs < magLimit) :
    (x - y).isFinite = true ∧ (x - y).scaled = nearest (x.scaled - y.scaled) 1 := by
  have hneg : x.scaled - y.scaled = x.scaled + (-y).scaled := by rw [scaled_neg]; ring
  rw [hneg] at h ⊢
  exact scaled_add hx (by rwa [isFinite_neg]) h

theorem isFinite_ofRatio (negative : Bool) (num den : Nat) :
    (ofRatio negative num den).isFinite = true ↔ roundMag num den < magLimit := by
  unfold ofRatio
  split <;> simp_all [isFinite]

theorem natAbs_lt_of_isFinite_sub {x y : Binary32} (hx : x.isFinite = true)
    (hy : y.isFinite = true) (h : (x - y).isFinite = true) :
    (nearest (x.scaled - y.scaled) 1).natAbs < magLimit := by
  rw [← isFinite_neg] at hy
  have hneg : x.scaled - y.scaled = x.scaled + (-y).scaled := by rw [scaled_neg]; ring
  rw [hneg, natAbs_nearest]
  rw [sub_def] at h
  rcases add_cases hx hy with ⟨hsum, -⟩ | ⟨-, hadd⟩
  · rw [hsum]
    decide
  · rw [hadd] at h
    exact (isFinite_ofRatio _ _ _).1 h

/-- A product of finite values is the exact product, rounded. -/
theorem mul_eq_ofRatio {x y : Binary32} (hx : x.isFinite = true) (hy : y.isFinite = true) :
    ∃ sign, (x.scaled * y.scaled = 0 ∨ sign = decide (x.scaled * y.scaled < 0)) ∧
      x * y = ofRatio sign (x.scaled * y.scaled).natAbs (2 ^ 149) := by
  cases x with
  | finite s mag fits =>
    cases y with
    | finite t mag' fits' =>
      have habs : ((finite s mag fits).scaled * (finite t mag' fits').scaled).natAbs = mag * mag' := by
        rw [Int.natAbs_mul]
        cases s <;> cases t <;> simp [scaled]
      have hsign : (finite s mag fits).scaled * (finite t mag' fits').scaled = 0 ∨
          (s ^^ t) = decide ((finite s mag fits).scaled * (finite t mag' fits').scaled < 0) := by
        rcases Nat.eq_zero_or_pos (mag * mag') with h0 | hpos
        · exact .inl (Int.natAbs_eq_zero.1 (habs.trans h0))
        · have hpos : (0 : Int) < mag * mag' := by exact_mod_cast hpos
          refine .inr ?_
          cases s <;> cases t <;> simp [scaled] <;> omega
      refine ⟨s ^^ t, hsign, ?_⟩
      rw [habs]
      rfl
    | _ => cases hy
  | _ => cases hx

theorem scaled_mul {x y : Binary32} (hx : x.isFinite = true) (hy : y.isFinite = true)
    (h : (nearest (x.scaled * y.scaled) (2 ^ 149)).natAbs < magLimit) :
    (x * y).isFinite = true ∧ (x * y).scaled = nearest (x.scaled * y.scaled) (2 ^ 149) := by
  obtain ⟨sign, hsign, hmul⟩ := mul_eq_ofRatio hx hy
  rw [hmul]
  exact scaled_ofRatio hsign h

end Binary32
end LowPass
