/-
One sample moves the output towards it and never past it, in binary32 as in the
reals.

The three roundings do no harm to that. The rounded difference may exceed the
exact one, but only when that has more than 24 places, and then 0.07 of it leave
room enough (`correction_le`). The exact sum of output and correction lies
between output and sample, and both of these are values that rounding does not
pass (`step_mem`).
-/
import LowPass.Smoother
import LowPass.Proofs.Binary32.Nearest

namespace LowPass
namespace Smoother

open Binary32

/-- What one sample adds to an output that is `diff` units away from it, before
the sum is rounded. -/
def correction (diff : Int) : Int :=
  nearest (nearest diff 1 * weight.scaled) (2 ^ 149)

theorem scaled_weight : weight.scaled = 9395241 * 2 ^ 122 := by decide +kernel

theorem weight_nonneg : 0 ≤ weight.scaled := by rw [scaled_weight]; positivity

theorem correction_neg (diff : Int) : correction (-diff) = -correction diff := by
  unfold correction
  rw [nearest_neg, neg_mul, nearest_neg]

theorem correction_nonneg {diff : Int} (h : 0 ≤ diff) : 0 ≤ correction diff :=
  nearest_nonneg (mul_nonneg (nearest_nonneg h 1) weight_nonneg) _

theorem correction_le_nearest {diff : Int} (h : 0 ≤ diff)
    (hrange : (nearest diff 1).natAbs < magLimit) : correction diff ≤ nearest diff 1 := by
  apply nearest_le_of_le (Nat.two_pow_pos 149) (representable_nearest hrange)
  apply mul_le_mul_of_nonneg_left _ (nearest_nonneg h 1)
  rw [scaled_weight]
  norm_num

/-- The correction does not exceed the exact difference. -/
theorem correction_le {diff : Int} (h : 0 ≤ diff) : correction diff ≤ diff := by
  have hd := nearest_error_one diff
  have hp := nearest_error (nearest diff 1 * weight.scaled) (Nat.two_pow_pos 149)
  have hd0 := nearest_nonneg h 1
  rcases lt_or_ge diff 0x1000000 with hlt | hge
  · -- The difference is exact.
    have hexact : nearest diff 1 = diff := by
      rw [nearest_of_nonneg h, roundMag_of_fits (.of_lt (by omega))]
      omega
    have hrange : (nearest diff 1).natAbs < magLimit := by
      rw [hexact]
      exact Representable.lt (.of_lt (by omega))
    have hle := correction_le_nearest h hrange
    rwa [hexact] at hle
  · -- Both errors are small against a difference of that size.
    change 2 ^ 24 * |((2 ^ 149 : Nat) : Int) * correction diff - _| ≤ _ at hp
    rw [scaled_weight] at hp
    generalize nearest diff 1 = d at hd hd0 hp
    generalize correction diff = p at hp ⊢
    have hprod : (0 : Int) ≤ d * (9395241 * 2 ^ 122) := by positivity
    rw [abs_of_nonneg h] at hd
    rw [abs_of_nonneg hprod] at hp
    have hdown := le_abs_self (d - diff)
    have hpart := le_abs_self ((2 ^ 149 : Nat) * p - d * (9395241 * 2 ^ 122))
    push_cast at hp hpart
    linarith

theorem correction_mem (diff : Int) : correction diff ∈ Set.uIcc 0 diff := by
  rw [Set.mem_uIcc]
  rcases le_total 0 diff with hpos | hneg
  · exact .inl ⟨correction_nonneg hpos, correction_le hpos⟩
  · have hlow := @correction_nonneg (-diff) (by omega)
    have hhigh := @correction_le (-diff) (by omega)
    rw [correction_neg] at hlow hhigh
    exact .inr ⟨by omega, by omega⟩

theorem natAbs_correction_le {diff : Int} (hrange : (nearest diff 1).natAbs < magLimit) :
    (correction diff).natAbs ≤ (nearest diff 1).natAbs := by
  rcases le_total 0 diff with hpos | hneg
  · have hlow := correction_nonneg hpos
    have hhigh := correction_le_nearest hpos hrange
    omega
  · have hlow := @correction_nonneg (-diff) (by omega)
    have hhigh := @correction_le_nearest (-diff) (by omega)
      (by rwa [nearest_neg, Int.natAbs_neg])
    rw [correction_neg] at hlow hhigh
    rw [nearest_neg] at hhigh
    omega

theorem add_correction_mem (w x : Int) : w + correction (x - w) ∈ Set.uIcc w x := by
  have hpart := correction_mem (x - w)
  rw [Set.mem_uIcc] at hpart ⊢
  omega

theorem nearest_add_correction_mem {w x : Int} (hw : Representable w.natAbs)
    (hx : Representable x.natAbs) : nearest (w + correction (x - w)) 1 ∈ Set.uIcc w x :=
  nearest_mem_uIcc hw hx (add_correction_mem w x)

section
variable {s : Smoother} {x : Binary32} (hs : s.output.isFinite = true) (hx : x.isFinite = true)
  (hrange : (nearest (x.scaled - s.output.scaled) 1).natAbs < magLimit)
include hs hx hrange

/-- As long as the difference is in range, so are the product and the sum, and
the output is the old one and its correction, rounded. -/
theorem step_eq :
    (s.step x).output.isFinite = true ∧
      (s.step x).output.scaled =
        nearest (s.output.scaled + correction (x.scaled - s.output.scaled)) 1 := by
  obtain ⟨hdiff, hdiffEq⟩ := scaled_sub hx hs hrange
  have hproduct : (nearest ((x - s.output).scaled * weight.scaled) (2 ^ 149)).natAbs < magLimit := by
    rw [hdiffEq]
    exact Nat.lt_of_le_of_lt (natAbs_correction_le hrange) hrange
  obtain ⟨hprod, hprodEq⟩ := scaled_mul hdiff rfl hproduct
  rw [hdiffEq] at hprodEq
  have hmem := nearest_add_correction_mem (representable_scaled s.output) (representable_scaled x)
  have hsum : (nearest (s.output.scaled + ((x - s.output) * weight).scaled) 1).natAbs < magLimit := by
    have hw := (representable_scaled s.output).lt
    have hx := (representable_scaled x).lt
    rw [Set.mem_uIcc] at hmem
    rw [hprodEq]
    show (nearest (s.output.scaled + correction (x.scaled - s.output.scaled)) 1).natAbs < magLimit
    omega
  obtain ⟨hfinite, heq⟩ := scaled_add hs hprod hsum
  rw [hprodEq] at heq
  exact ⟨hfinite, heq⟩

/-- The output moves towards the sample and does not pass it. -/
theorem step_mem :
    (s.step x).output.isFinite = true ∧
      (s.step x).output.scaled ∈ Set.uIcc s.output.scaled x.scaled := by
  obtain ⟨hfinite, heq⟩ := step_eq hs hx hrange
  rw [heq]
  exact ⟨hfinite, nearest_add_correction_mem (representable_scaled _) (representable_scaled _)⟩

end

end Smoother
end LowPass
