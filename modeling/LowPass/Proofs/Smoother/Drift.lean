/-
How far rounding takes the filter from the filter over the rationals.

One step is off by a few units of its operands at most (`step_drift`), and what
was off before is left to 93 parts of 100. The bound is chosen so that both
together give the bound again, and so it holds after any number of samples
(`block_drift`).
-/
import LowPass.Proofs.Smoother.Approach

namespace LowPass
namespace Smoother

open Binary32

/-- The value of `weight`. -/
def part : ℚ := 9395241 / 2 ^ 27

theorem value_weight : weight.value = part := by
  unfold value part
  rw [scaled_weight]
  norm_num

/-- The outputs without rounding. -/
def exactBlock (output : ℚ) : List ℚ → List ℚ
  | [] => []
  | x :: xs =>
    let next := output + part * (x - output)
    next :: exactBlock next xs

/-- How far outputs can be from the exact ones if all values are within a bound. -/
def drift (bound : ℚ) : ℚ := 19 * bound / 2 ^ 24 + 1 / 2 ^ 146

theorem nearest_mul_weight_error (diff : Int) :
    |(nearest (diff * weight.scaled) (2 ^ 149) : ℚ) - part * diff| ≤
      part * |(diff : ℚ)| / 2 ^ 24 + 1 / 2 := by
  have herror := nearest_error_rat (diff * weight.scaled) (Nat.two_pow_pos 149)
  have hexact : ((diff * weight.scaled : Int) : ℚ) / (2 ^ 149 : Nat) = part * diff := by
    rw [Int.cast_mul, scaled_eq_value, value_weight, Nat.cast_pow, Nat.cast_ofNat]
    field_simp
  have hpart : (0 : ℚ) ≤ part := by unfold part; norm_num
  rwa [hexact, abs_mul, abs_of_nonneg hpart] at herror

theorem abs_le_of_mem_uIcc {a b y : Int} {m : ℚ} (ha : |(a : ℚ)| ≤ m) (hb : |(b : ℚ)| ≤ m)
    (h : y ∈ Set.uIcc a b) : |(y : ℚ)| ≤ m := by
  rw [abs_le] at ha hb ⊢
  rcases Set.mem_uIcc.1 h with ⟨hlow, hhigh⟩ | ⟨hlow, hhigh⟩
  · have hlow' : (a : ℚ) ≤ y := by exact_mod_cast hlow
    have hhigh' : (y : ℚ) ≤ b := by exact_mod_cast hhigh
    constructor <;> linarith
  · have hlow' : (b : ℚ) ≤ y := by exact_mod_cast hlow
    have hhigh' : (y : ℚ) ≤ a := by exact_mod_cast hhigh
    constructor <;> linarith

/-- The three roundings of a step together, in units. -/
theorem nearest_add_correction_error {w x : Int} {m : ℚ} (hw : |(w : ℚ)| ≤ m)
    (hx : |(x : ℚ)| ≤ m) :
    |(nearest (w + correction (x - w)) 1 : ℚ) - (w + part * (x - w))| ≤
      part * (19 * m / 2 ^ 24 + 8) := by
  have hdiff := nearest_error_one_rat (x - w)
  have hproduct := nearest_mul_weight_error (nearest (x - w) 1)
  have hsum := nearest_error_one_rat (w + correction (x - w))
  have hmiddle := abs_le_of_mem_uIcc hw hx (add_correction_mem w x)
  change |(correction (x - w) : ℚ) - _| ≤ _ at hproduct
  generalize nearest (w + correction (x - w)) 1 = y at hsum ⊢
  generalize correction (x - w) = p at hproduct hsum hmiddle
  generalize nearest (x - w) 1 = d at hdiff hproduct
  push_cast at hdiff hsum hmiddle
  have hspan : |(x : ℚ) - w| ≤ 2 * m := by
    have := abs_sub (x : ℚ) w
    linarith
  have hd : |(d : ℚ)| ≤ 2 * m + 2 * m / 2 ^ 24 := by
    have := abs_sub_abs_le_abs_sub (d : ℚ) (x - w)
    linarith
  have hpart : (0 : ℚ) ≤ part := by unfold part; norm_num
  calc |(y : ℚ) - (w + part * (x - w))|
      = |(y - (w + p)) + (p - part * d) + part * (d - (x - w))| := by congr 1; ring
    _ ≤ |(y : ℚ) - (w + p)| + |(p : ℚ) - part * d| + |part * (d - (x - w))| := abs_add_three _ _ _
    _ ≤ m / 2 ^ 24 + (part * |(d : ℚ)| / 2 ^ 24 + 1 / 2) + part * (2 * m / 2 ^ 24) := by
      rw [abs_mul, abs_of_nonneg hpart]
      gcongr
      · linarith
      · linarith
    _ ≤ m / 2 ^ 24 + (part * (2 * m + 2 * m / 2 ^ 24) / 2 ^ 24 + 1 / 2) +
        part * (2 * m / 2 ^ 24) := by gcongr
    _ ≤ part * (19 * m / 2 ^ 24 + 8) := by
      have hm : 0 ≤ m := le_trans (abs_nonneg _) hw
      unfold part
      linarith

/-- One step is off by no more than the share of the drift that it takes away. -/
theorem step_drift {s : Smoother} {x : Binary32} {bound : ℚ} (hs : s.output.isFinite = true)
    (hx : x.isFinite = true) (hmax : bound ≤ largest.value / 2) (hw : |s.output.value| ≤ bound)
    (hxb : |x.value| ≤ bound) :
    (s.step x).output.isFinite = true ∧ |(s.step x).output.value| ≤ bound ∧
      |(s.step x).output.value - (s.output.value + part * (x.value - s.output.value))| ≤
        part * drift bound := by
  rw [abs_value_le_iff] at hw hxb
  have hrange : (nearest (x.scaled - s.output.scaled) 1).natAbs < magLimit := by
    apply nearest_lt_magLimit Nat.one_pos
    have hspan := abs_sub (x.scaled : ℚ) s.output.scaled
    have hlargest : |(x.scaled : ℚ) - s.output.scaled| ≤ largest.scaled := by
      rw [scaled_eq_value largest]
      linarith
    rw [Nat.cast_one, mul_one]
    exact_mod_cast hlargest
  obtain ⟨hfinite, hmem⟩ := step_mem hs hx hrange
  obtain ⟨-, heq⟩ := step_eq hs hx hrange
  refine ⟨hfinite, abs_value_le_iff.2 (abs_le_of_mem_uIcc hw hxb hmem), ?_⟩
  have herror := nearest_add_correction_error hw hxb
  rw [← heq, scaled_eq_value, scaled_eq_value, scaled_eq_value] at herror
  have hscale : (s.step x).output.value * 2 ^ 149 -
      (s.output.value * 2 ^ 149 + part * (x.value * 2 ^ 149 - s.output.value * 2 ^ 149)) =
      ((s.step x).output.value - (s.output.value + part * (x.value - s.output.value))) * 2 ^ 149 := by
    ring
  rw [hscale, abs_mul, abs_of_nonneg (by positivity : (0 : ℚ) ≤ 2 ^ 149)] at herror
  refine le_of_mul_le_mul_right (le_trans herror (le_of_eq ?_)) (by norm_num : (0 : ℚ) < 2 ^ 149)
  unfold drift
  ring

theorem block_drift_from {bound : ℚ} (hmax : bound ≤ largest.value / 2) {xs : List Binary32}
    (hxs : ∀ x ∈ xs, x.isFinite = true ∧ |x.value| ≤ bound) {s : Smoother} {exact : ℚ}
    (hs : s.output.isFinite = true) (hw : |s.output.value| ≤ bound)
    (hnear : |s.output.value - exact| ≤ drift bound) :
    List.Forall₂ (fun y Y => y.isFinite = true ∧ |y.value - Y| ≤ drift bound)
      (s.block xs).1 (exactBlock exact (xs.map value)) := by
  induction xs generalizing s exact with
  | nil => exact .nil
  | cons x xs ih =>
    obtain ⟨hx, hxb⟩ := hxs x List.mem_cons_self
    obtain ⟨hfinite, hbound, herror⟩ := step_drift hs hx hmax hw hxb
    have hnext : |(s.step x).output.value - (exact + part * (x.value - exact))| ≤ drift bound := by
      have hpart : (0 : ℚ) ≤ 1 - part := by unfold part; norm_num
      calc |(s.step x).output.value - (exact + part * (x.value - exact))|
          = |((s.step x).output.value - (s.output.value + part * (x.value - s.output.value))) +
              (1 - part) * (s.output.value - exact)| := by congr 1; ring
        _ ≤ |(s.step x).output.value - (s.output.value + part * (x.value - s.output.value))| +
              |(1 - part) * (s.output.value - exact)| := abs_add_le _ _
        _ ≤ part * drift bound + (1 - part) * drift bound := by
            rw [abs_mul, abs_of_nonneg hpart]
            gcongr
        _ = drift bound := by ring
    refine .cons ⟨hfinite, hnext⟩ ?_
    exact ih (fun y hy => hxs y (List.mem_cons_of_mem x hy)) hfinite hbound hnext

/-- The outputs in binary32 stay within one distance of the exact ones, however
many samples there are. -/
theorem block_drift {bound : ℚ} (hmax : bound ≤ largest.value / 2) {s : Smoother}
    (hs : s.output.isFinite = true ∧ |s.output.value| ≤ bound) {xs : List Binary32}
    (hxs : ∀ x ∈ xs, x.isFinite = true ∧ |x.value| ≤ bound) :
    List.Forall₂
      (fun y exact => y.isFinite = true ∧ |y.value - exact| ≤ 19 * bound / 2 ^ 24 + 1 / 2 ^ 146)
      (s.block xs).1 (exactBlock s.output.value (xs.map value)) := by
  apply block_drift_from hmax hxs hs.1 hs.2
  rw [sub_self, abs_zero]
  have hbound : 0 ≤ bound := le_trans (abs_nonneg _) hs.2
  unfold drift
  positivity

/-- Half of the greatest value, the loudest that a sample may be here. -/
def loudest : Binary32 :=
  .finite false (0xffffff <<< 252) ⟨0xffffff, 252, by decide, by decide, rfl⟩

theorem block_drift_loudest :
    List.Forall₂
      (fun y exact =>
        y.isFinite = true ∧ |y.value - exact| ≤ 19 * loudest.value / 2 ^ 24 + 1 / 2 ^ 146)
      ((Smoother.mk loudest).block [-loudest, loudest, -.zero false]).1
      (exactBlock loudest.value ([-loudest, loudest, -.zero false].map value)) := by
  apply block_drift
  · decide +kernel
  · decide +kernel
  · decide +kernel

end Smoother
end LowPass
