/-
A filter and its mirror image.

Samples with the other sign give outputs with the other sign. Two runs on them may hold
zeros of different or of equal sign, for a sum that vanishes is a positive zero on both
sides; so zeros have to count as equal (`Opposite`). Each operation takes opposite values to
opposite values (`Opposite.add`, `Opposite.mul_right`), as rounding looks at magnitudes only,
and so does each sample (`step_opposite`).
-/
import LowPass.Proofs.Binary32.Nearest
import LowPass.Smoother

namespace LowPass
namespace Binary32

/-- Both NaN, or negatives of each other, where zeros of either sign are equal. -/
inductive Opposite : Binary32 → Binary32 → Prop
  | nan : Opposite .nan .nan
  | infinite (negative : Bool) : Opposite (.infinite negative) (.infinite !negative)
  | finite {x y : Binary32} : x.isFinite = true → y.isFinite = true → y.scaled = -x.scaled →
    Opposite x y

theorem opposite_zero (negative sign : Bool) : Opposite (zero negative) (zero sign) :=
  .finite rfl rfl (by simp)

theorem opposite_neg (x : Binary32) : Opposite x (-x) := by
  cases x with
  | nan => exact .nan
  | infinite negative => exact .infinite negative
  | finite negative mag fits => exact .finite rfl rfl (scaled_neg _)

theorem opposite_ofRatio (negative : Bool) (num den : Nat) :
    Opposite (ofRatio negative num den) (ofRatio (!negative) num den) := by
  unfold ofRatio
  split
  · exact opposite_neg (.finite ..)
  · exact .infinite negative

theorem ofRatio_zero (negative : Bool) (den : Nat) : ofRatio negative 0 den = zero negative := by
  have hlt : roundMag 0 den < magLimit := by
    rw [roundMag_zero]
    decide
  rw [ofRatio, dif_pos hlt]
  simp only [roundMag_zero, zero]

theorem exists_finite {x : Binary32} (hx : x.isFinite = true) :
    ∃ negative mag fits, x = .finite negative mag fits := by
  cases x with
  | finite negative mag fits => exact ⟨negative, mag, fits, rfl⟩
  | _ => cases hx

/-- Opposite numbers have one magnitude, and different signs unless they are zeros. -/
theorem magnitude_of_opposite {s t : Bool} {mag mag' : Nat} {fits : Representable mag}
    {fits' : Representable mag'} (h : (finite t mag' fits').scaled = -(finite s mag fits).scaled) :
    mag' = mag ∧ (mag = 0 ∨ t = !s) := by
  cases s <;> cases t <;> simp [scaled] at h ⊢ <;> omega

theorem Opposite.neg {x y : Binary32} (h : Opposite x y) : Opposite (-x) (-y) := by
  cases h with
  | nan => exact .nan
  | infinite negative => exact .infinite (!negative)
  | finite hx hy h => exact .finite (by simpa using hx) (by simpa using hy) (by simp [h])

section
variable {x : Binary32} (hx : x.isFinite = true) (negative : Bool)
include hx

theorem infinite_add : .infinite negative + x = .infinite negative := by
  cases x with
  | finite => rfl
  | _ => cases hx

theorem add_infinite : x + .infinite negative = .infinite negative := by
  cases x with
  | finite => rfl
  | _ => cases hx

end

theorem add_nan (x : Binary32) : x + .nan = .nan := by cases x <;> rfl

/-- **Sums of opposite values are opposite.** -/
theorem Opposite.add {x x' y y' : Binary32} (hx : Opposite x x') (hy : Opposite y y') :
    Opposite (x + y) (x' + y') := by
  cases hx with
  | nan => exact .nan
  | infinite s =>
    cases hy with
    | nan => exact .nan
    | infinite t =>
      cases s <;> cases t
      · exact .infinite false
      · exact .nan
      · exact .nan
      · exact .infinite true
    | finite hy hy' _ =>
      rw [infinite_add hy, infinite_add hy']
      exact .infinite s
  | finite hx hx' h =>
    cases hy with
    | nan =>
      rw [add_nan, add_nan]
      exact .nan
    | infinite t =>
      rw [add_infinite hx, add_infinite hx']
      exact .infinite t
    | finite hy hy' h' =>
      have hsum : x'.scaled + y'.scaled = -(x.scaled + y.scaled) := by omega
      rcases add_cases hx hy with ⟨hzero, s, hadd⟩ | ⟨hne, hadd⟩ <;>
        rcases add_cases hx' hy' with ⟨hzero', s', hadd'⟩ | ⟨hne', hadd'⟩ <;>
        rw [hadd, hadd']
      · exact opposite_zero s s'
      · omega
      · omega
      · have hsign : decide (x'.scaled + y'.scaled < 0) = !decide (x.scaled + y.scaled < 0) := by
          rw [hsum, ← decide_not, decide_eq_decide]
          omega
        rw [hsign, hsum, Int.natAbs_neg]
        exact opposite_ofRatio ..

/-- **So are products with one value.** -/
theorem Opposite.mul_right {x x' : Binary32} (h : Opposite x x') (y : Binary32) :
    Opposite (x * y) (x' * y) := by
  rw [mul_def, mul_def]
  cases h with
  | nan => exact .nan
  | infinite s =>
    cases y with
    | nan => exact .nan
    | infinite t =>
      rw [mul, mul, Bool.not_xor]
      exact .infinite _
    | finite t mag fits =>
      rw [mul, mul, Bool.not_xor]
      split
      · exact .nan
      · exact .infinite _
  | finite hx hx' h =>
    obtain ⟨s, mag, fits, rfl⟩ := exists_finite hx
    obtain ⟨s', mag', fits', rfl⟩ := exists_finite hx'
    obtain ⟨rfl, rfl | rfl⟩ := magnitude_of_opposite h
    · -- Zeros of any sign: the product is NaN, or a zero.
      cases y with
      | nan => exact .nan
      | infinite t => exact .nan
      | finite t magnitude _ =>
        rw [mul, mul, Nat.zero_mul, ofRatio_zero, ofRatio_zero]
        exact opposite_zero ..
    · cases y with
      | nan => exact .nan
      | infinite t =>
        rw [mul, mul, Bool.not_xor]
        split
        · exact .nan
        · exact .infinite _
      | finite t magnitude _ =>
        rw [mul, mul, Bool.not_xor]
        exact opposite_ofRatio ..

end Binary32

namespace Smoother

open Binary32

theorem step_opposite {s s' : Smoother} (hs : Opposite s.output s'.output) {x x' : Binary32}
    (hx : Opposite x x') : Opposite (s.step x).output (s'.step x').output :=
  hs.add ((hx.add hs.neg).mul_right weight)

theorem block_opposite {s s' : Smoother} (hs : Opposite s.output s'.output) {xs xs' : List Binary32}
    (hxs : List.Forall₂ Opposite xs xs') : List.Forall₂ Opposite (s.block xs).1 (s'.block xs').1 := by
  induction hxs generalizing s s' with
  | nil => exact .nil
  | cons hx _ ih =>
    have hnext := step_opposite hs hx
    exact .cons hnext (ih hnext)

/-- **A filter is odd.** Samples with the other sign, whatever they are, give position by
position the opposite output. -/
theorem block_neg (xs : List Binary32) :
    List.Forall₂ Opposite (fresh.block xs).1 (fresh.block (xs.map (- ·))).1 := by
  refine block_opposite (opposite_zero false false) ?_
  rw [List.forall₂_map_right_iff, List.forall₂_same]
  exact fun x _ => opposite_neg x

end Smoother
end LowPass
