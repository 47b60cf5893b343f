/-
The same sample again and again. Every output lies between the one before and
the sample, so the outputs never turn back and never pass it
(`held_mem`), and in the end they stay where they are (`exists_settled`).

They may stop short of the sample, but only where rounding swallows what the
sample would add. Then that is half a spacing at most
(`two_mul_abs_le_spacing`), and the sample less than eleven spacings away
(`abs_lt_of_stalled`). Half a spacing is the weight's part of a little more than
seven; it is eleven because among the smallest numbers the product with the weight
is rounded too, from three quarters of a spacing down to the half that is swallowed.
-/
import LowPass.Proofs.Smoother.Approach
import LowPass.Proofs.Binary32.Spacing

namespace LowPass
namespace Binary32

theorem two_mul_abs_le_spacing {w c : Int} (h : nearest (w + c) 1 = w) :
    2 * |c| ≤ spacing w.natAbs := by
  have herror := roundMag_error_unit Nat.one_pos (w + c).natAbs
  have habs := abs_nearest_sub (w + c) 1
  have hgap := @gap_le_gap_roundMag (w + c).natAbs 1 Nat.one_pos
  rw [← natAbs_nearest, h] at hgap
  rw [← habs, h, Nat.cast_one, one_mul, Nat.one_mul, abs_sub_comm, add_sub_cancel_left] at herror
  have hpow : (2 ^ gap ((w + c).natAbs / 1) : Nat) ≤ spacing w.natAbs :=
    Nat.pow_le_pow_right (by decide) hgap
  omega

theorem eq_of_scaled_eq {x y : Binary32} (hx : x.isFinite = true) (hy : y.isFinite = true)
    (h : x.scaled = y.scaled) (hzero : x = zero true ↔ y = zero true) : x = y := by
  cases x with
  | finite s mag fits =>
    cases y with
    | finite t mag' fits' =>
      have hmag : mag = mag' := by cases s <;> cases t <;> simp [scaled] at h <;> omega
      subst hmag
      rcases Nat.eq_zero_or_pos mag with rfl | hpos
      · cases s <;> cases t <;> simp [zero] at hzero ⊢
      · cases s <;> cases t <;> simp [scaled] at h ⊢ <;> omega
    | _ => cases hy
  | _ => cases hx

theorem eq_zero_of_roundMag_one {num : Nat} (h : roundMag num 1 = 0) : num = 0 := by
  have herror := roundMag_error_one num
  simp only [h, Int.abs_eq_natAbs] at herror
  omega

theorem eq_zero_of_add_eq_zero {x y : Binary32} (h : x + y = zero true) : x = zero true := by
  rw [add_def] at h
  cases x with
  | nan => cases h
  | infinite s =>
    cases y with
    | infinite t =>
      unfold add at h
      dsimp only at h
      split at h <;> cases h
    | _ => cases h
  | finite s mag fits =>
    cases y with
    | nan => cases h
    | infinite t => cases h
    | finite t mag' fits' =>
      unfold add at h
      dsimp only at h
      split at h
      · rename_i hsum
        obtain ⟨rfl, rfl⟩ : s = true ∧ t = true := by simpa [zero] using h
        simp only [scaled, if_true] at hsum
        obtain rfl : mag = 0 := by omega
        rfl
      · rename_i hsum
        unfold ofRatio at h
        split at h
        · have hround : roundMag _ 1 = 0 := (Binary32.finite.inj h).2
          exact absurd (eq_zero_of_roundMag_one hround) (by simpa using hsum)
        · cases h

end Binary32

namespace Smoother

open Binary32

theorem abs_correction (diff : Int) : |correction diff| = correction |diff| := by
  rcases abs_cases diff with ⟨h, hsign⟩ | ⟨h, hsign⟩
  · rw [h, abs_of_nonneg (correction_nonneg hsign)]
  · rw [h, correction_neg, abs_of_nonpos]
    have := @correction_nonneg (-diff) (by omega)
    rw [correction_neg] at this
    omega

/-- Of eleven spacings the weight leaves more than half a spacing. -/
theorem lt_two_mul_correction {diff : Int} {k : Nat} (hk : k ≤ 253)
    (h : 11 * 2 ^ k ≤ diff) : 2 ^ k < 2 * correction diff := by
  have hfits : Representable (11 * 2 ^ k : Int).natAbs := by
    refine ⟨11, k, by decide, hk, ?_⟩
    rw [Nat.shiftLeft_eq, Int.natAbs_mul, Int.natAbs_pow]
    rfl
  have hd : 11 * 2 ^ k ≤ nearest diff 1 := le_nearest_of_le Nat.one_pos hfits (by simpa using h)
  have hp := nearest_error (nearest diff 1 * weight.scaled) (Nat.two_pow_pos 149)
  change 2 ^ 24 * |((2 ^ 149 : Nat) : Int) * correction diff - _| ≤ _ at hp
  rw [scaled_weight] at hp
  have hu : (2 : Int) ^ k = 1 ∨ 2 ≤ (2 : Int) ^ k := by
    rcases Nat.eq_zero_or_pos k with rfl | hpos
    · exact .inl rfl
    · exact .inr (by simpa using pow_le_pow_right₀ (by norm_num : (1 : Int) ≤ 2) hpos)
  generalize (2 : Int) ^ k = u at hd hu ⊢
  generalize nearest diff 1 = d at hd hp
  generalize correction diff = p at hp ⊢
  have hprod : (0 : Int) ≤ d * (9395241 * 2 ^ 122) := mul_nonneg (by omega) (by positivity)
  rw [abs_of_nonneg hprod] at hp
  have hpart := neg_le_abs ((2 ^ 149 : Nat) * p - d * (9395241 * 2 ^ 122))
  push_cast at hp hpart
  omega

/-- A step that changes nothing is one that rounding swallows: the sample is less
than eleven spacings away. -/
theorem abs_lt_of_stalled {w diff : Int} (hw : Representable w.natAbs)
    (h : nearest (w + correction diff) 1 = w) : |diff| < 11 * spacing w.natAbs := by
  by_contra hfar
  have hswallowed := two_mul_abs_le_spacing h
  rw [abs_correction] at hswallowed
  have hkept := @lt_two_mul_correction |diff| _ (gap_le_of_fits hw)
    (by simpa [spacing] using hfar)
  unfold spacing at hswallowed
  push_cast at hswallowed
  omega

/-- The sample is in reach of the output: both are finite, and so is the
difference. -/
structure Reaches (s : Smoother) (x : Binary32) : Prop where
  output : s.output.isFinite = true
  sample : x.isFinite = true
  difference : (x - s.output).isFinite = true

/-- What is left of the way to a sample, in half units. A negative zero has one to
go to the other. -/
def way (s : Smoother) (x : Binary32) : Nat :=
  2 * (x.scaled - s.output.scaled).natAbs + if s.output = zero true then 1 else 0

section
variable {s : Smoother} {x : Binary32} (h : s.Reaches x)
include h

theorem Reaches.inRange : (nearest (x.scaled - s.output.scaled) 1).natAbs < magLimit :=
  natAbs_lt_of_isFinite_sub h.sample h.output h.difference

theorem Reaches.mem :
    (s.step x).output.isFinite = true ∧
      (s.step x).output.scaled ∈ Set.uIcc s.output.scaled x.scaled :=
  step_mem h.output h.sample h.inRange

theorem Reaches.step : (s.step x).Reaches x := by
  obtain ⟨hfinite, hmem⟩ := h.mem
  have hcloser : (x.scaled - (s.step x).output.scaled).natAbs ≤
      (x.scaled - s.output.scaled).natAbs := by
    rw [Set.mem_uIcc] at hmem
    omega
  refine ⟨hfinite, h.sample, (scaled_sub h.sample hfinite ?_).1⟩
  exact Nat.lt_of_le_of_lt (natAbs_nearest_mono Nat.one_pos hcloser) h.inRange

/-- A step that does not shorten the way changes nothing. -/
theorem step_eq_self (hway : s.way x ≤ (s.step x).way x) : s.step x = s := by
  obtain ⟨hfinite, hmem⟩ := h.mem
  have hzero : (s.step x).output = zero true → s.output = zero true := eq_zero_of_add_eq_zero
  rw [Set.mem_uIcc] at hmem
  unfold way at hway
  have hscaled : (s.step x).output.scaled = s.output.scaled := by
    split at hway <;> split at hway <;> omega
  have hsame : s.output = zero true → (s.step x).output = zero true := by
    intro hs
    by_contra hstep
    rw [if_pos hs, if_neg hstep, hscaled] at hway
    omega
  exact congrArg Smoother.mk (eq_of_scaled_eq hfinite h.output hscaled ⟨hzero, hsame⟩)

theorem Reaches.near (hstep : s.step x = s) : |x.value - s.output.value| < 11 * s.output.ulp := by
  obtain ⟨-, heq⟩ := step_eq h.output h.sample h.inRange
  rw [hstep] at heq
  have hnear := abs_lt_of_stalled (representable_scaled s.output) heq.symm
  have hrat : |(x.scaled : ℚ) - s.output.scaled| < 11 * spacing s.output.scaled.natAbs := by
    exact_mod_cast hnear
  rw [abs_value_sub, ulp, mul_div_assoc', div_lt_div_iff_of_pos_right (by norm_num)]
  exact hrat

end

/-! ## Again and again -/

/-- The filter after so many times the same sample. -/
def held (s : Smoother) (x : Binary32) (count : Nat) : Smoother := (·.step x)^[count] s

theorem held_succ (s : Smoother) (x : Binary32) (count : Nat) :
    s.held x (count + 1) = (s.held x count).step x := Function.iterate_succ_apply' ..

theorem held_succ' (s : Smoother) (x : Binary32) (count : Nat) :
    s.held x (count + 1) = (s.step x).held x count := Function.iterate_succ_apply ..

theorem block_replicate (s : Smoother) (x : Binary32) (count : Nat) :
    (s.block (List.replicate count x)).1 =
      (List.range count).map fun i => (s.held x (i + 1)).output := by
  induction count generalizing s with
  | zero => rfl
  | succ count ih =>
    rw [List.replicate_succ, block, List.range_succ_eq_map, List.map_cons, List.map_map]
    dsimp only
    rw [ih]
    rfl

theorem Reaches.held {s : Smoother} {x : Binary32} (h : s.Reaches x) (count : Nat) :
    (s.held x count).Reaches x := by
  induction count with
  | zero => exact h
  | succ count ih =>
    rw [held_succ]
    exact ih.step

theorem held_mem {s : Smoother} {x : Binary32} (h : s.Reaches x) {i j : Nat} (hij : i ≤ j) :
    (s.held x j).output.scaled ∈ Set.uIcc (s.held x i).output.scaled x.scaled := by
  induction j, hij using Nat.le_induction with
  | base => exact Set.left_mem_uIcc
  | succ j _ ih =>
    obtain ⟨-, hmem⟩ := (h.held j).mem
    rw [← held_succ] at hmem
    exact Set.uIcc_subset_uIcc_right ih hmem

theorem exists_settled {s : Smoother} {x : Binary32} (h : s.Reaches x) :
    ∃ count, (s.held x count).step x = s.held x count := by
  -- Each step that changes something shortens the way.
  induction hway : s.way x using Nat.strong_induction_on generalizing s with
  | _ left ih =>
    by_cases hstep : s.step x = s
    · exact ⟨0, hstep⟩
    · have hshorter : (s.step x).way x < left := by
        by_contra hlong
        exact hstep (step_eq_self h (by omega))
      obtain ⟨count, hcount⟩ := ih _ hshorter h.step rfl
      exact ⟨count + 1, by rwa [held_succ']⟩

theorem held_of_settled {s : Smoother} {x : Binary32} {rest count : Nat}
    (h : (s.held x rest).step x = s.held x rest) (hle : rest ≤ count) :
    s.held x count = s.held x rest := by
  induction count, hle using Nat.le_induction with
  | base => rfl
  | succ count _ ih => rw [held_succ, ih, h]

theorem value_mem_uIcc {x y z : Binary32} (h : y.scaled ∈ Set.uIcc x.scaled z.scaled) :
    y.value ∈ Set.uIcc x.value z.value := by
  have hle : ∀ {a b : Binary32}, a.scaled ≤ b.scaled → a.value ≤ b.value := fun h => by
    unfold value
    gcongr
  rw [Set.mem_uIcc] at h ⊢
  exact h.imp (fun h => ⟨hle h.1, hle h.2⟩) fun h => ⟨hle h.1, hle h.2⟩

/-- **The same sample again and again** is approached from one side, and from some
output on all are the same, less than eleven spacings away from the sample. -/
theorem held_settles {s : Smoother} {x : Binary32} (hs : s.output.isFinite = true)
    (hx : x.isFinite = true) (hdiff : (x - s.output).isFinite = true) :
    let y := fun n => (s.held x n).output
    (∀ n, (s.block (List.replicate n x)).1 = (List.range n).map fun i => y (i + 1)) ∧
      (∀ i j, i ≤ j →
        (y j).isFinite = true ∧ (y j).value ∈ Set.uIcc (y i).value x.value) ∧
      ∃ n w, (∀ i, n ≤ i → y i = w) ∧ |x.value - w.value| < 11 * w.ulp := by
  intro y
  have h : s.Reaches x := ⟨hs, hx, hdiff⟩
  refine ⟨block_replicate s x, fun i j hij => ⟨(h.held j).output, value_mem_uIcc (held_mem h hij)⟩, ?_⟩
  obtain ⟨n, hn⟩ := exists_settled h
  refine ⟨n, y n, fun i hi => ?_, (h.held n).near hn⟩
  exact congrArg output (held_of_settled hn hi)

/-- An output near the smallest numbers, where the spacing is two units. -/
def perch : Binary32 := .finite false 0x1000004 ⟨0x800002, 1, by decide, by decide, rfl⟩

/-- A sample ten and a half spacings below it. -/
def underPerch : Binary32 := .finite false 0xffffef ⟨0xffffef, 0, by decide, by decide, rfl⟩

theorem held_settles_perch :
    perch.isFinite = true ∧ underPerch.isFinite = true ∧
      (underPerch - perch).isFinite = true ∧ (Smoother.mk perch).step underPerch = ⟨perch⟩ ∧
      ∃ n w, (∀ i, n ≤ i → ((Smoother.mk perch).held underPerch i).output = w) ∧
        |underPerch.value - w.value| < 11 * w.ulp := by
  have hdiff : (underPerch - perch).isFinite = true := by decide +kernel
  obtain ⟨-, -, hrest⟩ := @held_settles ⟨perch⟩ underPerch rfl rfl hdiff
  exact ⟨rfl, rfl, hdiff, by decide +kernel, hrest⟩

end Smoother
end LowPass
