/-
What a filter answers, whatever it is asked and in whatever order.

A property that every sample keeps is kept by every request (`Kept.serve`), and so
it holds of all answers (`Kept.serveAll`). It has to hold of zero only where a
request goes back to zero.

One such property is to be within bounds that have zero and all samples between
them (`served_within`). Each output lies between the one before and the sample;
what could break that is a difference out of range, and none is larger than that of
the bounds.
-/
import LowPass.Proofs.Smoother.Drift
import LowPass.Proofs.Binary32.Spacing

namespace LowPass
namespace Binary32

theorem value_le_iff {x y : Binary32} : x.value ≤ y.value ↔ x.scaled ≤ y.scaled := by
  unfold value
  rw [div_le_div_iff_of_pos_right (by norm_num), Int.cast_le]

theorem isFinite_sub_of_le {x y : Binary32} (hx : x.isFinite = true) (hy : y.isFinite = true)
    (h : |x.value - y.value| ≤ largest.value) : (x - y).isFinite = true := by
  refine (scaled_sub hx hy (nearest_lt_magLimit Nat.one_pos ?_)).1
  rw [abs_value_sub, value, div_le_div_iff_of_pos_right (by norm_num)] at h
  rw [Nat.cast_one, mul_one]
  exact_mod_cast h

/-- A finite value between two others. -/
def Within (lo hi x : Binary32) : Prop := x.isFinite = true ∧ x.value ∈ Set.Icc lo.value hi.value

theorem within_iff {lo hi x : Binary32} :
    Within lo hi x ↔ x.isFinite = true ∧ lo.scaled ≤ x.scaled ∧ x.scaled ≤ hi.scaled := by
  unfold Within
  rw [Set.mem_Icc, value_le_iff, value_le_iff]

end Binary32

namespace Smoother

open Binary32

/-- The samples that come with a request. -/
def Request.inputs : Request → List Binary32
  | .sample x => [x]
  | .samples xs => xs
  | .output | .reset | .renew => []

/-- The outputs in an answer. -/
def Reply.outputs : Reply → List Binary32
  | .value y => [y]
  | .values ys => ys
  | .done => []

/-- Whether a request takes the filter back to zero. -/
def Request.restarts : Request → Bool
  | .reset | .renew => true
  | .sample _ | .samples _ | .output => false

/-! ## What every sample keeps -/

/-- A property of outputs that every sample with another property keeps. -/
structure Kept (outputs samples : Binary32 → Prop) : Prop where
  step : ∀ {s : Smoother} {x}, outputs s.output → samples x → outputs (s.step x).output

section
variable {P Q : Binary32 → Prop} (h : Kept P Q) {s : Smoother} (hs : P s.output)
include h hs

theorem Kept.block {xs : List Binary32} (hxs : ∀ x ∈ xs, Q x) :
    (∀ y ∈ (s.block xs).1, P y) ∧ P (s.block xs).2.output := by
  induction xs generalizing s with
  | nil => exact ⟨by simp [Smoother.block], hs⟩
  | cons x xs ih =>
    have hnext : P (s.step x).output := h.step hs (hxs x List.mem_cons_self)
    obtain ⟨hall, hlast⟩ := ih hnext fun y hy => hxs y (List.mem_cons_of_mem x hy)
    refine ⟨fun y hy => ?_, hlast⟩
    rcases List.mem_cons.1 hy with rfl | hy
    · exact hnext
    · exact hall y hy

theorem Kept.serve {r : Request} (hr : ∀ x ∈ r.inputs, Q x)
    (hzero : r.restarts = true → P (.zero false)) :
    (∀ y ∈ (s.serve r).1.outputs, P y) ∧ P (s.serve r).2.output := by
  cases r with
  | sample x =>
    have hnext : P (s.step x).output := h.step hs (hr x List.mem_cons_self)
    exact ⟨fun y hy => List.mem_singleton.1 hy ▸ hnext, hnext⟩
  | samples xs => exact h.block hs hr
  | output => exact ⟨fun y hy => List.mem_singleton.1 hy ▸ hs, hs⟩
  | reset => exact ⟨by simp [Smoother.serve, Reply.outputs], hzero rfl⟩
  | renew => exact ⟨by simp [Smoother.serve, Reply.outputs], hzero rfl⟩

/-- **An invariant** of one sample holds of all answers, and of the output after
each. -/
theorem Kept.serveAll {rs : List Request} (hrs : ∀ r ∈ rs, ∀ x ∈ r.inputs, Q x)
    (hzero : ∀ r ∈ rs, r.restarts = true → P (.zero false)) :
    ∀ a ∈ s.serveAll rs, (∀ y ∈ a.1.outputs, P y) ∧ P a.2 := by
  induction rs generalizing s with
  | nil => exact fun a ha => nomatch ha
  | cons r rs ih =>
    obtain ⟨hanswer, hafter⟩ :=
      h.serve hs (hrs r List.mem_cons_self) (hzero r List.mem_cons_self)
    intro a ha
    rcases List.mem_cons.1 ha with rfl | ha
    · exact ⟨hanswer, hafter⟩
    · exact ih hafter (fun r' hr' => hrs r' (List.mem_cons_of_mem r hr'))
        (fun r' hr' => hzero r' (List.mem_cons_of_mem r hr')) a ha

end

/-! ## Bounds -/

/-- A sample within bounds whose difference is finite leaves the output within them. -/
theorem kept_within {lo hi : Binary32} (hlo : lo.isFinite = true) (hhi : hi.isFinite = true)
    (hspan : (hi - lo).isFinite = true) : Kept (Within lo hi) (Within lo hi) where
  step := by
    intro s x hs hx
    rw [within_iff] at hs hx ⊢
    obtain ⟨hs, hsLow, hsHigh⟩ := hs
    obtain ⟨hx, hxLow, hxHigh⟩ := hx
    have hcloser : (x.scaled - s.output.scaled).natAbs ≤ (hi.scaled - lo.scaled).natAbs := by omega
    have hrange : (nearest (x.scaled - s.output.scaled) 1).natAbs < magLimit :=
      Nat.lt_of_le_of_lt (natAbs_nearest_mono Nat.one_pos hcloser)
        (natAbs_lt_of_isFinite_sub hhi hlo hspan)
    obtain ⟨hfinite, hmem⟩ := step_mem hs hx hrange
    rw [Set.mem_uIcc] at hmem
    exact ⟨hfinite, by omega, by omega⟩

/-- **The outputs stay within the bounds of the samples**, and zero, whatever is asked
of a fresh filter. The difference of the bounds may be rounded, but not out of range:
it is in range if it does not exceed the greatest value (`isFinite_sub_of_le`). -/
theorem served_within {lo hi : Binary32} (hlo : lo.isFinite = true) (hhi : hi.isFinite = true)
    (hneg : lo.value ≤ 0) (hpos : 0 ≤ hi.value) (hspan : (hi - lo).isFinite = true)
    {rs : List Request}
    (hrs : ∀ r ∈ rs, ∀ x ∈ r.inputs, x.isFinite = true ∧ x.value ∈ Set.Icc lo.value hi.value) :
    ∀ a ∈ fresh.serveAll rs,
      (∀ y ∈ a.1.outputs, y.isFinite = true ∧ y.value ∈ Set.Icc lo.value hi.value) ∧
        a.2.isFinite = true ∧ a.2.value ∈ Set.Icc lo.value hi.value := by
  have hzero : Within lo hi (.zero false) := by
    have hvalue : (zero false).value = 0 := by simp [value]
    exact ⟨rfl, by rwa [hvalue], by rwa [hvalue]⟩
  exact (kept_within hlo hhi hspan).serveAll hzero hrs fun _ _ _ => hzero

theorem served_within_loudest :
    let lo := -loudest
    let hi := loudest
    let rs := [.sample (-loudest), .samples [loudest, -.zero false], .reset, .sample loudest, .output]
    hi.value - lo.value ≤ largest.value ∧
      (∀ r ∈ rs, ∀ x ∈ Request.inputs r,
        x.isFinite = true ∧ x.value ∈ Set.Icc lo.value hi.value) ∧
      ∀ a ∈ fresh.serveAll rs,
        (∀ y ∈ a.1.outputs, y.isFinite = true ∧ y.value ∈ Set.Icc lo.value hi.value) ∧
          a.2.isFinite = true ∧ a.2.value ∈ Set.Icc lo.value hi.value := by
  intro lo hi rs
  have hspan : hi.value - lo.value ≤ largest.value := by decide +kernel
  have hneg : lo.value ≤ 0 := by decide +kernel
  have hpos : 0 ≤ hi.value := by decide +kernel
  have habs : |hi.value - lo.value| ≤ largest.value := by rwa [abs_of_nonneg (by linarith)]
  have hrs : ∀ r ∈ rs, ∀ x ∈ Request.inputs r,
      x.isFinite = true ∧ x.value ∈ Set.Icc lo.value hi.value := by decide +kernel
  exact ⟨hspan, hrs,
    served_within (by rfl) (by rfl) hneg hpos (isFinite_sub_of_le (by rfl) (by rfl) habs) hrs⟩

end Smoother
end LowPass
