/-
The sign of zero.

A sum is a negative zero only if its first term is one, and an output is a sum that begins
with the output before. So a filter that begins with a positive zero never has a negative one
(`kept_not_negative_zero`), though samples, differences and products may well be such. Zeros are
printed without a sign, then, and a line with a sign and no other digits than zeros tells of an
output below zero (`value_neg_of_line`).
-/
import LowPass.Proofs.Printouts
import LowPass.Proofs.Smoother.Serving
import LowPass.Proofs.Smoother.Settling

namespace LowPass

open Arrival

namespace Smoother

open Binary32

theorem kept_not_negative_zero : Kept (· ≠ .zero true) fun _ => True where
  step := fun hs _ hstep => hs (eq_zero_of_add_eq_zero hstep)

theorem step_zero (negative : Bool) : fresh.step (.zero negative) = fresh := by
  cases negative <;> decide

/-- Words that spell zeros all become samples, and leave a filter fresh. -/
theorem block_zeros {ws : List (List Char)}
    (h : ∀ w ∈ ws, ∃ negative, ofText? w = some (.zero negative)) :
    (fresh.block ((ws.takeWhile fun w => (ofText? w).isSome).filterMap ofText?)).1 =
      ws.map fun _ => .zero false := by
  induction ws with
  | nil => rfl
  | cons w ws ih =>
    obtain ⟨negative, hw⟩ := h w List.mem_cons_self
    have hrest := ih fun w' hw' => h w' (List.mem_cons_of_mem w hw')
    have hread : (ofText? w).isSome = true := by
      rw [hw]
      rfl
    rw [List.takeWhile_cons, if_pos hread, List.filterMap_cons_some hw, block, step_zero,
      List.map_cons, ← hrest]
    rfl

theorem getElem?_block (s : Smoother) (xs : List Binary32) {i : Nat} {y : Binary32}
    (h : (s.block xs).1[i]? = some y) : i < xs.length ∧ (s.block (xs.take (i + 1))).2.output = y := by
  induction xs generalizing s i with
  | nil => cases h
  | cons x xs ih =>
    cases i with
    | zero => exact ⟨Nat.succ_pos _, Option.some.inj h⟩
    | succ i =>
      obtain ⟨hlt, hy⟩ := ih (s.step x) h
      exact ⟨Nat.succ_lt_succ hlt, hy⟩

end Smoother

namespace Binary32

/-- What is printed as a negative zero is below zero, if it is no negative zero itself. -/
theorem value_neg_of_fixed {y : Binary32} (h : y.fixed = (zero true).fixed) (hy : y ≠ zero true) :
    y.isFinite = true ∧ y.value < 0 := by
  have hreread : y.reread = (zero true).reread := by
    have hread := ofText?_fixed y
    rw [h, ofText?_fixed] at hread
    exact (Option.some.inj hread).symm
  cases y with
  | finite negative mag fits =>
    obtain rfl : negative = true := (finite.inj hreread).1
    refine ⟨rfl, ?_⟩
    have hpos : 0 < mag := by
      rw [Nat.pos_iff_ne_zero]
      rintro rfl
      exact hy rfl
    rw [value, scaled, if_pos rfl]
    apply div_neg_of_neg_of_pos _ (by norm_num)
    rw [Int.cast_neg, neg_lt_zero]
    exact_mod_cast hpos
  | _ => cases hreread

theorem line_eq_ofText_iff {y : Binary32} {text : String} :
    y.line = .ofText text ↔ y.fixed ++ ['\n'] = text.toList := by
  rw [line_eq, Bytes.ofText]
  refine ⟨fun h => ?_, fun h => by rw [h]⟩
  have hdecode := Utf8.decode?_encode (y.fixed ++ ['\n'])
  rw [h, Utf8.decode?_encode] at hdecode
  exact (Option.some.inj hdecode).symm

theorem value_neg_of_line {y : Binary32} (h : y.line = .ofText "-0.000000\n") (hy : y ≠ zero true) :
    y.isFinite = true ∧ y.value < 0 := by
  have hminus : (zero true).fixed ++ ['\n'] = "-0.000000\n".toList := by decide
  rw [line_eq_ofText_iff, ← hminus] at h
  exact value_neg_of_fixed (List.append_cancel_right h) hy

end Binary32

theorem map_fst_numbered (n : Nat) (texts : List (List Char)) :
    (numbered n texts).map Prod.fst = texts.flatMap words := by
  induction texts generalizing n with
  | nil => rfl
  | cons cs texts ih =>
    rw [numbered, List.map_append, ih, List.map_map, List.flatMap_cons]
    congr 1
    exact List.map_id _

theorem Reading.samples_ofArrivals (as : List Arrival) :
    let tokens := (readable (delivered as)).flatMap words
    (ofArrivals as).samples.map Prod.fst =
      (tokens.takeWhile fun w => (Binary32.ofText? w).isSome).filterMap Binary32.ofText? := by
  intro tokens
  have htokens : tokens = _ := (map_fst_numbered 0 (readable (delivered as))).symm
  rw [htokens, List.takeWhile_map, List.filterMap_map]
  exact samples_ofLines (delivered as) (failure? as)

theorem taken_smooth_words (as : List Arrival) :
    let tokens := (readable (delivered as)).flatMap words
    (smooth as {}).2.taken.toList =
      (Smoother.fresh.block ((tokens.takeWhile fun w => (Binary32.ofText? w).isSome).filterMap
        Binary32.ofText?)).1.flatMap Binary32.line := by
  intro tokens
  rw [taken_smooth_unlimited, Reading.output, Reading.outputs, Reading.samples_ofArrivals]

/-- **A filter never has a negative zero**, whatever is asked of it and whatever the samples
are. So a run whose words all spell zeros, of either sign, writes one line for each, without a
sign; and a line that has a sign, but nothing else than zeros, tells of an output strictly
below zero. -/
theorem zeros_unsigned :
    (∀ rs, ∀ a ∈ Smoother.fresh.serveAll rs,
      (∀ y ∈ a.1.outputs, y ≠ .zero true) ∧ a.2 ≠ .zero true) ∧
    ∀ as : List Arrival,
      let tokens := (readable (delivered as)).flatMap words
      let values := (tokens.takeWhile fun w => (Binary32.ofText? w).isSome).filterMap
        Binary32.ofText?
      let output := (smooth as {}).2.taken.toList
      ((∀ w ∈ tokens, ∃ negative, Binary32.ofText? w = some (.zero negative)) →
        output = tokens.flatMap fun _ => Bytes.ofText "0.000000\n") ∧
      ∀ i, (lines output)[i]? = some (.ofText "-0.000000\n") →
        let y := (Smoother.fresh.block (values.take (i + 1))).2.output
        i < values.length ∧ y.isFinite = true ∧ y.value < 0 := by
  refine ⟨fun rs => ?_, fun as => ?_⟩
  · exact Smoother.kept_not_negative_zero.serveAll (by decide) (fun _ _ _ _ => trivial)
      fun _ _ _ => by decide
  · intro tokens values output
    have houtput : output = (Smoother.fresh.block values).1.flatMap Binary32.line :=
      taken_smooth_words as
    constructor
    · intro hzeros
      have hplain : (Binary32.zero false).line = .ofText "0.000000\n" :=
        Binary32.line_eq_ofText_iff.2 (by decide)
      calc output = (tokens.map fun _ => Binary32.zero false).flatMap Binary32.line := by
            rw [houtput, Smoother.block_zeros hzeros]
        _ = tokens.flatMap fun _ => Bytes.ofText "0.000000\n" := by
            simp only [List.flatMap_map, hplain]
    · intro i hline y
      rw [houtput, ← printed_eq, lines_printed, List.getElem?_map, Option.map_eq_some_iff] at hline
      obtain ⟨y', hy', hline⟩ := hline
      obtain ⟨hlt, hy⟩ := Smoother.getElem?_block _ _ hy'
      obtain rfl : y = y' := hy
      have hsign : y ≠ .zero true :=
        (Smoother.kept_not_negative_zero.block (by decide) fun _ _ => trivial).2
      exact ⟨hlt, Binary32.value_neg_of_line hline hsign⟩

/-- Zeros of either sign, some of them spelled with other digits. -/
def zeroInput : List Arrival := together (Bytes.ofText "0 -0.0\n0e99 -1e-60") []

/-- The first output is a tiny number below zero, the second one above. -/
def tinyInput : List Arrival := together (Bytes.ofText "-1e-9\n1e-9\n") []

theorem zeros_unsigned_tiny :
    let tokens := (readable (delivered zeroInput)).flatMap words
    let tiny := (smooth tinyInput {}).2.taken.toList
    (∀ w ∈ tokens, ∃ negative, Binary32.ofText? w = some (.zero negative)) ∧
      (smooth zeroInput {}).2.taken.toList = tokens.flatMap (fun _ => Bytes.ofText "0.000000\n") ∧
      tokens.length = 4 ∧
      tiny = Bytes.ofText "-0.000000\n0.000000\n" ∧
      (lines tiny)[0]? = some (.ofText "-0.000000\n") ∧
      (Smoother.fresh.step (.ofBits 0xB089705F)).output.value < 0 := by
  intro tokens tiny
  have hzeros : ∀ w ∈ tokens, ∃ negative, Binary32.ofText? w = some (.zero negative) := by
    decide +kernel
  have htiny : tiny = Bytes.ofText "-0.000000\n0.000000\n" := by
    simp only [tiny, taken_smooth_unlimited]
    decide +kernel
  have hfirst : (lines tiny)[0]? = some (.ofText "-0.000000\n") := by
    rw [htiny]
    decide +kernel
  obtain ⟨-, hruns⟩ := zeros_unsigned
  obtain ⟨-, -, hneg⟩ := (hruns tinyInput).2 0 hfirst
  refine ⟨hzeros, (hruns zeroInput).1 hzeros, by decide +kernel, htiny, hfirst, ?_⟩
  have hvalues : ((((readable (delivered tinyInput)).flatMap words).takeWhile
      fun w => (Binary32.ofText? w).isSome).filterMap Binary32.ofText?).take 1 =
        [.ofBits 0xB089705F] := by
    decide +kernel
  rw [hvalues] at hneg
  exact hneg

end LowPass
