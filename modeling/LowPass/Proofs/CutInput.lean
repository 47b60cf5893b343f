/-
An input that a failure cuts. What was finished before the failure, up to the
last newline, is read as if nothing else had come; the line that is cut is lost;
and the failure comes only after all of that, if no other came before it.
-/
import LowPass.Proofs.Smoothing

namespace LowPass

open Arrival

namespace Reading

theorem mem_calls_error {r : Reading} :
    (∃ count f n, (some (.error f), n) ∈ r.calls count) ↔ r.failure ≠ none := by
  unfold calls items
  constructor
  · rintro ⟨count, f, n, hmem⟩ hnone
    have hmem := List.mem_of_mem_take hmem
    simp [hnone] at hmem
  · intro hsome
    obtain ⟨f, hf⟩ := Option.ne_none_iff_exists'.1 hsome
    refine ⟨r.samples.length + 1, f, r.line, ?_⟩
    rw [hf, List.take_append_of_le_length (by simp), List.take_of_length_le (by simp)]
    simp

/-! ## A failure in place of the end -/

/-- A reading that ends in a failure, unless it has ended in one before. -/
def endingIn (f : Failure) (r : Reading) : Reading := { r with failure := some (r.failure.getD f) }

theorem endingIn_of_failure {r : Reading} {g : Failure} (h : r.failure = some g) (f : Failure) :
    r.endingIn f = r := by
  cases r
  cases h
  rfl

theorem ofWords_error (e : IoError) (line : Nat) (ws : List (List Char × Nat)) :
    ofWords (some e) line ws = (ofWords none line ws).endingIn (.io e) := by
  induction ws with
  | nil => rfl
  | cons w ws ih =>
    unfold ofWords
    cases hw : Binary32.ofText? w.1 with
    | none => rfl
    | some x =>
      simp only [ih]
      rfl

theorem failure_ofWords_error (e : IoError) (line : Nat) (ws : List (List Char × Nat)) :
    (ofWords (some e) line ws).failure ≠ none := by
  rw [ofWords_error]
  exact Option.some_ne_none _

/-- An input that a failure follows is read as without it, up to its end. -/
theorem ofLines_error (n : Nat) (waiting : List (List Char)) (ls : List Bytes) (e : IoError) :
    ofLines n waiting ls (some e) = (ofLines n waiting ls none).endingIn (.io e) := by
  unfold ofLines
  by_cases htexts : (readable ls).length = ls.length
  · rw [if_pos htexts, if_pos htexts, ofWords_error]
  · rw [if_neg htexts, if_neg htexts]
    obtain ⟨g, hg⟩ := Option.ne_none_iff_exists'.1 (failure_ofWords_error .notText
      (n + (readable ls).length) (waiting.map (·, n) ++ numbered n (readable ls)))
    rw [endingIn_of_failure hg]

theorem line_ofLines {n : Nat} {waiting : List (List Char)} {ls : List Bytes}
    (h : (ofLines n waiting ls none).failure = none) :
    (ofLines n waiting ls none).line = n + ls.length := by
  unfold ofLines at h ⊢
  by_cases htexts : (readable ls).length = ls.length
  · rw [if_pos htexts, htexts] at h ⊢
    have hend := failure_ofWords none (n + ls.length) (waiting.map (·, n) ++ numbered n (readable ls))
    rw [h] at hend
    split at hend
    · cases hend
    · exact (Prod.mk.inj hend).2
  · rw [if_neg htexts] at h
    exact absurd h (failure_ofWords_error _ _ _)

end Reading

/-! ## Cut and whole -/

section
variable {before : List Arrival} {e : IoError} (hb : failure? before = none)
  (he : e.kind ≠ .interrupted) (after : List Arrival)
include hb he

theorem Reading.ofArrivals_cut :
    Reading.ofArrivals (before ++ .error e :: after) =
      .ofLines 0 [] (lines (finished (content before))) (some e) := by
  rw [ofArrivals, delivered_append_error hb he, failure?_append_error hb he]

end

/-- **A failure loses the line that it cuts, and nothing else.** Let `whole` bring
the finished part of what comes before the failure. If an error is met in it, all
calls give the same with the failure as without; otherwise they give the same
samples, and then the failure in place of the end. So the output is the same, and
so is the outcome unless it was good. -/
theorem cut_input {before : List Arrival} {e : IoError} (hb : failure? before = none)
    (he : e.kind ≠ .interrupted) (after : List Arrival) {whole : List Arrival}
    (hw : failure? whole = none) (hwhole : content whole = finished (content before)) :
    let cut : List Arrival := before ++ .error e :: after
    let line := (content whole).count newline
    let calls := fun as => ({ later := as } : Intake).calls
    let given := fun samples : List (Binary32 × Nat) =>
      samples.map fun (x, n) => ((some (.ok x), n) : Option (Except Failure Binary32) × Nat)
    ((∃ count f n, (some (.error f), n) ∈ calls whole count) →
        ∀ count, calls cut count = calls whole count) ∧
      ((¬ ∃ count f n, (some (.error f), n) ∈ calls whole count) →
        ∃ samples, ∀ count,
          calls whole count = (given samples ++ List.replicate count (none, line)).take count ∧
          calls cut count =
            (given samples ++ (some (Except.error (Failure.io e)), line) ::
              List.replicate count (none, line)).take count) ∧
      (smooth cut {}).2.taken.toList = (smooth whole {}).2.taken.toList ∧
      (smooth cut {}).1 =
        match (smooth whole {}).1 with
        | .error f => .error f
        | .ok _ => .error (.io e) := by
  intro cut line calls given
  have hcalls : ∀ as count, calls as count = (Reading.ofArrivals as).calls count :=
    fun as count => Intake.calls_eq { later := as } count
  have hreading : Reading.ofArrivals whole = .ofLines 0 [] (lines (content whole)) none :=
    Reading.ofArrivals_of_unfailing hw
  have hcut : Reading.ofArrivals cut = (Reading.ofArrivals whole).endingIn (.io e) := by
    rw [Reading.ofArrivals_cut hb he after, ← hwhole, Reading.ofLines_error, ← hreading]
  simp only [hcalls, Reading.mem_calls_error, taken_smooth_unlimited]
  simp only [smooth_unlimited, hcut, Reading.outcome]
  cases hfailure : (Reading.ofArrivals whole).failure with
  | some f =>
    rw [Reading.endingIn_of_failure hfailure, hfailure]
    exact ⟨fun _ _ => rfl, fun h => absurd (Option.some_ne_none f) h, rfl, rfl⟩
  | none =>
    have hend : (Reading.ofArrivals whole).line = line := by
      rw [hreading] at hfailure ⊢
      rw [Reading.line_ofLines hfailure, Nat.zero_add]
      simp only [line, hwhole, length_lines_finished]
    refine ⟨fun h => absurd rfl h, fun _ => ⟨(Reading.ofArrivals whole).samples, fun count => ?_⟩,
      rfl, ?_⟩
    · simp [Reading.calls, Reading.items, Reading.endingIn, hfailure, hend, given]
    · simp [Reading.endingIn, hfailure]

/-- Two samples on a line, a blank line, and a third sample whose last character
is cut after its first byte. -/
def beforeCut : List Arrival := [.bytes 0x31 [0x20, 0x32, 0x0A], .bytes 0x0A [0x33, 0xC2]]

theorem cut_input_in_character :
    let timeout : IoError := ⟨.timedOut, none⟩
    let after : List Arrival := [.bytes 0xA0 [0x0A]]
    let whole : List Arrival := [.bytes 0x31 [0x20, 0x32, 0x0A, 0x0A]]
    failure? beforeCut = none ∧ timeout.kind ≠ .interrupted ∧ failure? whole = none ∧
      content whole = finished (content beforeCut) ∧
      (smooth (beforeCut ++ .error timeout :: after) {}).1 = .error (.io timeout) ∧
      (smooth (beforeCut ++ .error timeout :: after) {}).2.taken.toList =
        Bytes.ofText "0.070000\n0.205100\n" := by
  intro timeout after whole
  have hwhole : content whole = finished (content beforeCut) := by decide +kernel
  obtain ⟨-, -, houtput, houtcome⟩ := cut_input (e := timeout) rfl (by decide) after rfl hwhole
  have hread := smooth_unlimited whole
  refine ⟨rfl, by decide, rfl, hwhole, houtcome.trans ?_, houtput.trans ?_⟩
  · rw [hread]
    decide +kernel
  · rw [hread]
    decide +kernel

end LowPass
