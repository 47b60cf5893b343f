/-
What a run of smoothing comes to.

`smooth_eq`: a run pours the lines of the filter's outputs into the sink, and
its outcome is that of the reading, unless the sink fails. Neither the buffer
nor the order in which reading, filtering and printing take turns is to be
seen. An unlimited sink fails at nothing (`smooth_unlimited`).

`smooth_of_unfailing` says in full what a run makes of an input that can be read
to its end.
-/
import LowPass.Smoothing
import LowPass.Proofs.Pouring
import LowPass.Proofs.Reading

namespace LowPass

open Arrival

namespace Reading

/-- All that is read of arrivals. -/
def ofArrivals (as : List Arrival) : Reading := .ofLines 0 [] (delivered as) (failure? as)

/-- How a run ends that has read this, after so many samples. -/
def outcome (r : Reading) (written : Nat) : Outcome :=
  match r.failure with
  | some f => .error f
  | none => .ok ⟨written + r.samples.length, r.line⟩

/-- What a filter gives for the samples. -/
def outputs (r : Reading) (filter : Smoother) : List Binary32 :=
  (filter.block (r.samples.map Prod.fst)).1

/-- What a fresh filter gives, a line for each output. -/
def output (r : Reading) : Bytes := (r.outputs .fresh).flatMap Binary32.line

theorem outcome_cons (x : Binary32 × Nat) (r : Reading) (written : Nat) :
    (r.cons x).outcome written = r.outcome (written + 1) := by
  unfold outcome cons
  cases r.failure with
  | some f => rfl
  | none =>
    simp only [List.length_cons, Except.ok.injEq, Summary.mk.injEq, and_true]
    omega

theorem outcome_ofWords (e : Option IoError) (line : Nat) (ws : List (List Char × Nat))
    (written : Nat) :
    (ofWords e line ws).outcome written =
      match ws.dropWhile fun w => (Binary32.ofText? w.1).isSome with
      | (word, n) :: _ => .error (.malformedSample (.ofList word) n)
      | [] =>
        match e with
        | some e => .error (.io e)
        | none => .ok ⟨written + ws.length, line⟩ := by
  induction ws generalizing written with
  | nil => cases e <;> rfl
  | cons w ws ih =>
    unfold ofWords
    cases hw : Binary32.ofText? w.1 with
    | none => simp [outcome, hw]
    | some x =>
      have hlength : written + 1 + ws.length = written + (w :: ws).length := by
        rw [List.length_cons]
        omega
      have hkeep : (w :: ws).dropWhile (fun w => (Binary32.ofText? w.1).isSome) =
          ws.dropWhile fun w => (Binary32.ofText? w.1).isSome := by
        rw [List.dropWhile_cons, if_pos (by simp [hw])]
      simp only [outcome_cons, ih, hlength, hkeep]

/-- Without a failure of the reader: a line that is no UTF-8 decides when no word
before it does. -/
theorem outcome_ofLines (ls : List Bytes) :
    (ofLines 0 [] ls none).outcome 0 =
      match (numbered 0 (readable ls)).dropWhile fun w => (Binary32.ofText? w.1).isSome with
      | (word, n) :: _ => .error (.malformedSample (.ofList word) n)
      | [] =>
        if ls.any fun l => (Utf8.decode? l).isNone then .error (.io .notText)
        else .ok ⟨(numbered 0 (readable ls)).length, ls.length⟩ := by
  rw [ofLines, outcome_ofWords, List.map_nil, List.nil_append, Nat.zero_add, Nat.zero_add]
  cases (numbered 0 (readable ls)).dropWhile fun w => (Binary32.ofText? w.1).isSome with
  | cons w more => rfl
  | nil =>
    by_cases htexts : (readable ls).length = ls.length
    · have hany := length_readable_eq.1 htexts
      simp only [htexts, hany, if_true, Bool.false_eq_true, if_false]
    · have hany : (ls.any fun l => (Utf8.decode? l).isNone) = true := by
        rwa [length_readable_eq, Bool.not_eq_false] at htexts
      simp only [htexts, hany, if_true, if_false]

theorem samples_ofLines (ls : List Bytes) (e : Option IoError) :
    (ofLines 0 [] ls e).samples.map Prod.fst =
      ((numbered 0 (readable ls)).takeWhile fun w => (Binary32.ofText? w.1).isSome).filterMap
        fun w => Binary32.ofText? w.1 := by
  rw [ofLines, samples_ofWords, List.map_nil, List.nil_append]

theorem outputs_cons (x : Binary32 × Nat) (r : Reading) (filter : Smoother) :
    (r.cons x).outputs filter = (filter.step x.1).output :: r.outputs (filter.step x.1) := rfl

end Reading

theorem Intake.reading_fresh (as : List Arrival) :
    ({ later := as } : Intake).reading = .ofArrivals as := rfl

/-! ## A run and its sink -/

/-- The outcome that a run reports when its sink has ended so. -/
def Outcome.after (outcome : Outcome) : Except IoError Unit × Sink → Outcome × Sink
  | (.ok (), sink) => (outcome, sink)
  | (.error e, sink) => (.error (.io e), sink)

theorem conclude_eq (p : Printout) (outcome : Outcome) :
    p.conclude outcome = outcome.after (p.outlet.deliver []) := by
  unfold Printout.conclude Printout.finish Outcome.after Outlet.deliver Outlet.putAll
  split <;> simp_all

theorem print_ok {p p' : Printout} {x : Binary32} (h : p.print x = (.ok (), p')) :
    p.outlet.putAll x.linePieces = (.ok (), p'.outlet) ∧ p'.written = p.written + 1 := by
  unfold Printout.print at h
  split at h
  · rename_i hput
    cases h
    exact ⟨hput, rfl⟩
  · cases h

theorem print_error {p p' : Printout} {x : Binary32} {e : IoError}
    (h : p.print x = (.error e, p')) : p.outlet.putAll x.linePieces = (.error e, p'.outlet) := by
  unfold Printout.print at h
  split at h
  · cases h
  · rename_i hput
    cases h
    exact hput

/-- **Reading, filtering and printing by turns** is printing what the filter
gives for all that is read. -/
theorem smoothFrom_eq (filter : Smoother) (p : Printout) (i : Intake) :
    smoothFrom filter p i =
      (i.reading.outcome p.written).after
        (p.outlet.deliver ((i.reading.outputs filter).flatMap Binary32.linePieces)) := by
  fun_induction smoothFrom filter p i with
  | case1 filter p i sample i' hnext p' hprint ih =>
    have hgives := Intake.next_reading i
    rw [hnext] at hgives
    obtain ⟨hput, hwritten⟩ := print_ok hprint
    rw [ih, hgives.eq_cons, Reading.outcome_cons, Reading.outputs_cons, List.flatMap_cons,
      Outlet.deliver_append, hput, hwritten]
  | case2 filter p i sample i' hnext e p' hprint =>
    have hgives := Intake.next_reading i
    rw [hnext] at hgives
    rw [hgives.eq_cons, Reading.outputs_cons, List.flatMap_cons, Outlet.deliver_append,
      print_error hprint]
    rfl
  | case3 filter p i failure i' hnext =>
    have hgives := Intake.next_reading i
    rw [hnext] at hgives
    rw [hgives.eq_failure, conclude_eq]
    rfl
  | case4 filter p i i' hnext =>
    have hgives := Intake.next_reading i
    rw [hnext] at hgives
    rw [hgives.eq_nothing, conclude_eq]
    rfl

theorem flatten_linePieces (ys : List Binary32) :
    (ys.flatMap Binary32.linePieces).flatten = ys.flatMap Binary32.line := by
  induction ys with
  | nil => rfl
  | cons y ys ih => rw [List.flatMap_cons, List.flatten_append, ih, List.flatMap_cons, Binary32.line]

/-- **A run pours its output into the sink**, and ends as its reading does, unless
the sink fails. -/
theorem smooth_eq (as : List Arrival) (sink : Sink) :
    smooth as sink =
      ((Reading.ofArrivals as).outcome 0).after
        ((sink.pour (Reading.ofArrivals as).output).1,
          (sink.pour (Reading.ofArrivals as).output).2.2) := by
  rw [smooth, smoothFrom_eq, Intake.reading_fresh, Outlet.deliver_eq, flatten_linePieces]
  rfl

theorem smooth_unlimited (as : List Arrival) :
    smooth as {} =
      ((Reading.ofArrivals as).outcome 0, Sink.accept {} (Reading.ofArrivals as).output) := by
  rw [smooth_eq, Sink.pour_of_none rfl]
  rfl

theorem taken_smooth_unlimited (as : List Arrival) :
    (smooth as {}).2.taken.toList = (Reading.ofArrivals as).output := by
  simp [smooth_unlimited, Sink.accept]

/-! ## An input that can be read to its end -/

theorem line_eq (x : Binary32) : x.line = Utf8.encode (x.fixed ++ ['\n']) := by
  have hflatten : ∀ pieces : List (List Char),
      (pieces.map Utf8.encode).flatten = Utf8.encode pieces.flatten := by
    intro pieces
    induction pieces with
    | nil => rfl
    | cons piece pieces ih => simp [ih, Utf8.encode]
  rw [Binary32.line, Binary32.linePieces, hflatten, List.flatten_append, Binary32.fixed]
  rfl

theorem Reading.ofArrivals_of_unfailing {as : List Arrival} (h : failure? as = none) :
    Reading.ofArrivals as = .ofLines 0 [] (lines (content as)) none := by
  rw [ofArrivals, delivered_of_unfailing h, h]

/-- **The whole of a run.** The words of the lines before the first that is no
UTF-8 are numbered by line, and those before the first that is no numeral are
smoothed by a fresh filter. Each output is a line of what is written, and nothing
else is. The word that is no numeral fails the run; else a line that is no UTF-8
does; else the run has smoothed every word and read every line. -/
theorem smooth_of_unfailing {as : List Arrival} (h : failure? as = none) :
    let ls := lines (content as)
    let tokens := numbered 0 (readable ls)
    let spells := fun w : List Char × Nat => Binary32.ofText? w.1
    let values := (tokens.takeWhile fun w => (spells w).isSome).filterMap spells
    (smooth as {}).2.taken.toList =
        (Smoother.fresh.block values).1.flatMap (fun y => Utf8.encode (y.fixed ++ ['\n'])) ∧
      (smooth as {}).1 =
        match tokens.dropWhile fun w => (spells w).isSome with
        | (word, line) :: _ => .error (.malformedSample (.ofList word) line)
        | [] =>
          if ls.any fun l => (Utf8.decode? l).isNone then
            .error (.io (.saying .invalidData "stream did not contain valid UTF-8"))
          else .ok ⟨tokens.length, ls.length⟩ := by
  intro ls tokens spells values
  have hreading : Reading.ofArrivals as = .ofLines 0 [] ls none := Reading.ofArrivals_of_unfailing h
  constructor
  · rw [taken_smooth_unlimited, hreading, Reading.output, Reading.outputs, Reading.samples_ofLines]
    simp only [← line_eq]
    rfl
  · rw [smooth_unlimited, hreading]
    exact Reading.outcome_ofLines ls

/-- Two samples with a no-break space between them, whose bytes arrive apart, a
blank line, a word that is no numeral, and a line that is no UTF-8. -/
def spacedInput : List Arrival :=
  [.bytes 0x31 [0xC2], .error ⟨.interrupted, none⟩, .bytes 0xA0 [0x31, 0x0A, 0x0A],
    .bytes 0x6F [0x6F, 0x70, 0x73, 0x20, 0x31, 0x0A, 0xFF]]

theorem smooth_spacedInput :
    failure? spacedInput = none ∧
      (smooth spacedInput {}).2.taken.toList = Bytes.ofText "0.070000\n0.135100\n" ∧
      (smooth spacedInput {}).1 = .error (.malformedSample "oops" 3) := by
  obtain ⟨houtput, houtcome⟩ := @smooth_of_unfailing spacedInput rfl
  refine ⟨rfl, houtput.trans ?_, houtcome.trans ?_⟩
  · decide +kernel
  · decide +kernel

end LowPass
