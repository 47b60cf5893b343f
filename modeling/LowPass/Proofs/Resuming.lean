/-
Runs that go on where another has ended.

An input in two parts, the first of which ends a line, is read as its first part and
then, if that is read to its end, as its second part is, whose lines are numbered
from there (`Reading.ofLines_append`). So a run over both is a run over the first,
followed by one over the second from the filter that the first has reached
(`smooth_resumed`): no word, no half of a line and nothing else but the filter and
the count of lines is carried over.
-/
import LowPass.Proofs.Smoothing

namespace LowPass

open Arrival

/-- Induction along what is read: word by word while words wait, and then line by line. -/
@[elab_as_elim]
theorem Reading.induction_along {P : Nat → List (List Char) → List Bytes → Prop}
    (ended : ∀ n, P n [] [])
    (undecodable : ∀ n l ls, Utf8.decode? l = none → P n [] (l :: ls))
    (line : ∀ n l cs ls, Utf8.decode? l = some cs → P (n + 1) (words cs) ls → P n [] (l :: ls))
    (word : ∀ n w waiting ls, P n waiting ls → P n (w :: waiting) ls)
    (n : Nat) (waiting : List (List Char)) (ls : List Bytes) : P n waiting ls := by
  induction ls generalizing n waiting with
  | nil =>
    induction waiting with
    | nil => exact ended n
    | cons w waiting ih => exact word n w waiting [] ih
  | cons l ls ihLines =>
    induction waiting with
    | nil =>
      cases hl : Utf8.decode? l with
      | none => exact undecodable n l ls hl
      | some cs => exact line n l cs ls hl (ihLines (n + 1) (words cs))
    | cons w waiting ih => exact word n w waiting (l :: ls) ih

/-! ## From a later line on -/

/-- The failure when so many lines stand before the input. -/
def Failure.below (lines : Nat) : Failure → Failure
  | .malformedSample word line => .malformedSample word (lines + line)
  | f => f

namespace Reading

/-- What is read when so many lines stand before the input. -/
def below (lines : Nat) (r : Reading) : Reading :=
  ⟨r.samples.map fun (x, n) => (x, lines + n), r.failure.map (Failure.below lines), lines + r.line⟩

theorem below_cons (lines : Nat) (x : Binary32) (n : Nat) (r : Reading) :
    (r.cons (x, n)).below lines = (r.below lines).cons (x, lines + n) := rfl

theorem ofLines_below (lines n : Nat) (waiting : List (List Char)) (ls : List Bytes)
    (e : Option IoError) :
    ofLines (lines + n) waiting ls e = (ofLines n waiting ls e).below lines := by
  induction n, waiting, ls using induction_along with
  | ended n => cases e <;> rfl
  | undecodable n l ls hl =>
    rw [ofLines_undecodable hl, ofLines_undecodable hl]
    rfl
  | line n l cs ls hl ih => rw [ofLines_line hl, ofLines_line hl, Nat.add_assoc, ih]
  | word n w waiting ls ih =>
    rw [ofLines_word, ofLines_word]
    cases Binary32.ofText? w with
    | none => rfl
    | some x => rw [below_cons, ← ih]

/-! ## One input after another -/

/-- What is read of an input and then of the next, which comes to be read unless
there is a failure before it. -/
def andThen (r next : Reading) : Reading :=
  match r.failure with
  | some _ => r
  | none =>
    { next.below r.line with samples := r.samples ++ (next.below r.line).samples }

theorem andThen_of_failure {r : Reading} {f : Failure} (h : r.failure = some f) (next : Reading) :
    r.andThen next = r := by
  simp only [andThen, h]

theorem cons_andThen (x : Binary32 × Nat) (r next : Reading) :
    (r.cons x).andThen next = (r.andThen next).cons x := by
  obtain ⟨samples, failure, line⟩ := r
  cases failure <;> rfl

/-- **Lines after lines** are read after them, and numbered from there. -/
theorem ofLines_append (n : Nat) (waiting : List (List Char)) (ls ms : List Bytes)
    (e : Option IoError) :
    ofLines n waiting (ls ++ ms) e = (ofLines n waiting ls none).andThen (ofLines 0 [] ms e) := by
  induction n, waiting, ls using induction_along with
  | ended n => exact ofLines_below n 0 [] ms e
  | undecodable n l ls hl =>
    rw [List.cons_append, ofLines_undecodable hl, ofLines_undecodable hl]
    rfl
  | line n l cs ls hl ih => rw [List.cons_append, ofLines_line hl, ofLines_line hl, ih]
  | word n w waiting ls ih =>
    rw [ofLines_word, ofLines_word]
    cases Binary32.ofText? w with
    | none => rfl
    | some x => rw [cons_andThen, ← ih]

/-- An input that is read to its end is followed by the next. -/
theorem ofArrivals_append {as bs both : List Arrival} (ha : failure? as = none)
    (hb : failure? bs = none) (hboth : failure? both = none)
    (hends : content as = [] ∨ (content as).getLast? = some newline)
    (hcontent : content both = content as ++ content bs) :
    ofArrivals both = (ofArrivals as).andThen (ofArrivals bs) := by
  rw [ofArrivals_of_unfailing hboth, ofArrivals_of_unfailing ha, ofArrivals_of_unfailing hb, hcontent,
    lines_append hends, ofLines_append]

/-- The filter that the samples lead to. -/
def reached (r : Reading) (filter : Smoother) : Smoother :=
  (filter.block (r.samples.map Prod.fst)).2

section
variable {r : Reading} (h : r.failure = none)
include h

theorem outputs_andThen (next : Reading) (filter : Smoother) :
    (r.andThen next).outputs filter = r.outputs filter ++ next.outputs (r.reached filter) := by
  have hsamples : (r.andThen next).samples.map Prod.fst =
      r.samples.map Prod.fst ++ next.samples.map Prod.fst := by
    simp only [andThen, h, below, List.map_append, List.map_map]
    rfl
  rw [outputs, hsamples, Smoother.block_append]
  rfl

end

end Reading

/-! ## A run after a run -/

/-- The filter when all samples of an intake have gone through it. -/
def Smoother.through (filter : Smoother) (i : Intake) : Smoother :=
  match _h : i.next with
  | (some (.ok sample), i') => (filter.step sample).through i'
  | (some (.error _), _) => filter
  | (none, _) => filter
termination_by i.size
decreasing_by exact Intake.size_next _h

theorem Smoother.through_eq (filter : Smoother) (i : Intake) :
    filter.through i = i.reading.reached filter := by
  have hgives := Intake.next_reading i
  fun_induction Smoother.through filter i with
  | case1 filter i sample i' hnext ih =>
    rw [hnext] at hgives
    rw [ih (Intake.next_reading i'), hgives.eq_cons]
    rfl
  | case2 filter i failure i' hnext =>
    rw [hnext] at hgives
    rw [hgives.eq_failure]
    rfl
  | case3 filter i i' hnext =>
    rw [hnext] at hgives
    rw [hgives.eq_nothing]
    rfl

theorem Smoother.through_arrivals (filter : Smoother) (as : List Arrival) :
    filter.through { later := as } = (Reading.ofArrivals as).reached filter := by
  rw [through_eq, Intake.reading_fresh]

theorem smoothFrom_unlimited (filter : Smoother) (as : List Arrival) :
    smoothFrom filter (.onto {}) { later := as } =
      ((Reading.ofArrivals as).outcome 0,
        Sink.accept {} (((Reading.ofArrivals as).outputs filter).flatMap Binary32.line)) := by
  rw [smoothFrom_eq, Intake.reading_fresh, Outlet.deliver_eq, flatten_linePieces]
  show Outcome.after _ ((Sink.pour {} _).1, (Sink.pour {} _).2.2) = _
  rw [Sink.pour_of_none rfl]
  rfl

/-- The outcome of a run that has gone on from one that was done. -/
def Outcome.resuming (done : Summary) : Outcome → Outcome
  | .ok more => .ok ⟨done.samples + more.samples, done.lines + more.lines⟩
  | .error f => .error (f.below done.lines)

theorem Reading.outcome_andThen {r : Reading} (h : r.failure = none) (next : Reading) :
    (r.andThen next).outcome 0 = (next.outcome 0).resuming ⟨r.samples.length, r.line⟩ := by
  simp only [andThen, h, outcome, below]
  cases next.failure with
  | some f => rfl
  | none => simp [Outcome.resuming]

/-- **A run can be cut after any newline and resumed** with the filter it has reached
there. If the first part fails, the whole fails as it does, with the same output;
otherwise the whole is the first part followed by the second, and the samples and
lines of both are counted on. How the second part ends does not depend on the filter. -/
theorem smooth_resumed {as bs both : List Arrival} (ha : failure? as = none)
    (hb : failure? bs = none) (hboth : failure? both = none)
    (hends : content as = [] ∨ (content as).getLast? = some newline)
    (hcontent : content both = content as ++ content bs) :
    let first := smooth as {}
    let second := smoothFrom (Smoother.fresh.through { later := as }) (.onto {}) { later := bs }
    let whole := smooth both {}
    (match first.1 with
      | .error f => whole.1 = .error f ∧ whole.2.taken.toList = first.2.taken.toList
      | .ok done =>
        second.1 = (smooth bs {}).1 ∧ whole.1 = second.1.resuming done ∧
          whole.2.taken.toList = first.2.taken.toList ++ second.2.taken.toList) ∧
      first.2.taken.toList <+: whole.2.taken.toList := by
  intro first second whole
  have hreading := Reading.ofArrivals_append ha hb hboth hends hcontent
  have hfirst : first = _ := smooth_unlimited as
  have hsecond : second = _ := smoothFrom_unlimited (Smoother.fresh.through { later := as }) bs
  have hwhole : whole = _ := smooth_unlimited both
  rw [Smoother.through_arrivals] at hsecond
  rw [hreading] at hwhole
  cases hfailure : (Reading.ofArrivals as).failure with
  | some f =>
    rw [Reading.andThen_of_failure hfailure] at hwhole
    have hsame : whole = first := hwhole.trans hfirst.symm
    have herror : first.1 = .error f := by simp only [hfirst, Reading.outcome, hfailure]
    rw [hsame, herror]
    exact ⟨⟨rfl, rfl⟩, List.prefix_rfl⟩
  | none =>
    have hdone : first.1 = .ok ⟨(Reading.ofArrivals as).samples.length, (Reading.ofArrivals as).line⟩ := by
      simp only [hfirst, Reading.outcome, hfailure, Nat.zero_add]
    have houtcome : whole.1 = second.1.resuming
        ⟨(Reading.ofArrivals as).samples.length, (Reading.ofArrivals as).line⟩ := by
      simp only [hwhole, hsecond, Reading.outcome_andThen hfailure]
    have houtput : whole.2.taken.toList = first.2.taken.toList ++ second.2.taken.toList := by
      simp only [hwhole, hfirst, hsecond, Reading.output, Reading.outputs_andThen hfailure,
        List.flatMap_append, Sink.accept_append]
      simp [Sink.accept]
    have hending : second.1 = (smooth bs {}).1 := by rw [hsecond, smooth_unlimited]
    rw [hdone]
    exact ⟨⟨hending, houtcome, houtput⟩, houtput ▸ List.prefix_append _ _⟩

/-- Two samples and a blank line. -/
def firstPart : List Arrival := [.bytes 0x31 [0x20, 0x31, 0x0A], .bytes 0x0A []]

/-- A sample, and then a word that is no numeral. -/
def secondPart : List Arrival := [.bytes 0x31 [0x0A, 0x78]]

/-- Both parts, in portions that do not end where the first part does. -/
def bothParts : List Arrival := [.bytes 0x31 [0x20], .bytes 0x31 [0x0A, 0x0A, 0x31, 0x0A, 0x78]]

theorem smooth_resumed_parts :
    let second := smoothFrom (Smoother.fresh.through { later := firstPart }) (.onto {})
      { later := secondPart }
    failure? firstPart = none ∧ failure? secondPart = none ∧ failure? bothParts = none ∧
      (content firstPart).getLast? = some newline ∧
      content bothParts = content firstPart ++ content secondPart ∧
      (smooth firstPart {}).1 = .ok ⟨2, 2⟩ ∧ second.1 = .error (.malformedSample "x" 2) ∧
      (smooth bothParts {}).1 = .error (.malformedSample "x" 4) ∧
      (smooth bothParts {}).2.taken.toList =
        (smooth firstPart {}).2.taken.toList ++ second.2.taken.toList ∧
      second.2.taken.toList = Bytes.ofText "0.195643\n" := by
  intro second
  have hsecond : second = _ :=
    smoothFrom_unlimited (Smoother.fresh.through { later := firstPart }) secondPart
  rw [Smoother.through_arrivals] at hsecond
  have hdone : (smooth firstPart {}).1 = .ok ⟨2, 2⟩ := by
    rw [smooth_unlimited]
    decide +kernel
  have hfailed : second.1 = .error (.malformedSample "x" 2) := by
    rw [hsecond]
    decide +kernel
  have hwritten : second.2.taken.toList = Bytes.ofText "0.195643\n" := by
    rw [hsecond]
    decide +kernel
  have hrun := @smooth_resumed firstPart secondPart bothParts rfl rfl rfl (.inr rfl) rfl
  simp only [hdone] at hrun
  obtain ⟨⟨-, houtcome, houtput⟩, -⟩ := hrun
  refine ⟨rfl, rfl, rfl, rfl, rfl, hdone, hfailed, houtcome.trans ?_, houtput, hwritten⟩
  rw [show smoothFrom _ _ _ = second from rfl, hfailed]
  rfl

end LowPass
