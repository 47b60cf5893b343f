/-
What a report tells of a run over files.

The status, the standard output and the log all follow the outcome: what is logged of a
run is its start, what keeps its input from being read, and its end (`runFiles_events`).
All that a report says follows from that (`runFiles_tells`).
-/
import LowPass.Proofs.FileRun
import LowPass.Proofs.Printouts

namespace LowPass

open Arrival FileTree

variable (t : FileTree) (cwd : Place) (input output : Bytes)

/-! ## The events of a run -/

/-- Why an input cannot be read, as the log has it. -/
def FileTree.obstacle (t : FileTree) (cwd : Place) (input : Bytes) : List Event :=
  match t.openInput cwd input with
  | .error e => [.inputUnopened e.text]
  | .ok none => [.inputIsDirectory]
  | .ok (some _) => []

/-- How a run ended, as the log has it. -/
def Outcome.ending : Outcome → Event
  | .ok done => .smoothed done
  | .error failure => .failed "filter run failed" failure

theorem runFiles_eq (colour : Bool) (threshold : Level) :
    runFiles (FileTree.host cwd) colour threshold input output t =
      let run := smoothFile (FileTree.host cwd) input output t
      (.ofOutcome colour threshold run.1.1 run.1.2, run.2) := rfl

/-- **The log of a run** has its start, what keeps the input from being read, and its end. -/
theorem runFiles_events (colour : Bool) (threshold : Level) :
    (runFiles (FileTree.host cwd) colour threshold input output t).1.events =
      logged threshold (.starting input.lossyText output.lossyText ::
        (t.obstacle cwd input ++
          [Outcome.ending (smoothFile (FileTree.host cwd) input output t).1.1])) := by
  rw [runFiles_eq, smoothFile_eq, obstacle]
  cases t.openInput cwd input with
  | error e => rfl
  | ok opened =>
    cases opened with
    | none => rfl
    | some source =>
      cases t.create cwd output with
      | mk made after =>
        cases made with
        | error e => rfl
        | ok target =>
          dsimp only
          cases (smooth (after.read source) (FileTree.sink target)).1 <;> rfl

theorem level_obstacle {e : Event} (h : e ∈ t.obstacle cwd input) : e.level = .debug := by
  unfold obstacle at h
  split at h <;> simp_all [Event.level]

/-- What is logged above debugging is how the run ended. -/
theorem eq_ending_of_mem {colour : Bool} {threshold : Level} {e : Event}
    (h : e ∈ (runFiles (FileTree.host cwd) colour threshold input output t).1.events)
    (hlevel : e.level ≠ .debug) :
    e = Outcome.ending (smoothFile (FileTree.host cwd) input output t).1.1 := by
  rw [runFiles_events] at h
  have hmem := List.mem_of_mem_filter h
  rcases List.mem_cons.1 hmem with rfl | hmem
  · exact absurd rfl hlevel
  · rcases List.mem_append.1 hmem with hmem | hmem
    · exact absurd (level_obstacle t cwd input hmem) hlevel
    · exact List.mem_singleton.1 hmem

/-! ## The outcome of a run -/

theorem Reading.failure_cases {e : Option IoError} {line : Nat} {ws : List (List Char × Nat)}
    {failure : Failure} (h : (ofWords e line ws).failure = some failure) :
    (∃ word n, failure = .malformedSample word n) ∨ ∃ e, failure = .io e := by
  have hwords := congrArg Prod.fst (failure_ofWords e line ws)
  rw [h] at hwords
  split at hwords
  · exact .inl ⟨_, _, Option.some.inj hwords⟩
  · obtain ⟨e', -, he⟩ := Option.map_eq_some_iff.1 hwords.symm
    exact .inr ⟨e', he.symm⟩

theorem smooth_failure {as : List Arrival} {sink : Sink} {failure : Failure}
    (h : (smooth as sink).1 = .error failure) :
    (∃ word n, failure = .malformedSample word n) ∨ ∃ e, failure = .io e := by
  rw [smooth_eq] at h
  unfold Outcome.after at h
  split at h
  · unfold Reading.outcome at h
    split at h
    · rename_i f hf
      cases h
      exact Reading.failure_cases hf
    · cases h
  · cases h
    exact .inr ⟨_, rfl⟩

theorem smoothFile_inputNotFound_iff :
    (∃ path, (smoothFile (FileTree.host cwd) input output t).1.1 = .error (.inputNotFound path)) ↔
      t.obstacle cwd input ≠ [] := by
  rw [smoothFile_eq, obstacle]
  cases t.openInput cwd input with
  | error e => simp
  | ok opened =>
    cases opened with
    | none => simp
    | some source =>
      simp only [ne_eq, not_true_eq_false, iff_false, not_exists]
      intro path
      cases t.create cwd output with
      | mk made after =>
        cases made with
        | error e => exact fun h => nomatch h
        | ok target =>
          intro h
          rcases smooth_failure h with ⟨word, line, hword⟩ | ⟨e, he⟩
          · cases hword
          · cases he

example : (⟨[]⟩ : FileTree).obstacle [] (.ofText "in") =
    [.inputUnopened "No such file or directory (os error 2)"] := by decide +kernel

theorem samples_smooth {as : List Arrival} {done : Summary} (h : (smooth as {}).1 = .ok done) :
    done.samples = (lines (smooth as {}).2.taken.toList).length := by
  have hprinted : (smooth as {}).2.taken.toList =
      printed ((Reading.ofArrivals as).outputs .fresh) := by
    rw [taken_smooth_unlimited, printed_eq, Reading.output]
  rw [smooth_unlimited] at h
  rw [hprinted, lines_printed, List.length_map, Reading.outputs, Smoother.length_block,
    List.length_map]
  unfold Reading.outcome at h
  split at h
  · cases h
  · cases h
    exact Nat.zero_add _

theorem samples_smoothFile {done : Summary} {q : Place} {written : Bytes}
    (hdone : (smoothFile (FileTree.host cwd) input output t).1.1 = .ok done)
    (hwritten : (smoothFile (FileTree.host cwd) input output t).2.resolve false cwd output =
      .ok (.file q written)) :
    done.samples = (lines written).length := by
  cases hopen : t.openInput cwd input with
  | error e =>
    rw [(smoothFile_of_unopened (.inr ⟨e, hopen⟩)).1] at hdone
    cases hdone
  | ok opened =>
    cases opened with
    | none =>
      rw [(smoothFile_of_unopened (.inl hopen)).1] at hdone
      cases hdone
    | some f =>
      rcases create_cases t cwd output with ⟨p, hmakes⟩ | ⟨e, hcreate⟩ | ⟨d, hdevice, hcreate⟩
      · obtain ⟨houtcome, hafter⟩ := smoothFile_of_makes hopen hmakes
        rw [hafter, hmakes.resolve_put] at hwritten
        cases hwritten
        exact samples_smooth (houtcome ▸ hdone)
      · rw [(smoothFile_of_uncreated hopen hcreate).1] at hdone
        cases hdone
      · rw [(smoothFile_of_device hopen hcreate).2, resolve_of_creating hdevice] at hwritten
        cases hwritten

/-! ## The report -/

/-- **A report tells one story.** The status, what is printed and the last record of
the log say how the run ended, whatever is logged; the log says of every run that it
starts, and of an input that is not found why; success counts the lines of the output,
if that is a file; and no log says of a run both that it is done and that it has failed. -/
theorem runFiles_tells :
    let run := smoothFile (FileTree.host cwd) input output t
    let told := fun threshold => runFiles (FileTree.host cwd) false threshold input output t
    let record := fun (level message : String) (details : List (String × FieldValue)) =>
      [("msg", .text message), ("level", .text level), ("app", .text "rc-filter")] ++ details
    let start := record "DEBG" "starting filter run"
      [("input", .text input.lossyText), ("output", .text output.lossyText)]
    let reason := match t.openInput cwd input with
      | .error e => [record "DEBG" "cannot open input" [("error", .text e.text)]]
      | .ok none => [record "DEBG" "input is a directory" []]
      | .ok (some _) => []
    let ending := match run.1.1 with
      | .ok done =>
        record "INFO" "filtered samples" [("count", .count done.samples), ("lines", .count done.lines)]
      | .error failure =>
        record "ERRO" "filter run failed"
          [("error", .text failure.message), ("causes", .text (chainText failure.causes))]
    (∀ threshold,
        (told threshold).2 = run.2 ∧
        (match run.1.1 with
          | .ok _ => (told threshold).1.status = 0 ∧ (told threshold).1.printed = ""
          | .error failure =>
            (told threshold).1.status = 255 ∧ (told threshold).1.printed = failure.message ++ "\n") ∧
        ¬ ((∃ done, .smoothed done ∈ (told threshold).1.events) ∧
          ∃ context failure, .failed context failure ∈ (told threshold).1.events)) ∧
      (told .trace).1.events.map Event.fields = start :: (reason ++ [ending]) ∧
      (reason ≠ [] ↔ ∃ path, run.1.1 = .error (.inputNotFound path)) ∧
      ∀ done q written, run.1.1 = .ok done →
        run.2.resolve false cwd output = .ok (.file q written) →
        done.samples = (lines written).length := by
  intro run told record start reason ending
  have hreason : reason = (t.obstacle cwd input).map Event.fields := by
    simp only [reason, obstacle]
    cases t.openInput cwd input with
    | error e => rfl
    | ok opened => cases opened <;> rfl
  have hending : ending = (Outcome.ending run.1.1).fields := by
    simp only [ending]
    cases run.1.1 <;> rfl
  refine ⟨fun threshold => ⟨rfl, ?_, ?_⟩, ?_, ?_,
    fun done q written => samples_smoothFile t cwd input output⟩
  · have htold : (told threshold).1 = .ofOutcome false threshold run.1.1 run.1.2 := rfl
    rw [htold]
    cases run.1.1 <;> exact ⟨rfl, rfl⟩
  · rintro ⟨⟨done, hdone⟩, context, failure, hfailed⟩
    have hboth := (eq_ending_of_mem t cwd input output hdone (by simp [Event.level])).trans
      (eq_ending_of_mem t cwd input output hfailed (by simp [Event.level])).symm
    cases hboth
  · have hevents : (told .trace).1.events = _ := runFiles_events t cwd input output false .trace
    rw [hevents, logged_trace, List.map_cons, List.map_append, hreason, hending]
    rfl
  · rw [smoothFile_inputNotFound_iff, hreason, ne_eq, List.map_eq_nil_iff]

theorem runFiles_tells_oneFile :
    let input := Bytes.ofText "same"
    let output := Bytes.ofText "out"
    let run := smoothFile (FileTree.host []) input output oneFile
    let told := (runFiles (FileTree.host []) false .trace input output oneFile).1
    let written := Bytes.ofText "0.070000\n0.135100\n"
    run.1.1 = .ok ⟨2, 2⟩ ∧ run.2.resolve false [] output = .ok (.file [output] written) ∧
      (lines written).length = 2 ∧ told.status = 0 ∧ told.printed = "" ∧
      told.events.map Event.fields =
        [[("msg", .text "starting filter run"), ("level", .text "DEBG"), ("app", .text "rc-filter"),
            ("input", .text "same"), ("output", .text "out")],
          [("msg", .text "filtered samples"), ("level", .text "INFO"), ("app", .text "rc-filter"),
            ("count", .count 2), ("lines", .count 2)]] := by
  intro input output run told written
  have hopen : oneFile.openInput [] input = .ok (some (.file [.ofText "in.txt"])) := by
    decide +kernel
  have hmakes : oneFile.Makes [] output [output] := .inr (by decide +kernel)
  obtain ⟨houtcome, hafter⟩ := smoothFile_of_makes hopen hmakes
  have hdone : run.1.1 = .ok ⟨2, 2⟩ := by
    rw [show run.1.1 = _ from houtcome, smooth_unlimited]
    decide +kernel
  have hwritten : run.2.resolve false [] output = .ok (.file [output] written) := by
    rw [show run.2 = _ from hafter, hmakes.resolve_put, taken_smooth_unlimited]
    decide +kernel
  obtain ⟨htold, hevents, -, hcount⟩ := runFiles_tells oneFile [] input output
  obtain ⟨-, htold, -⟩ := htold .trace
  simp only [show (smoothFile (FileTree.host []) input output oneFile).1.1 = _ from hdone]
    at htold hevents
  refine ⟨hdone, hwritten, (hcount _ _ _ hdone hwritten).symm, htold.1, htold.2, hevents.trans ?_⟩
  rw [hopen]
  decide +kernel

end LowPass
