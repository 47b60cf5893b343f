/-
What the environment can change of a run, and what it cannot.

The variable of the log settles only the threshold (`colours_set_log`), and the variables
of colour settle only whether a failure is printed in yellow (`logLevel_setColour`).
Neither reaches further: what a run does, and how it ends, is settled by its arguments
and the files (`run_isolated`).
-/
import LowPass.CommandLine.Invocation
import LowPass.Proofs.Text.Colour
import LowPass.Text.Utf8.RoundTrip

namespace LowPass

open Variables

/-! ## Setting variables -/

namespace Variables

/-- The variables with one of them set, or unset if there is no value. -/
def set (vars : Variables) (name : String) (value : Option Bytes) : Variables :=
  ⟨(value.toList.map fun v => (name, v)) ++ vars.pairs.filter fun pair => pair.1 != name⟩

/-- The variables with those that settle colour set or unset. -/
def setColour (vars : Variables) (allowed forced refused : Option Bytes) : Variables :=
  ((vars.set "CLICOLOR" allowed).set "CLICOLOR_FORCE" forced).set "NO_COLOR" refused

theorem lookup_filter_self (pairs : List (String × Bytes)) (name : String) :
    (pairs.filter fun pair => pair.1 != name).lookup name = none := by
  rw [List.lookup_eq_none_iff]
  intro pair hpair
  have hne := (List.mem_filter.1 hpair).2
  rw [bne_iff_ne] at hne
  exact bne_iff_ne.2 hne.symm

theorem lookup_filter_of_ne (pairs : List (String × Bytes)) {name other : String}
    (h : other ≠ name) :
    (pairs.filter fun pair => pair.1 != name).lookup other = pairs.lookup other := by
  induction pairs with
  | nil => rfl
  | cons pair pairs ih =>
    by_cases hpair : pair.1 = name
    · have hother : (other == pair.1) = false := by simpa [hpair] using h
      rw [List.filter_cons_of_neg (by simpa using hpair), ih, List.lookup_cons, hother]
    · rw [List.filter_cons_of_pos (by simpa using hpair), List.lookup_cons, List.lookup_cons, ih]

theorem lookup_set (vars : Variables) (name : String) (value : Option Bytes) (other : String) :
    (vars.set name value).pairs.lookup other =
      if other = name then value else vars.pairs.lookup other := by
  by_cases h : other = name
  · rw [if_pos h, h]
    cases value with
    | none => exact lookup_filter_self vars.pairs name
    | some v => simp [set]
  · have hother : (other == name) = false := by simpa using h
    rw [if_neg h, ← lookup_filter_of_ne vars.pairs h]
    cases value with
    | none => rfl
    | some v => simp only [set, Option.toList_some, List.map_cons, List.map_nil, List.cons_append,
        List.nil_append, List.lookup_cons, hother]

theorem get?_set (vars : Variables) {name : String} (value : Option Bytes) {other : String}
    (h : IsName other) :
    (vars.set name value).get? other =
      if other = name then value.bind Bytes.text? else vars.get? other := by
  unfold get?
  rw [if_pos h, if_pos h, lookup_set]
  split <;> rfl

/-! ## What the variables settle -/

theorem logLevel_setColour (vars : Variables) (allowed forced refused : Option Bytes) :
    (vars.setColour allowed forced refused).logLevel = vars.logLevel := by
  have hname : IsName logName := by decide
  unfold logLevel getOr setColour
  rw [get?_set _ _ hname, get?_set _ _ hname, get?_set _ _ hname]
  rfl

theorem colours_set_log (vars : Variables) (value : Option Bytes) (terminal : Bool) :
    (vars.set logName value).colours terminal = vars.colours terminal := by
  unfold colours
  rw [get?_set _ _ (by decide), get?_set _ _ (by decide), get?_set _ _ (by decide)]
  rfl

theorem logLevel_set_trace (vars : Variables) :
    (vars.set logName (some (.ofText "trace"))).logLevel = .trace := by
  have htrace : (vars.set logName (some (.ofText "trace"))).get? logName = some "trace" := by
    rw [get?_set _ _ (by decide), if_pos rfl]
    exact Bytes.text?_ofText "trace"
  rw [logLevel, getOr, htrace]
  decide +kernel

theorem colours_of_forced (vars : Variables) {v : String} (hv : v ≠ "0")
    (allowed refused : Option Bytes) (terminal : Bool) :
    (vars.setColour allowed (some (.ofText v)) refused).colours terminal = true := by
  have hname : IsName "CLICOLOR_FORCE" := by decide
  have hforced : (vars.setColour allowed (some (.ofText v)) refused).get? "CLICOLOR_FORCE" =
      some v := by
    rw [setColour, get?_set _ _ hname, if_neg (by decide), get?_set _ _ hname, if_pos rfl]
    exact Bytes.text?_ofText v
  rw [colours, hforced]
  exact if_pos hv

end Variables

/-! ## What a run shows of them -/

variable (t : FileTree) (cwd : Place) (args : List Bytes) (terminal : Bool)

/-- What is printed of a call without colour and with it: the same usage line, or
nothing, or a failure of which only the escapes of yellow differ. -/
def PrintsAs (plain coloured : String) : Prop :=
  match Operands.ofArguments args with
  | .error usage => plain = usage.message ++ "\n" ∧ coloured = plain
  | .ok operands =>
    match (smoothFile (FileTree.host cwd) operands.input operands.output t).1.1 with
    | .ok _ => plain = "" ∧ coloured = ""
    | .error failure =>
      plain = failure.message ++ "\n" ∧
        ∃ text, Colour.Yellowed failure.message text ∧ coloured = text ++ "\n"

/-- **The environment enters a run in two places**: whether what is printed is coloured,
and which of the events are kept. -/
theorem run_of_environment :
    ∃ (status : Nat) (plain coloured : String) (events : List Event) (after : FileTree),
      PrintsAs t cwd args plain coloured ∧
      ∀ vars, Invocation.run (FileTree.host cwd) ⟨args, vars, terminal⟩ t =
        (⟨status, if vars.colours terminal then coloured else plain,
          logged vars.logLevel events⟩, after) := by
  unfold PrintsAs
  cases hargs : Operands.ofArguments args with
  | error usage =>
    refine ⟨Failure.status, usage.message ++ "\n", usage.message ++ "\n", [], t, ⟨rfl, rfl⟩,
      fun vars => ?_⟩
    rw [ite_self, Invocation.run, hargs]
    rfl
  | ok operands =>
    have hrun : ∀ vars, Invocation.run (FileTree.host cwd) ⟨args, vars, terminal⟩ t =
        let run := smoothFile (FileTree.host cwd) operands.input operands.output t
        (.ofOutcome (vars.colours terminal) vars.logLevel run.1.1 run.1.2, run.2) := by
      intro vars
      rw [Invocation.run, hargs]
      rfl
    simp only [hrun]
    obtain ⟨⟨outcome, events⟩, after⟩ :=
      smoothFile (FileTree.host cwd) operands.input operands.output t
    cases outcome with
    | ok done =>
      refine ⟨0, "", "", events, after, ⟨rfl, rfl⟩, fun vars => ?_⟩
      rw [ite_self]
      rfl
    | error failure =>
      refine ⟨Failure.status, failure.message ++ "\n", inYellow failure.message ++ "\n",
        events ++ [.failed "filter run failed" failure], after,
        ⟨rfl, _, Colour.yellowed_inYellow failure.message, rfl⟩, fun vars => ?_⟩
      cases vars.colours terminal <;> rfl

/-- **The environment is kept apart.** The variable of the log settles which records are
kept, of those that there are, and nothing else. The variables of colour settle whether
what is printed is the plain text or the coloured one, and nothing else; colour that is
forced is there. -/
theorem run_isolated (vars : Variables) :
    let seen := fun vars => Invocation.run (FileTree.host cwd) ⟨args, vars, terminal⟩ t
    (∀ v w : Option Bytes,
        (seen (vars.set logName v)).1.status = (seen (vars.set logName w)).1.status ∧
        (seen (vars.set logName v)).1.printed = (seen (vars.set logName w)).1.printed ∧
        (seen (vars.set logName v)).2 = (seen (vars.set logName w)).2) ∧
      (∀ v : Option Bytes,
        (seen (vars.set logName v)).1.events =
          (seen (vars.set logName (some (.ofText "trace")))).1.events.filter fun e =>
            e.level.rank ≤ (vars.set logName v).logLevel.rank) ∧
      (∀ a f r a' f' r' : Option Bytes,
        (seen (vars.setColour a f r)).1.status = (seen (vars.setColour a' f' r')).1.status ∧
        (seen (vars.setColour a f r)).1.events = (seen (vars.setColour a' f' r')).1.events ∧
        (seen (vars.setColour a f r)).2 = (seen (vars.setColour a' f' r')).2) ∧
      ∃ plain coloured : String,
        PrintsAs t cwd args plain coloured ∧
        (∀ a f r : Option Bytes, (seen (vars.setColour a f r)).1.printed =
          if (vars.setColour a f r).colours terminal then coloured else plain) ∧
        ∀ (a r : Option Bytes) (v : String), v ≠ "0" →
          (seen (vars.setColour a (some (.ofText v)) r)).1.printed = coloured := by
  obtain ⟨status, plain, coloured, events, after, hprints, hseen⟩ :=
    run_of_environment t cwd args terminal
  simp only [hseen, colours_set_log, logLevel_setColour, logLevel_set_trace, logged_trace,
    true_and, and_true, implies_true]
  refine ⟨fun v => rfl, plain, coloured, hprints, fun _ _ _ => rfl, fun a r v hv => ?_⟩
  rw [colours_of_forced vars hv, if_pos rfl]

/-- A path that turns colours off, and names no file. -/
theorem run_isolated_reset :
    let args : List Bytes := [.ofText "filter", .ofText "a\x1b[0mb", .ofText "out"]
    let seen := fun vars => Invocation.run (FileTree.host []) ⟨args, vars, false⟩ ⟨[]⟩
    "1" ≠ "0" ∧ ∃ plain coloured : String,
      PrintsAs ⟨[]⟩ [] args plain coloured ∧
      (seen (Variables.setColour {} none (some (.ofText "1")) none)).1.printed = coloured ∧
      (seen (Variables.setColour {} none none none)).1.printed = plain ∧
      plain = "No such file: a\x1b[0mb\n" := by
  intro args seen
  have hone : "1" ≠ "0" := by decide
  obtain ⟨plain, coloured, hprints, hprinted, hforced⟩ :=
    (run_isolated ⟨[]⟩ [] args false {}).2.2.2
  have hplain : (seen (Variables.setColour {} none none none)).1.printed = plain :=
    (hprinted none none none).trans (if_neg (by decide +kernel))
  refine ⟨hone, plain, coloured, hprints, hforced none none "1" hone, hplain, ?_⟩
  rw [← hplain]
  decide +kernel

end LowPass
