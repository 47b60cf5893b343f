/-
What a run over the files of a tree comes to, and what it leaves behind.

A run changes at most one file, the one that its output path leads to
(`smoothFile_after`). Over two files it is what smoothing makes of the one, and the
other holds what was written, whether the run has failed on the way or not; and where
an input or an output cannot be opened, the tree is as before (`smoothFile_apart`).

An output is emptied before anything is read. So a run whose two paths lead to one
file finds nothing in it, reports success, and has lost what was there; every other
run leaves its input as it was (`smoothFile_input`).
-/
import LowPass.FileRun
import LowPass.Proofs.FileTree.Open
import LowPass.Proofs.Portions

namespace LowPass

open Arrival FileTree

variable {t : FileTree} {cwd : Place} {input output : Bytes}

/-! ## The course of a run -/

theorem smoothFile_eq (t : FileTree) (cwd : Place) (input output : Bytes) :
    smoothFile (FileTree.host cwd) input output t =
      let start := Event.starting input.lossyText output.lossyText
      match t.openInput cwd input with
      | .error e => ((.error (.inputNotFound input.lossyText), [start, .inputUnopened e.text]), t)
      | .ok none => ((.error (.inputNotFound input.lossyText), [start, .inputIsDirectory]), t)
      | .ok (some source) =>
        match t.create cwd output with
        | (.error e, t) => ((.error (.outputOpen output.lossyText e), [start]), t)
        | (.ok target, t) =>
          let run := smooth (t.read source) (FileTree.sink target)
          let events := match run.1 with
            | .ok done => [start, .smoothed done]
            | .error _ => [start]
          ((run.1, events), t.keep run.2.taken.toList target) := by
  simp only [smoothFile, FileTree.host, bind, StateT.bind, pure]
  cases t.openInput cwd input with
  | error e => rfl
  | ok opened =>
    cases opened with
    | none => rfl
    | some source =>
      dsimp only [StateT.bind, bind, Id]
      cases t.create cwd output with
      | mk made after =>
        cases made with
        | error e => rfl
        | ok target =>
          dsimp only [StateT.bind, bind, Id]
          cases (smooth (after.read source) (FileTree.sink target)).1 <;> rfl

/-- Whatever keeps an input from being read, and wherever it is, ends a run before its
output is looked at. -/
theorem smoothFile_of_obstacle {σ : Type} {host : Host (StateM σ)} {s after : σ} {o : Obstacle}
    (h : host.openInput input s = (.error o, after)) :
    smoothFile host input output s =
      ((.error (.inputNotFound input.lossyText),
        [.starting input.lossyText output.lossyText, o.event]), after) := by
  simp only [smoothFile, bind, StateT.bind, h]
  rfl

theorem smoothFile_of_unopened
    (h : t.openInput cwd input = .ok none ∨ ∃ e, t.openInput cwd input = .error e) :
    (smoothFile (FileTree.host cwd) input output t).1.1 = .error (.inputNotFound input.lossyText) ∧
      (smoothFile (FileTree.host cwd) input output t).2 = t := by
  have hobstacle : ∃ o, (FileTree.host cwd).openInput input t = (.error o, t) := by
    rcases h with hopen | ⟨e, hopen⟩
    · exact ⟨.directory, by simp only [FileTree.host, hopen]⟩
    · exact ⟨.unopened e, by simp only [FileTree.host, hopen]⟩
  obtain ⟨o, ho⟩ := hobstacle
  rw [smoothFile_of_obstacle ho]
  exact ⟨rfl, rfl⟩

section
variable {f : OpenFile} (hopen : t.openInput cwd input = .ok (some f))
include hopen

theorem smoothFile_of_uncreated {e : IoError} (hcreate : t.create cwd output = (.error e, t)) :
    (smoothFile (FileTree.host cwd) input output t).1.1 = .error (.outputOpen output.lossyText e) ∧
      (smoothFile (FileTree.host cwd) input output t).2 = t := by
  rw [smoothFile_eq, hopen, hcreate]
  exact ⟨rfl, rfl⟩

theorem smoothFile_of_device {d : Device} (hcreate : t.create cwd output = (.ok (.device d), t)) :
    (smoothFile (FileTree.host cwd) input output t).1.1 =
        (smooth (t.read f) (FileTree.sink (.device d))).1 ∧
      (smoothFile (FileTree.host cwd) input output t).2 = t := by
  rw [smoothFile_eq, hopen, hcreate]
  exact ⟨rfl, rfl⟩

/-- An output at a place for a file is emptied, then what can be read is smoothed, and
what was written is kept there. -/
theorem smoothFile_of_makes {q : Place} (hmakes : t.Makes cwd output q) :
    let run := smooth ((t.put q (.file [])).read f) {}
    (smoothFile (FileTree.host cwd) input output t).1.1 = run.1 ∧
      (smoothFile (FileTree.host cwd) input output t).2 = t.put q (.file run.2.taken.toList) := by
  rw [smoothFile_eq, hopen, hmakes.create]
  exact ⟨rfl, put_put t q _ _⟩

end

/-- **A run changes one file at most**, and that is at the place of its output. -/
theorem smoothFile_after (t : FileTree) (cwd : Place) (input output : Bytes) :
    let after := (smoothFile (FileTree.host cwd) input output t).2
    after = t ∨ ∃ q out, t.Makes cwd output q ∧ after = t.put q (.file out) := by
  intro after
  cases hopen : t.openInput cwd input with
  | error e => exact .inl (smoothFile_of_unopened (.inr ⟨e, hopen⟩)).2
  | ok opened =>
    cases opened with
    | none => exact .inl (smoothFile_of_unopened (.inl hopen)).2
    | some f =>
      rcases create_cases t cwd output with ⟨q, hmakes⟩ | ⟨e, hcreate⟩ | ⟨d, -, hcreate⟩
      · exact .inr ⟨q, _, hmakes, (smoothFile_of_makes hopen hmakes).2⟩
      · exact .inl (smoothFile_of_uncreated hopen hcreate).2
      · exact .inl (smoothFile_of_device hopen hcreate).2

/-! ## Over two files -/

section
variable {source : Bytes} {as : List Arrival} (has : failure? as = none)
  (hcontent : content as = source)
include has hcontent

theorem smooth_together (sink : Sink) : smooth (together source []) sink = smooth as sink :=
  smooth_congr (failure?_together source []) has (by simp [content, hcontent]) sink

theorem smoothFile_into {q : Place} (hsource : t.source? cwd input = some source)
    (happart : ¬ t.SameFile cwd input output) (hmakes : t.Makes cwd output q) :
    (smoothFile (FileTree.host cwd) input output t).1.1 = (smooth as {}).1 ∧
      (smoothFile (FileTree.host cwd) input output t).2 =
        t.put q (.file (smooth as {}).2.taken.toList) := by
  obtain ⟨f, hopen, hread, hfile⟩ := exists_openInput hsource
  have hother : f ≠ .file q := by
    rintro rfl
    have hinput := hfile q rfl
    have houtput := hmakes.resolve_eq (found_of_resolve hinput).2
    exact happart ⟨q, source, hinput, resolve_of_creating houtput⟩
  have hrun := smoothFile_of_makes hopen hmakes
  rwa [read_put_of_ne _ hother, hread, smooth_together has hcontent] at hrun

theorem smoothFile_into_file {q : Place} (hsource : t.source? cwd input = some source)
    (happart : ¬ t.SameFile cwd input output) (hmakes : t.Makes cwd output q) :
    let run := smoothFile (FileTree.host cwd) input output t
    let written := (smooth as {}).2.taken.toList
    run.1.1 = (smooth as {}).1 ∧ run.2.resolve false cwd output = .ok (.file q written) ∧
      ∀ p, run.2.get? p = if p = q then some (.file written) else t.get? p := by
  intro run written
  obtain ⟨houtcome, hafter⟩ := smoothFile_into has hcontent hsource happart hmakes
  have hafter : run.2 = t.put q (.file written) := hafter
  rw [hafter]
  exact ⟨houtcome, hmakes.resolve_put written, fun p => get?_put t _ hmakes.free.1 p⟩

end

/-- **A run over two files.** The input is opened first: if nothing can be read through
its path, that is the outcome, whatever the output path is, and if then the output
cannot be made, that is; either way the tree is as before. Otherwise the outcome is that
of smoothing what the input holds, however it arrives, and if the output is a file, it
holds exactly what was written, as its path shows, and all other places are as they
were. -/
theorem smoothFile_apart (happart : ¬ t.SameFile cwd input output)
    (hends : t.resolve false cwd input ≠ .ok (.device .full)) :
    let run := smoothFile (FileTree.host cwd) input output t
    let outcome := run.1.1
    let after := run.2
    match t.source? cwd input with
    | none => outcome = .error (.inputNotFound input.lossyText) ∧ after = t
    | some source =>
      match t.resolve true cwd output with
      | .error e => outcome = .error (.outputOpen output.lossyText e) ∧ after = t
      | .ok (.directory _) =>
        outcome = .error (.outputOpen output.lossyText .isADirectory) ∧ after = t
      | .ok (.device d) =>
        ∀ as, failure? as = none → content as = source →
          outcome = (smooth as (FileTree.sink (.device d))).1 ∧ after = t
      | .ok (.file q _) | .ok (.vacant q) =>
        ∀ as, failure? as = none → content as = source →
          let written := (smooth as {}).2.taken.toList
          outcome = (smooth as {}).1 ∧
            after.resolve false cwd output = .ok (.file q written) ∧
            ∀ p, after.get? p = if p = q then some (.file written) else t.get? p := by
  intro run outcome after
  cases hsource : t.source? cwd input with
  | none => exact smoothFile_of_unopened (openInput_of_source?_eq_none hsource hends)
  | some source =>
    obtain ⟨f, hopen, hread, -⟩ := exists_openInput hsource
    cases hspot : t.resolve true cwd output with
    | error e =>
      have hcreate : t.create cwd output = (.error e, t) := by simp only [create, hspot]
      exact smoothFile_of_uncreated hopen hcreate
    | ok spot =>
      cases spot with
      | directory p =>
        have hcreate : t.create cwd output = (.error .isADirectory, t) := by
          simp only [create, hspot]
        exact smoothFile_of_uncreated hopen hcreate
      | device d =>
        intro as has hcontent
        have hcreate : t.create cwd output = (.ok (.device d), t) := by simp only [create, hspot]
        have hrun := smoothFile_of_device hopen hcreate
        rwa [hread, smooth_together has hcontent] at hrun
      | file q old =>
        intro as has hcontent
        exact smoothFile_into_file has hcontent hsource happart (.inl ⟨old, hspot⟩)
      | vacant q =>
        intro as has hcontent
        exact smoothFile_into_file has hcontent hsource happart (.inr hspot)

/-- A directory with a file of samples that ends badly, a link to it, and a link to
where there is nothing. -/
def linkedFiles : FileTree :=
  ⟨[([.ofText "work"], .directory),
    ([.ofText "data", .ofText "work"], .directory),
    ([.ofText "a", .ofText "data", .ofText "work"], .file (.ofText "1 1\nx\n")),
    ([.ofText "in", .ofText "work"], .link (.ofText "./data/a")),
    ([.ofText "out", .ofText "work"], .link (.ofText "/work/data/../new"))]⟩

theorem smoothFile_apart_linkedFiles :
    let cwd := [Bytes.ofText "work"]
    let input := Bytes.ofText "in"
    let output := Bytes.ofText "out"
    let written := Bytes.ofText "0.070000\n0.135100\n"
    let run := smoothFile (FileTree.host cwd) input output linkedFiles
    ¬ linkedFiles.SameFile cwd input output ∧
      linkedFiles.resolve false cwd input ≠ .ok (.device .full) ∧
      run.1.1 = .error (.malformedSample "x" 2) ∧
      run.2.resolve false cwd output = .ok (.file [.ofText "new", .ofText "work"] written) ∧
      ∀ p, run.2.get? p =
        if p = [.ofText "new", .ofText "work"] then some (.file written)
        else linkedFiles.get? p := by
  intro cwd input output written run
  have hinput : linkedFiles.resolve false cwd input =
      .ok (.file [.ofText "a", .ofText "data", .ofText "work"] (.ofText "1 1\nx\n")) := by
    decide +kernel
  have hsource : linkedFiles.source? cwd input = some (.ofText "1 1\nx\n") := by
    rw [source?, hinput]
  have houtput : linkedFiles.resolve true cwd output =
      .ok (.vacant [.ofText "new", .ofText "work"]) := by
    decide +kernel
  have happart : ¬ linkedFiles.SameFile cwd input output := by
    rintro ⟨p, held, -, hsame⟩
    rw [resolve_of_creating houtput] at hsame
    cases hsame
  have hends : linkedFiles.resolve false cwd input ≠ .ok (.device .full) := by
    rw [hinput]
    exact fun h => nomatch h
  have hrun := smoothFile_apart happart hends
  simp only [hsource, houtput] at hrun
  obtain ⟨houtcome, hpath, hplaces⟩ :=
    hrun (together (.ofText "1 1\nx\n") []) rfl (by simp [content])
  have hsmooth := smooth_unlimited (together (Bytes.ofText "1 1\nx\n") [])
  have hwritten : (smooth (together (Bytes.ofText "1 1\nx\n") []) {}).2.taken.toList = written := by
    rw [taken_smooth_unlimited]
    decide +kernel
  rw [hwritten] at hpath hplaces
  refine ⟨happart, hends, houtcome.trans ?_, hpath, hplaces⟩
  rw [hsmooth]
  decide +kernel

/-! ## Onto the input -/

theorem smooth_nil : smooth [] {} = (.ok ⟨0, 0⟩, {}) := by
  rw [smooth_unlimited]
  rfl

/-- **A run onto its own input** has emptied it before it reads. -/
theorem smoothFile_onto_input {p : Place} {held : Bytes}
    (hinput : t.resolve false cwd input = .ok (.file p held))
    (houtput : t.resolve true cwd output = .ok (.file p held)) :
    (smoothFile (FileTree.host cwd) input output t).1.1 = .ok ⟨0, 0⟩ ∧
      (smoothFile (FileTree.host cwd) input output t).2 = t.put p (.file []) := by
  have hmakes : t.Makes cwd output p := .inl ⟨held, houtput⟩
  have hopen : t.openInput cwd input = .ok (some (.file p)) := by simp only [openInput, hinput]
  have hrun := smoothFile_of_makes hopen hmakes
  rwa [read_file (get?_put_self t _ hmakes.free.1), together, smooth_nil] at hrun

/-- **What becomes of the input.** Its path still leads to what it held, unless the
output path leads to the same file: then the run reports success, over no samples, and
the file is empty. -/
theorem smoothFile_input {p : Place} {held : Bytes}
    (hinput : t.resolve false cwd input = .ok (.file p held)) :
    let run := smoothFile (FileTree.host cwd) input output t
    (t.resolve true cwd output ≠ .ok (.file p held) →
        run.2.resolve false cwd input = .ok (.file p held)) ∧
      (t.resolve true cwd output = .ok (.file p held) →
        run.1.1 = .ok ⟨0, 0⟩ ∧ run.2.resolve false cwd input = .ok (.file p [])) := by
  intro run
  have hget : t.get? p = some (.file held) := (found_of_resolve hinput).2
  constructor
  · intro hother
    rcases smoothFile_after t cwd input output with hafter | ⟨q, out, hmakes, hafter⟩
    · show run.2.resolve false cwd input = _
      rw [show run.2 = t from hafter, hinput]
    · have hne : p ≠ q := by
        rintro rfl
        exact hother (hmakes.resolve_eq hget)
      have hput := resolve_put_file hinput hmakes.free out
      rw [if_neg hne] at hput
      rwa [show run.2 = _ from hafter]
  · intro hsame
    obtain ⟨houtcome, hafter⟩ := smoothFile_onto_input hinput hsame
    have hfree : t.Free p := Makes.free (.inl ⟨held, hsame⟩)
    have hput := resolve_put_file hinput hfree []
    rw [if_pos rfl] at hput
    exact ⟨houtcome, by rwa [show run.2 = _ from hafter]⟩

/-- One file of samples, and a link to it. -/
def oneFile : FileTree :=
  ⟨[([.ofText "in.txt"], .file (.ofText "1.0\n1.0\n")),
    ([.ofText "same"], .link (.ofText "in.txt"))]⟩

theorem smoothFile_input_oneFile :
    let path := Bytes.ofText "in.txt"
    let run := smoothFile (FileTree.host []) path (.ofText "same") oneFile
    oneFile.resolve false [] path = .ok (.file [path] (.ofText "1.0\n1.0\n")) ∧
      run.1.1 = .ok ⟨0, 0⟩ ∧ run.2.resolve false [] path = .ok (.file [path] []) := by
  intro path run
  have hinput : oneFile.resolve false [] path = .ok (.file [path] (.ofText "1.0\n1.0\n")) := by
    decide +kernel
  have houtput : oneFile.resolve true [] (.ofText "same") =
      .ok (.file [path] (.ofText "1.0\n1.0\n")) := by
    decide +kernel
  exact ⟨hinput, (smoothFile_input hinput).2 houtput⟩

/-- **A file smoothed into itself is lost**: the run succeeds, and the file holds neither
what it held nor what that is smoothed to. -/
theorem smoothFile_onto_itself :
    let path := Bytes.ofText "in.txt"
    let held := Bytes.ofText "1.0\n1.0\n"
    let run := smoothFile (FileTree.host []) path path oneFile
    oneFile.resolve false [] path = .ok (.file [path] held) ∧ run.1.1 = .ok ⟨0, 0⟩ ∧
      ¬ (run.2.resolve false [] path = .ok (.file [path] held) ∨
        ∃ done, run.1.1 = .ok done ∧ run.2.resolve false [] path =
          .ok (.file [path] (smooth (together held []) {}).2.taken.toList)) := by
  intro path held run
  have hinput : oneFile.resolve false [] path = .ok (.file [path] held) := by decide +kernel
  have houtput : oneFile.resolve true [] path = .ok (.file [path] held) := by decide +kernel
  obtain ⟨houtcome, hafter⟩ := smoothFile_onto_input hinput houtput
  have hempty : run.2.resolve false [] path = .ok (.file [path] []) := by
    rw [show run.2 = _ from hafter]
    decide +kernel
  refine ⟨hinput, houtcome, ?_⟩
  rw [hempty]
  rintro (hkept | ⟨done, -, hsmoothed⟩)
  · exact absurd hkept (by decide +kernel)
  · rw [taken_smooth_unlimited] at hsmoothed
    exact absurd hsmoothed (by decide +kernel)

end LowPass
