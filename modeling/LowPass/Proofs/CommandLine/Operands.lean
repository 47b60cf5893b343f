/-
What the program takes for its operands, and what it makes of anything else.

Which arguments are usable is said of their bytes (`Usable`), and it is what the program
tests (`accepts_iff`). Two usable arguments after the program's name are its operands, byte
for byte; all other arguments are answered by the usage line, and neither the log nor a
file is touched (`operands_taken`).
-/
import LowPass.CommandLine.Invocation
import LowPass.Text.Utf8.RoundTrip
import Mathlib.Data.List.TakeWhile

namespace LowPass
namespace Operands

/-! ## Usable arguments -/

/-- What stands before the first equals sign of an argument: all of it if it has none. -/
def Before (arg name : Bytes) : Prop :=
  0x3D ∉ name ∧ (arg = name ∨ ∃ value, arg = name ++ 0x3D :: value)

/-- An argument that can stand for itself. -/
structure Usable (arg : Bytes) : Prop where
  ne_nil : arg ≠ []
  ne_mark : arg ≠ .ofText "--"
  /-- What looks like an option has a name that is text. -/
  text_of_mark : Bytes.ofText "--" <+: arg → ∃ name : String, Before arg (.ofText name)

theorem before_iff {arg name : Bytes} :
    Before arg name ↔ arg.takeWhile (· ≠ 0x3D) = name := by
  constructor
  · rintro ⟨hname, harg⟩
    have hall : ∀ b ∈ name, decide (b ≠ 0x3D) = true := by
      intro b hb
      exact decide_eq_true fun h => hname (h ▸ hb)
    rcases harg with rfl | ⟨value, rfl⟩
    · exact List.takeWhile_eq_self_iff.2 hall
    · rw [List.takeWhile_append_of_pos hall]
      simp
  · rintro rfl
    refine ⟨fun h => ?_, ?_⟩
    · simpa using List.mem_takeWhile_imp h
    · have hsplit := List.takeWhile_append_dropWhile (p := fun b => decide (b ≠ 0x3D)) (l := arg)
      cases hrest : arg.dropWhile (· ≠ 0x3D) with
      | nil =>
        left
        rw [hrest, List.append_nil] at hsplit
        exact hsplit.symm
      | cons b value =>
        right
        have hstop := List.head?_dropWhile_not (fun b => decide (b ≠ 0x3D)) arg
        rw [hrest] at hstop
        have hb : b = 0x3D := by simpa using hstop
        rw [hrest, hb] at hsplit
        exact ⟨value, hsplit.symm⟩

theorem isSome_decode?_iff {bs : Bytes} :
    (Utf8.decode? bs).isSome = true ↔ ∃ s : String, bs = .ofText s := by
  have htext : (Utf8.decode? bs).isSome = bs.text?.isSome := Option.isSome_map.symm
  simp only [htext, Option.isSome_iff_exists, Bytes.text?_eq_some_iff]

/-- The arguments that the program accepts are the usable ones. -/
theorem accepts_iff {arg : Bytes} : accepts arg = true ↔ Usable arg := by
  have hmark : mark = Bytes.ofText "--" := by decide
  have hname : (Utf8.decode? (arg.takeWhile (· ≠ 0x3D))).isSome = true ↔
      ∃ name : String, Before arg (.ofText name) := by
    simp only [isSome_decode?_iff, before_iff]
  rw [accepts, hmark, Bool.and_eq_true, Bool.and_eq_true, Bool.or_eq_true, hname,
    Bool.not_eq_true', decide_eq_true_iff, decide_eq_true_iff, ← Bool.not_eq_true,
    List.isPrefixOf_iff_prefix]
  constructor
  · rintro ⟨⟨hnil, hne⟩, htext⟩
    exact ⟨hnil, hne, fun h => htext.resolve_left (not_not_intro h)⟩
  · rintro ⟨hnil, hne, htext⟩
    exact ⟨⟨hnil, hne⟩, Decidable.not_or_of_imp htext⟩

instance (arg : Bytes) : Decidable (Usable arg) := decidable_of_iff _ accepts_iff

/-! ## Two operands -/

/-- The operands that arguments give: what follows the program's name, if it is two usable
arguments. -/
def Given (args : List Bytes) (input output : Bytes) : Prop :=
  ∃ program, args = [program, input, output] ∧ Usable input ∧ Usable output

theorem ofArguments_eq_ok_iff {args : List Bytes} {input output : Bytes} :
    ofArguments args = .ok ⟨input, output⟩ ↔ Given args input output := by
  unfold ofArguments Given
  split
  · rename_i program first second
    simp only [← accepts_iff, List.cons.injEq, and_true]
    constructor
    · intro h
      split at h
      · rename_i hboth
        cases h
        exact ⟨program, ⟨rfl, rfl, rfl⟩, Bool.and_eq_true_iff.1 hboth⟩
      · cases h
    · rintro ⟨-, ⟨-, rfl, rfl⟩, hfirst, hsecond⟩
      rw [hfirst, hsecond]
      rfl
  · rename_i hcount
    constructor
    · intro h
      cases h
    · rintro ⟨program, rfl, -⟩
      exact absurd rfl (hcount program input output)

theorem ofArguments_error {args : List Bytes} {failure : Failure}
    (h : ofArguments args = .error failure) : failure = .usage (calledAs args) := by
  unfold ofArguments at h
  split at h
  · split at h
    · cases h
    · cases h; rfl
  · cases h; rfl

theorem usageLine (name : String) :
    (Failure.usage name).message ++ "\n" = "Usage: " ++ name ++ " input output\n" := by
  have hmessage : (Failure.usage name).message = "Usage: " ++ name ++ " input output" := rfl
  rw [hmessage, String.append_assoc]
  rfl

/-- **The operands are taken as they are.** There are operands when two usable arguments
follow the program's name, and these are the operands that it runs with. Otherwise the
usage line names the program as it was called, or by its own name if there are no arguments
at all; it is printed, the status is 255, and the log and the files stay as they are. -/
theorem operands_taken (args : List Bytes) :
    let name := match args with
      | [] => "rc-filter"
      | program :: _ => program.lossyText
    (∀ input output, ofArguments args = .ok ⟨input, output⟩ ↔ Given args input output) ∧
      (∀ input output, Given args input output → ∀ vars terminal cwd,
        Invocation.run (FileTree.host cwd) ⟨args, vars, terminal⟩ =
          runFiles (FileTree.host cwd) (vars.colours terminal) vars.logLevel input output) ∧
      (∀ s : String, args.head? = some (.ofText s) → name = s) ∧
      ((¬ ∃ input output, Given args input output) →
        ofArguments args = .error (.usage name) ∧
          ∀ vars terminal cwd t,
            Invocation.run (FileTree.host cwd) ⟨args, vars, terminal⟩ t =
              (⟨255, "Usage: " ++ name ++ " input output\n", []⟩, t)) := by
  intro name
  have hname : calledAs args = name := by cases args <;> rfl
  refine ⟨fun input output => ofArguments_eq_ok_iff, ?_, ?_, fun hnone => ?_⟩
  · intro input output hgiven vars terminal cwd
    rw [Invocation.run, ofArguments_eq_ok_iff.2 hgiven]
  · intro s hs
    cases args with
    | nil => cases hs
    | cons program rest =>
      cases hs
      exact Bytes.lossyText_ofText s
  · cases hargs : ofArguments args with
    | ok operands => exact absurd ⟨_, _, ofArguments_eq_ok_iff.1 hargs⟩ hnone
    | error failure =>
      obtain rfl := ofArguments_error hargs
      rw [hname]
      refine ⟨rfl, fun vars terminal cwd t => ?_⟩
      rw [Invocation.run, hargs, hname, ← usageLine]
      rfl

/-- Operands that look like options, one of them no text, and an option whose name is none. -/
theorem operands_taken_lookalikes :
    let program := Bytes.ofText "rc-filter"
    let value := Bytes.ofText "--a=" ++ [0xFF]
    let refused : List Bytes := [[0xFF, 0x72, 0x63], Bytes.ofText "in", Bytes.ofText "--" ++ [0xFF]]
    let told := Invocation.run (FileTree.host []) ⟨refused, {}, false⟩ ⟨[]⟩
    ofArguments [program, .ofText "--help", value] = .ok ⟨.ofText "--help", value⟩ ∧
      Invocation.run (FileTree.host []) ⟨[program, .ofText "--help", value], {}, false⟩ =
        runFiles (FileTree.host []) false .info (.ofText "--help") value ∧
      calledAs [program] = "rc-filter" ∧
      ofArguments refused = .error (.usage "\uFFFDrc") ∧
      told.1 = ⟨255, "Usage: \uFFFDrc input output\n", []⟩ ∧ told.2 = ⟨[]⟩ := by
  intro program value refused told
  have hgiven : Given [program, .ofText "--help", value] (.ofText "--help") value :=
    ⟨program, rfl, by decide +kernel, by decide +kernel⟩
  have hrefused : ¬ ∃ input output, Given refused input output := by
    have hlast : ¬ Usable (Bytes.ofText "--" ++ [0xFF]) := by decide +kernel
    rintro ⟨input, output, name, hargs, -, houtput⟩
    simp only [refused, List.cons.injEq] at hargs
    obtain ⟨-, -, rfl, -⟩ := hargs
    exact hlast houtput
  obtain ⟨htaken, hrun, hcalled, -⟩ := operands_taken [program, .ofText "--help", value]
  obtain ⟨husage, hprinted⟩ := (operands_taken refused).2.2.2 hrefused
  have htold : told = _ := hprinted {} false [] ⟨[]⟩
  refine ⟨(htaken _ _).2 hgiven, hrun _ _ hgiven {} false [], hcalled _ rfl, ?_, ?_, ?_⟩
  · rw [husage]
    decide +kernel
  · rw [htold]
    decide +kernel
  · rw [htold]

end Operands
end LowPass
