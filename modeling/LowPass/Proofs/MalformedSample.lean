/-
What is said of a word of the input that is no numeral.

The message gives the word in quotes and the number of its line. It settles both
(`malformedSample_inj`), and it stands on one line of visible characters
(`onOneLine_malformedSample`): no input can break the line that tells of a failure, or
reach the terminal with it (`malformedSample_faithful`).
-/
import LowPass.Proofs.Report
import LowPass.Proofs.Text.Quoted

namespace LowPass

open FileTree

/-! ## One line -/

/-- The characters that end a line, for one reader or another. -/
def lineEnds : List Char := ['\n', '\x0b', '\x0c', '\r', '\u0085', '\u2028', '\u2029']

/-- A text on one line, without anything that a terminal would take for a command: it has no
line end, and no character of the categories Cc, Cf, Zl and Zp. -/
def OnOneLine (s : String) : Prop :=
  ∀ c ∈ s.toList,
    c ∉ lineEnds ∧ controls.has c = false ∧ formats.has c = false ∧ breaks.has c = false

theorem isHidden_of_mem_lineEnds {c : Char} (h : c ∈ lineEnds) : isHidden c = true := by
  have hall : lineEnds.all isHidden = true := by decide +kernel
  exact List.all_eq_true.1 hall c h

theorem OnOneLine.of_visible {s : String} (h : ∀ c ∈ s.toList, isHidden c = false) :
    OnOneLine s := by
  intro c hc
  have hvisible := h c hc
  refine ⟨fun hend => ?_, ?_⟩
  · rw [isHidden_of_mem_lineEnds hend] at hvisible
    cases hvisible
  · simp only [isHidden, Bool.or_eq_false_iff] at hvisible
    tauto

/-! ## The message -/

theorem message_malformedSample (word : String) (line : Nat) :
    Failure.message (.malformedSample word line) =
      "Malformed sample " ++ quoted word ++ " on line " ++ toString line := rfl

theorem malformedSample_inj {word word' : String} {line line' : Nat}
    (h : Failure.message (.malformedSample word line) =
      Failure.message (.malformedSample word' line')) : word = word' ∧ line = line' := by
  simp only [message_malformedSample, String.append_assoc] at h
  obtain ⟨hword, hrest⟩ := quoted_append_inj ((String.append_right_inj _).1 h)
  refine ⟨hword, ?_⟩
  have hline : toString line = toString line' := (String.append_right_inj _).1 hrest
  have hdigits := congrArg String.toList hline
  simp only [Nat.toString_eq_ofList_toDigits, String.toList_ofList] at hdigits
  calc
    line = Numeral.ofDigits (Nat.toDigits 10 line) := (Numeral.ofDigits_toDigits line).symm
    _ = Numeral.ofDigits (Nat.toDigits 10 line') := by rw [hdigits]
    _ = line' := Numeral.ofDigits_toDigits line'

theorem isHidden_of_mem_malformedSample {word : String} {line : Nat} {c : Char}
    (h : c ∈ (Failure.message (.malformedSample word line)).toList) : isHidden c = false := by
  rw [message_malformedSample, Nat.toString_eq_ofList_toDigits] at h
  simp only [String.toList_append, List.mem_append, String.toList_ofList] at h
  rcases h with ((h | h) | h) | h
  · exact isHidden_of_mem_plain (by decide) h
  · exact isHidden_of_mem_quoted h
  · exact isHidden_of_mem_plain (by decide) h
  · exact isHidden_of_mem_toDigits (by decide) (by decide) h

theorem onOneLine_malformedSample (word : String) (line : Nat) :
    OnOneLine (Failure.message (.malformedSample word line)) :=
  .of_visible fun _ => isHidden_of_mem_malformedSample

/-- **The message of a malformed sample is faithful.** No two words, and no two lines, have
one message; each message is one line of visible characters; and a run that ends with a
malformed sample prints its message and nothing else, whatever the files hold. -/
theorem malformedSample_faithful :
    (∀ (word word' : String) (line line' : Nat),
        Failure.message (.malformedSample word line) =
          Failure.message (.malformedSample word' line') →
        word = word' ∧ line = line') ∧
      (∀ (word : String) (line : Nat), OnOneLine (Failure.message (.malformedSample word line))) ∧
      ∀ (t : FileTree) (cwd : Place) (input output : Bytes) (threshold : Level) (word : String)
        (line : Nat),
        (smoothFile (FileTree.host cwd) input output t).1.1 =
          .error (.malformedSample word line) →
        (runFiles (FileTree.host cwd) false threshold input output t).1.printed =
          Failure.message (.malformedSample word line) ++ "\n" := by
  refine ⟨fun word word' line line' => malformedSample_inj, onOneLine_malformedSample, ?_⟩
  intro t cwd input output threshold word line hfailed
  rw [runFiles_eq]
  dsimp only
  rw [hfailed]
  rfl

/-- A word that would clear the screen and turn the writing round, and one that looks like the
end of a message. -/
theorem malformedSample_faithful_hostile :
    let word := "x\"\x1b[2J\u202e"
    let t : FileTree := ⟨[([.ofText "in"], .file (.ofText ("1\n" ++ word ++ " 2\n")))]⟩
    let input := Bytes.ofText "in"
    let output := Bytes.ofText "out"
    (smoothFile (FileTree.host []) input output t).1.1 = .error (.malformedSample word 2) ∧
      (runFiles (FileTree.host []) false .info input output t).1.printed =
        "Malformed sample \"x\\\"\\u\x7b1b\x7d[2J\\u\x7b202e\x7d\" on line 2\n" ∧
      Failure.message (.malformedSample "x" 2) ≠
        Failure.message (.malformedSample "x\" on line 2" 2) := by
  intro word t input output
  have hopen : t.openInput [] input = .ok (some (.file [input])) := by decide +kernel
  have hmakes : t.Makes [] output [output] := .inr (by decide +kernel)
  have hfailed : (smoothFile (FileTree.host []) input output t).1.1 =
      .error (.malformedSample word 2) := by
    rw [(smoothFile_of_makes hopen hmakes).1, smooth_unlimited]
    decide +kernel
  refine ⟨hfailed, ?_, fun h => ?_⟩
  · rw [malformedSample_faithful.2.2 t [] input output .info word 2 hfailed]
    decide +kernel
  · exact absurd (malformedSample_faithful.1 _ _ _ _ h).1 (by decide)

end LowPass
