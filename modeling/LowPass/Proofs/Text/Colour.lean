/-
What yellow adds to a text. A text is cut at its resets into parts without one;
yellow is turned on in front of each part and off after the last, and nothing of the
text is changed (`yellowed_inYellow`).
-/
import LowPass.Text.Colour
import Mathlib.Data.List.Infix

namespace LowPass
namespace Colour

/-- A text in yellow, beside the text: its escape is in front and after every reset of
the text, and there is one more reset at the end. -/
def Yellowed (plain coloured : String) : Prop :=
  ∃ parts : List (List Char),
    (∀ part ∈ parts, ¬ ['\x1b', '[', '0', 'm'] <:+: part) ∧
      plain.toList = ['\x1b', '[', '0', 'm'].intercalate parts ∧
      coloured.toList = ['\x1b', '[', '3', '3', 'm'] ++
        ['\x1b', '[', '0', 'm', '\x1b', '[', '3', '3', 'm'].intercalate parts ++
          ['\x1b', '[', '0', 'm']

theorem intercalate_cons (separator first : List Char) (more : List (List Char)) :
    separator.intercalate (first :: more) =
      first ++ separator.intercalate ([] :: more) := by
  cases more <;> simp

/-- A style is put between the parts that the resets cut a text into. -/
theorem exists_parts_restyle (style cs : List Char) :
    ∃ first more, (∀ part ∈ first :: more, ¬ reset <:+: part) ∧
      cs = reset.intercalate (first :: more) ∧
      restyle style cs = (reset ++ style).intercalate (first :: more) := by
  fun_induction restyle style cs with
  | case1 => exact ⟨[], [], by simp [reset], rfl, rfl⟩
  | case2 c cs h ih =>
    obtain ⟨rest, hrest⟩ := List.isPrefixOf_iff_prefix.1 h
    have hdrop : cs.drop 3 = rest := by
      have htail := congrArg (List.drop 4) hrest
      rw [List.drop_succ_cons] at htail
      exact htail.symm
    obtain ⟨first, more, hparts, hcs, hstyled⟩ := ih
    refine ⟨[], first :: more, ?_, ?_, ?_⟩
    · intro part hpart
      rcases List.mem_cons.1 hpart with rfl | hpart
      · simp [reset]
      · exact hparts part hpart
    · rw [List.intercalate_cons_cons, ← hcs, hdrop, List.nil_append, hrest]
    · rw [List.intercalate_cons_cons, ← hstyled, List.nil_append]
  | case3 c cs h ih =>
    obtain ⟨first, more, hparts, hcs, hstyled⟩ := ih
    refine ⟨c :: first, more, ?_, ?_, ?_⟩
    · intro part hpart
      rcases List.mem_cons.1 hpart with rfl | hpart
      · intro hinfix
        rcases List.infix_cons_iff.1 hinfix with hprefix | hinfix
        · -- A reset at the front would be one of the whole text.
          have hfirst : first <+: cs := by
            rw [hcs, intercalate_cons]
            exact List.prefix_append first _
          have hall := hprefix.trans ((List.prefix_cons_inj c).2 hfirst)
          exact h (List.isPrefixOf_iff_prefix.2 hall)
        · exact hparts first List.mem_cons_self hinfix
      · exact hparts part (List.mem_cons_of_mem first hpart)
    · rw [intercalate_cons, List.cons_append, ← intercalate_cons, ← hcs]
    · rw [intercalate_cons, List.cons_append, ← intercalate_cons, ← hstyled]

theorem yellowed_inYellow (s : String) : Yellowed s (inYellow s) := by
  obtain ⟨first, more, hparts, hplain, hstyled⟩ := exists_parts_restyle yellow s.toList
  refine ⟨first :: more, hparts, hplain, ?_⟩
  rw [inYellow, String.toList_ofList, hstyled]
  rfl

example : inYellow "a\x1b[0mb" = "\x1b[33ma\x1b[0m\x1b[33mb\x1b[0m" := by decide +kernel

end Colour
end LowPass
