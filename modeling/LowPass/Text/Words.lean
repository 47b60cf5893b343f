/-
Words: what stands between blanks. Blank are the characters with the Unicode
property White_Space, so a tab, a line end, a no-break space and an ideographic
space all separate; a zero-width space does not.
-/
import LowPass.Segments
import LowPass.Text.Ranges

namespace LowPass

/-- The characters with the property White_Space. -/
def whiteSpace : Ranges :=
  [(0x09, 0x0D), (0x20, 0x20), (0x85, 0x85), (0xA0, 0xA0), (0x1680, 0x1680), (0x2000, 0x200A),
    (0x2028, 0x2029), (0x202F, 0x202F), (0x205F, 0x205F), (0x3000, 0x3000)]

def isBlank (c : Char) : Bool := whiteSpace.has c

/-- The words of a text, in order. -/
def words (cs : List Char) : List (List Char) := segments isBlank cs

/-- A text without the blanks around it. -/
def trim (cs : List Char) : List Char :=
  ((cs.dropWhile isBlank).reverse.dropWhile isBlank).reverse

theorem isBlank_of_isDigit {c : Char} (h : c.isDigit = true) : isBlank c = false := by
  have hrange : 48 ≤ c.toNat ∧ c.toNat ≤ 57 := by
    simpa [Char.isDigit, UInt32.le_iff_toNat_le] using h
  exact Ranges.has_of_apart (by decide) hrange.1 hrange.2

/-- A line of characters that are no blanks is one word. -/
theorem words_append_newline {cs : List Char} (hne : cs ≠ []) (h : ∀ c ∈ cs, isBlank c = false) :
    words (cs ++ ['\n']) = [cs] := by
  induction cs with
  | nil => exact absurd rfl hne
  | cons c cs ih =>
    have hc := h c List.mem_cons_self
    have hcs := fun d hd => h d (List.mem_cons_of_mem c hd)
    cases cs with
    | nil =>
      have hnewline : isBlank '\n' = true := by decide
      simp [words, segments, hc, hnewline]
    | cons d cs =>
      have hd := hcs d List.mem_cons_self
      have ih : segments isBlank (d :: (cs ++ ['\n'])) = [d :: cs] := ih (by simp) hcs
      rw [words, List.cons_append, List.cons_append, segments]
      simp only [hc, hd, Bool.false_eq_true, if_false, ih]
      rfl

end LowPass
