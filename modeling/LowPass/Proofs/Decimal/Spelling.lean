/-
A sample spelled with six decimals, and read from that spelling again.

The text of so many millionths is digits, a point and six digits
(`Fixed.Spelling`); reading takes it apart in the same way
(`Numeral.ofText?_spelling`), so what is read of a sample's text is its
millionths rounded to binary32 (`ofText?_fixed`). That is the sample itself from
16 on, and within a millionth of it below (`readsBack_reread`), and its text is the
same again (`fixed_reread`).
-/
import LowPass.Decimal.Numeral
import Mathlib.Data.List.TakeWhile
import LowPass.Proofs.Decimal.Millionths
import LowPass.Text.Words

namespace LowPass

/-! ## Digits with a point -/

/-- So many millionths as digits before and after the point. -/
structure Fixed.Spelling (count : Nat) (whole parts : List Char) : Prop where
  whole_ne_nil : whole ≠ []
  digits : ∀ c ∈ whole ++ parts, c.isDigit = true
  length_parts : parts.length = 6
  ofDigits : Numeral.ofDigits (whole ++ parts) = count

namespace Numeral

theorem ofDigits_eq (cs : List Char) : ofDigits cs = Nat.ofDigitChars 10 cs 0 := by
  unfold ofDigits Nat.ofDigitChars
  congr 1
  funext n c
  rw [Nat.mul_comm]
  rfl

theorem ofDigits_zeros_append (count : Nat) (cs : List Char) :
    ofDigits (List.replicate count '0' ++ cs) = ofDigits cs := by
  rw [ofDigits_eq, ofDigits_eq, Nat.ofDigitChars_append, Nat.ofDigitChars_replicate_zero,
    Nat.mul_zero]

theorem ofDigits_toDigits (n : Nat) : ofDigits (Nat.toDigits 10 n) = n := by
  rw [ofDigits_eq, Nat.ofDigitChars_ten_toDigits]

end Numeral

namespace Fixed

open Numeral

theorem isDigit_of_mem_toDigits {n : Nat} {c : Char} (h : c ∈ Nat.toDigits 10 n) :
    c.isDigit = true := Nat.isDigit_of_mem_toDigits (by decide) (by decide) h

/-- Fewer than seven digits stand behind the point, with zeros before them. -/
theorem Spelling.of_short {n : Nat} (h : (Nat.toDigits 10 n).length ≤ 6) :
    Spelling n ['0'] (List.replicate (6 - (Nat.toDigits 10 n).length) '0' ++ Nat.toDigits 10 n) where
  whole_ne_nil := by simp
  digits := by
    intro c hc
    simp only [List.mem_append, List.mem_singleton, List.mem_replicate] at hc
    rcases hc with rfl | ⟨-, rfl⟩ | hc
    · rfl
    · rfl
    · exact isDigit_of_mem_toDigits hc
  length_parts := by
    rw [List.length_append, List.length_replicate]
    omega
  ofDigits := by
    rw [← List.append_assoc, ← List.replicate_one, List.replicate_append_replicate,
      ofDigits_zeros_append, ofDigits_toDigits]

/-- Of more digits the last six do. -/
theorem Spelling.of_long {n : Nat} (h : 6 < (Nat.toDigits 10 n).length) :
    Spelling n ((Nat.toDigits 10 n).take ((Nat.toDigits 10 n).length - 6))
      ((Nat.toDigits 10 n).drop ((Nat.toDigits 10 n).length - 6)) where
  whole_ne_nil := by
    intro hnil
    have := congrArg List.length hnil
    rw [List.length_take, List.length_nil] at this
    omega
  digits := by
    intro c hc
    rw [List.take_append_drop] at hc
    exact isDigit_of_mem_toDigits hc
  length_parts := by
    rw [List.length_drop]
    omega
  ofDigits := by rw [List.take_append_drop, ofDigits_toDigits]

theorem flatten_pieces (count : Nat) :
    ∃ whole parts, Spelling count whole parts ∧
      (pieces count).flatten = whole ++ '.' :: parts := by
  unfold pieces places
  dsimp only
  split
  · rename_i hzero
    subst hzero
    exact ⟨_, _, Spelling.of_short (by decide), by decide⟩
  · split
    · rename_i hshort
      exact ⟨_, _, Spelling.of_short (Nat.le_of_lt hshort), by simp⟩
    · split
      · rename_i hsix
        exact ⟨_, _, Spelling.of_short (Nat.le_of_eq hsix), by simp [hsix]⟩
      · exact ⟨_, _, Spelling.of_long (by omega), by simp⟩

end Fixed

/-! ## Read again -/

namespace Numeral

section
variable {count : Nat} {whole parts : List Char} (h : Fixed.Spelling count whole parts)
  (negative : Bool)
include h

theorem decimal?_spelling :
    decimal? negative (whole ++ '.' :: parts) = some (.decimal negative count (-6)) := by
  have hwhole : ∀ c ∈ whole, c.isDigit = true := fun c hc => h.digits c (by simp [hc])
  have hparts : ∀ c ∈ parts, c.isDigit = true := fun c hc => h.digits c (by simp [hc])
  have hpoint : Char.isDigit '.' = false := by decide
  unfold decimal?
  simp only [List.takeWhile_append_of_pos hwhole, List.dropWhile_append_of_pos hwhole,
    List.takeWhile_cons, List.dropWhile_cons, hpoint, Bool.false_eq_true, if_false,
    List.append_nil, fraction, List.takeWhile_eq_self_iff.2 hparts,
    List.dropWhile_eq_nil_iff.2 hparts, h.whole_ne_nil, false_and, exponent?, Option.map_some,
    h.ofDigits, h.length_parts]
  rfl

theorem sign_spelling : sign (whole ++ '.' :: parts) = (false, whole ++ '.' :: parts) := by
  obtain ⟨c, cs, rfl⟩ := List.exists_cons_of_ne_nil h.whole_ne_nil
  have hc := h.digits c (by simp)
  rw [List.cons_append, sign]
  · intro more heq
    cases heq
    cases hc
  · intro more heq
    cases heq
    cases hc

theorem ofText?_spelling :
    ofText? ((if negative then ['-'] else []) ++ (whole ++ '.' :: parts)) =
      some (.decimal negative count (-6)) := by
  unfold ofText?
  cases negative with
  | false =>
    simp only [Bool.false_eq_true, if_false, List.nil_append, sign_spelling h, decimal?_spelling h]
    rfl
  | true =>
    simp only [if_true, List.cons_append, List.nil_append, sign, decimal?_spelling h]
    rfl

end

end Numeral

namespace Binary32

/-- What a sample becomes when its text is read. -/
def reread : Binary32 → Binary32
  | .finite negative mag fits =>
    .finite negative (Fixed.ofMillionths (Fixed.millionths mag))
      (Fixed.representable_ofMillionths fits)
  | x => x

theorem value_millionths (negative : Bool) {mag : Nat} (fits : Representable mag) :
    (Numeral.decimal negative (Fixed.millionths mag) (-6)).value =
      (finite negative mag fits).reread := by
  have hlt := Fixed.ofMillionths_lt fits
  have hscale : Nat.pow 10 (-(-6 : Int)).toNat = 1000000 := by decide
  rw [Numeral.value, if_neg (by decide), hscale, Nat.shiftLeft_eq, ofRatio]
  exact dif_pos hlt

theorem fixed_finite (negative : Bool) {mag : Nat} (fits : Representable mag) :
    (finite negative mag fits).fixed =
      (if negative then ['-'] else []) ++ (Fixed.pieces (Fixed.millionths mag)).flatten := by
  rw [fixed, fixedPieces, List.flatten_append]
  congr 1
  cases negative <;> rfl

/-- **The text of a sample is read** as its millionths, rounded. -/
theorem ofText?_fixed (x : Binary32) : Binary32.ofText? x.fixed = some x.reread := by
  cases x with
  | nan => decide
  | infinite negative => cases negative <;> decide
  | finite negative mag fits =>
    obtain ⟨whole, parts, hspelling, hflatten⟩ := Fixed.flatten_pieces (Fixed.millionths mag)
    rw [fixed_finite, hflatten, Binary32.ofText?, Numeral.ofText?_spelling hspelling,
      Option.map_some, value_millionths]

theorem isBlank_fixed {x : Binary32} {c : Char} (hc : c ∈ x.fixed) : isBlank c = false := by
  have hall : ∀ cs : List Char, cs.all (!isBlank ·) = true → c ∈ cs → isBlank c = false := by
    intro cs h hc
    simpa using List.all_eq_true.1 h c hc
  cases x with
  | nan => exact hall _ (by decide) hc
  | infinite negative => cases negative <;> exact hall _ (by decide) hc
  | finite negative mag fits =>
    obtain ⟨whole, parts, hspelling, hflatten⟩ := Fixed.flatten_pieces (Fixed.millionths mag)
    rw [fixed_finite, hflatten, List.mem_append, List.mem_append, List.mem_cons] at hc
    rcases hc with hc | hc | rfl | hc
    · cases negative <;> exact hall _ (by decide) hc
    · exact isBlank_of_isDigit (hspelling.digits c (List.mem_append_left _ hc))
    · decide
    · exact isBlank_of_isDigit (hspelling.digits c (List.mem_append_right _ hc))

theorem fixed_ne_nil (x : Binary32) : x.fixed ≠ [] := by
  intro hnil
  have h := ofText?_fixed x
  rw [hnil] at h
  cases h

theorem words_fixed (x : Binary32) : words (x.fixed ++ ['\n']) = [x.fixed] :=
  words_append_newline x.fixed_ne_nil fun _ => isBlank_fixed

/-! ## What comes back -/

/-- **Reading and writing a text gives it again.** -/
theorem fixed_reread (x : Binary32) : x.reread.fixed = x.fixed := by
  cases x with
  | nan => rfl
  | infinite negative => rfl
  | finite negative mag fits =>
    rw [reread, fixed_finite, fixed_finite, Fixed.millionths_reread fits]

/-- What reading gives back of a sample: the same NaN, the same infinity, the
same number if its size is 16 or more, and else one of the same sign within a
millionth. -/
def ReadsBack : Binary32 → Binary32 → Prop
  | .nan, y => y = .nan
  | .infinite negative, y => y = .infinite negative
  | x@(.finite negative ..), y =>
    (16 ≤ |x.value| → y = x) ∧ (∃ mag fits, y = .finite negative mag fits) ∧
      |y.value - x.value| ≤ 1 / 10 ^ 6

theorem abs_scaled_finite (negative : Bool) {mag : Nat} (fits : Representable mag) :
    |(finite negative mag fits).scaled| = mag := by
  cases negative <;> simp [scaled]

theorem abs_scaled_sub_finite (negative : Bool) {mag₁ mag₂ : Nat} (fits₁ : Representable mag₁)
    (fits₂ : Representable mag₂) :
    |(finite negative mag₁ fits₁).scaled - (finite negative mag₂ fits₂).scaled| =
      |(mag₁ : Int) - mag₂| := by
  cases negative with
  | false => rfl
  | true => rw [scaled, scaled, if_pos rfl, if_pos rfl, neg_sub_neg, abs_sub_comm]

theorem readsBack_reread (x : Binary32) : x.ReadsBack x.reread := by
  cases x with
  | nan => rfl
  | infinite negative => rfl
  | finite negative mag fits =>
    refine ⟨fun hlarge => ?_, ⟨_, _, rfl⟩, ?_⟩
    · have hmag : 2 ^ 153 ≤ mag := by
        rw [abs_value, le_div_iff₀ (by norm_num), ← Int.cast_abs, abs_scaled_finite] at hlarge
        norm_num at hlarge ⊢
        exact_mod_cast hlarge
      simp only [reread, Fixed.ofMillionths_millionths fits hmag]
    · have hnear := Fixed.ofMillionths_near fits
      rw [← abs_scaled_sub_finite negative (Fixed.representable_ofMillionths fits) fits] at hnear
      rw [reread, abs_value_sub, div_le_iff₀ (by norm_num), one_div_mul_eq_div,
        le_div_iff₀' (by norm_num)]
      exact_mod_cast hnear

end Binary32
end LowPass
