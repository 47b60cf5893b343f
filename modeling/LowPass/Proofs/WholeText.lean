/-
The words of a whole text, and those that are read of it line by line.

A line is cut after a newline, which is a blank, so cutting a text into lines cuts no
word and joins none: the words of the lines are those of the text (`map_fst_wordsAt`),
each with the number of the line on which it stands (`numbered_eq_placed`). Of a
content that is no UTF-8 this holds of the lines before the one in which it first
fails to be (`readable_of_ill_formed`).

`calls_text` puts this together: what is read does not depend on lines, but for their
numbers.
-/
import LowPass.Binary32.Bits
import LowPass.Proofs.Smoothing
import LowPass.Proofs.Text.Newline

namespace LowPass

open Arrival Utf8

/-- The words of a text that starts at a place, each with the place of its first
character. -/
def wordsAt (start : Nat) (cs : List Char) : List (List Char × Nat) :=
  (segments (fun c => isBlank c.1) (cs.zipIdx start)).map fun seg =>
    (seg.map Prod.fst, (seg.head?.map Prod.snd).getD 0)

/-- The words of a text, each with the number of its line: one more than there are
newlines before its first byte. -/
def placed (cs : List Char) : List (List Char × Nat) :=
  (wordsAt 0 cs).map fun (word, i) => (word, 1 + (encode (cs.take i)).count newline)

theorem map_fst_wordsAt (start : Nat) (cs : List Char) :
    (wordsAt start cs).map Prod.fst = words cs := by
  have h := @segments_map _ isBlank _ Prod.fst (cs.zipIdx start)
  rw [List.zipIdx_map_fst] at h
  rw [words, h, wordsAt, List.map_map]
  rfl

theorem eq_of_mem_wordsAt {start i : Nat} {cs word : List Char} (h : (word, i) ∈ wordsAt start cs) :
    ∃ before after, cs = before ++ word ++ after ∧ word ≠ [] ∧ i = start + before.length := by
  obtain ⟨seg, hseg, heq⟩ := List.mem_map.1 h
  obtain ⟨hne, -⟩ := mem_segments hseg
  obtain ⟨before, after, hinfix⟩ := infix_of_mem_segments hseg
  obtain ⟨rfl, hi⟩ := Prod.mk.inj heq
  have hcs : cs = before.map Prod.fst ++ seg.map Prod.fst ++ after.map Prod.fst := by
    rw [← List.map_append, ← List.map_append, hinfix, List.zipIdx_map_fst]
  refine ⟨before.map Prod.fst, after.map Prod.fst, hcs, by simpa using hne, ?_⟩
  cases seg with
  | nil => exact absurd rfl hne
  | cons c seg =>
    have hget : (cs.zipIdx start)[before.length]? = some c := by
      rw [← hinfix]
      simp
    rw [List.getElem?_zipIdx, Option.map_eq_some_iff] at hget
    obtain ⟨d, -, rfl⟩ := hget
    simpa using hi.symm

theorem wordsAt_append_line (start : Nat) (u cs : List Char) :
    wordsAt start (u ++ '\n' :: cs) = wordsAt start u ++ wordsAt (start + (u.length + 1)) cs := by
  unfold wordsAt
  rw [List.zipIdx_append, List.zipIdx_cons, segments_append_cons (by rfl), List.map_append,
    Nat.add_assoc]

/-! ## Line by line -/

/-- Induction on a text, line by line. -/
@[elab_as_elim]
theorem text_induction {P : List Char → Prop} (last : ∀ u, '\n' ∉ u → P u)
    (line : ∀ u cs, '\n' ∉ u → P cs → P (u ++ '\n' :: cs)) (cs : List Char) : P cs := by
  induction hlength : cs.length using Nat.strong_induction_on generalizing cs with
  | h n ih =>
    by_cases hmem : '\n' ∈ cs
    · obtain ⟨u, rest, rfl, hu⟩ := List.eq_append_cons_of_mem hmem
      refine line u rest hu (ih rest.length ?_ rest rfl)
      simp only [← hlength, List.length_append, List.length_cons]
      omega
    · exact last cs hmem

theorem lines_encode_line {u : List Char} (hu : '\n' ∉ u) (cs : List Char) :
    lines (encode (u ++ '\n' :: cs)) = encode (u ++ ['\n']) :: lines (encode cs) := by
  rw [encode_append, encode_newline, lines_append_newline (newline_not_mem_encode hu), encode_append]
  rfl

theorem readable_encode_line {u : List Char} (hu : '\n' ∉ u) (cs : List Char) :
    readable (lines (encode (u ++ '\n' :: cs))) = (u ++ ['\n']) :: readable (lines (encode cs)) := by
  rw [lines_encode_line hu, readable, decode?_encode]

theorem lines_encode_last {u : List Char} (hu : '\n' ∉ u) (hne : u ≠ []) :
    lines (encode u) = [encode u] := by
  have hbytes : encode u ≠ [] := by
    intro h
    have hdecode := decode?_encode u
    rw [h, decode?] at hdecode
    exact hne (Option.some.inj hdecode).symm
  have h := lines_open_append (newline_not_mem_encode hu) hbytes []
  rwa [List.append_nil] at h

theorem length_readable_encode (cs : List Char) :
    (readable (lines (encode cs))).length = (lines (encode cs)).length := by
  induction cs using text_induction with
  | last u hu =>
    rcases eq_or_ne u [] with rfl | hne
    · rfl
    · simp [lines_encode_last hu hne, readable, decode?_encode]
  | line u cs hu ih =>
    rw [readable_encode_line hu, lines_encode_line hu, List.length_cons, List.length_cons, ih]

theorem words_append_line (u cs : List Char) : words (u ++ '\n' :: cs) = words u ++ words cs :=
  segments_append_cons (by decide) u cs

/-- Before a word of a part without a newline there are the newlines before that part. -/
theorem count_newline_take {before u word : List Char} {i : Nat} (hu : '\n' ∉ u)
    (h : (word, i) ∈ wordsAt before.length u) (after : List Char) :
    (encode ((before ++ (u ++ after)).take i)).count newline = before.count '\n' := by
  obtain ⟨front, back, rfl, -, rfl⟩ := eq_of_mem_wordsAt h
  have hfront : '\n' ∉ front := fun hmem => hu (by simp [hmem])
  have htake : (before ++ (front ++ word ++ back ++ after)).take (before.length + front.length) =
      before ++ front := by
    rw [← List.length_append, List.append_assoc, List.append_assoc, ← List.append_assoc before,
      List.take_left]
  rw [htake, count_newline_encode, List.count_append, List.count_eq_zero.2 hfront, Nat.add_zero]

theorem placed_part {before u : List Char} (hu : '\n' ∉ u) (after : List Char) :
    ((wordsAt before.length u).map fun (word, i) =>
        (word, 1 + (encode ((before ++ (u ++ after)).take i)).count newline)) =
      (words u).map (·, before.count '\n' + 1) := by
  rw [← map_fst_wordsAt before.length u, List.map_map]
  refine List.map_congr_left fun ⟨word, i⟩ hw => ?_
  show (word, _) = (word, _)
  rw [count_newline_take hu hw after, Nat.add_comm]

theorem numbered_eq (before cs : List Char) :
    numbered (before.count '\n') (readable (lines (encode cs))) =
      (wordsAt before.length cs).map fun (word, i) =>
        (word, 1 + (encode ((before ++ cs).take i)).count newline) := by
  induction cs using text_induction generalizing before with
  | last u hu =>
    have hpart := @placed_part before u hu []
    rw [List.append_nil] at hpart
    rw [hpart]
    rcases eq_or_ne u [] with rfl | hne
    · rfl
    · simp [lines_encode_last hu hne, readable, decode?_encode, numbered]
  | line u cs hu ih =>
    have ih := ih (before ++ (u ++ ['\n']))
    have hcount : (before ++ (u ++ ['\n'])).count '\n' = before.count '\n' + 1 := by
      simp [List.count_eq_zero.2 hu]
    have hlength : (before ++ (u ++ ['\n'])).length = before.length + (u.length + 1) := by simp
    have htext : before ++ (u ++ ['\n']) ++ cs = before ++ (u ++ '\n' :: cs) := by simp
    have hwords : words (u ++ ['\n']) = words u := by
      rw [words_append_line]
      exact List.append_nil _
    rw [hcount, hlength, htext] at ih
    rw [readable_encode_line hu, numbered, ih, wordsAt_append_line, List.map_append, placed_part hu,
      hwords]

/-- **The words of the lines are those of the text**, and they are on the same lines. -/
theorem numbered_eq_placed (cs : List Char) : numbered 0 (readable (lines (encode cs))) = placed cs :=
  numbered_eq [] cs

example : placed ['x', '\n', ' ', 'y'] = [(['x'], 1), (['y'], 2)] := by decide +kernel

/-! ## Up to the line that is no UTF-8 -/

theorem readable_append {ls : List Bytes} (h : (readable ls).length = ls.length) (ms : List Bytes) :
    readable (ls ++ ms) = readable ls ++ readable ms := by
  induction ls with
  | nil => rfl
  | cons l ls ih =>
    unfold readable at h
    rw [List.cons_append, readable, readable]
    cases hl : decode? l with
    | none => simp [hl] at h
    | some cs =>
      rw [hl] at h
      rw [List.cons_append, ih (by simpa using h)]

theorem exists_lines_eq_cons {bs : Bytes} (h : bs ≠ []) :
    ∃ l ls, lines bs = l :: ls ∧ l ≠ [] ∧ l <+: bs ∧ (l = bs ∨ l.getLast? = some newline) := by
  by_cases hmem : newline ∈ bs
  · obtain ⟨l, rest, rfl, hl⟩ := List.eq_append_cons_of_mem hmem
    exact ⟨l ++ [newline], lines rest, lines_append_newline hl rest, by simp, ⟨rest, by simp⟩,
      .inr (by simp)⟩
  · have hlines := lines_open_append hmem h []
    rw [List.append_nil] at hlines
    exact ⟨bs, [], hlines, h, List.prefix_rfl, .inl rfl⟩

/-- The lines before the first that is no UTF-8 are those before the line in which the
whole content fails to be. -/
theorem readable_of_ill_formed {bs : Bytes} (h : decode? bs = none) :
    let sound := finished (bs.take (validUpTo bs))
    ∃ cs, decode? sound = some cs ∧ readable (lines bs) = readable (lines sound) ∧
      (readable (lines sound)).length = (lines sound).length ∧
      (readable (lines bs)).length ≠ (lines bs).length := by
  intro sound
  have hbegins : sound <+: bs.take (validUpTo bs) := finished_prefix _
  have hsound : sound <+: bs := hbegins.trans (List.take_prefix _ _)
  have hends : sound = [] ∨ sound.getLast? = some newline := finished_ends _
  obtain ⟨cs, hcs⟩ : ∃ cs, decode? sound = some cs := Option.isSome_iff_exists.1
    (isSome_decode?_beginning hbegins hends (isSome_decode?_take_validUpTo bs))
  have hfull : (readable (lines sound)).length = (lines sound).length := by
    rw [eq_encode_of_decode? hcs]
    exact length_readable_encode cs
  obtain ⟨rest, hrest⟩ := hsound
  have hne : rest ≠ [] := by
    rintro rfl
    rw [List.append_nil] at hrest
    rw [← hrest, hcs] at h
    cases h
  obtain ⟨l, ls, hlines, hl, ⟨more, hmore⟩, hlast⟩ := exists_lines_eq_cons hne
  -- A text in the next line would be well formed past the place up to which the content is.
  have hdecode : decode? l = none := by
    rw [Option.eq_none_iff_forall_ne_some]
    intro ds hds
    have hlonger := decode?_append hcs hds
    rcases hlast with rfl | hlast
    · rw [hrest, h] at hlonger
      cases hlonger
    · have hprefix : sound ++ l <+: bs := ⟨more, by rw [List.append_assoc, hmore, hrest]⟩
      have hvalid := prefix_take_validUpTo hprefix (by rw [hlonger]; rfl)
      have hshort : (sound ++ l).length ≤ sound.length :=
        (prefix_finished hvalid (.inr (by simp [hlast]))).length_le
      have hlonger := List.length_pos_iff.2 hl
      rw [List.length_append] at hshort
      omega
  have hnone : readable (lines rest) = [] := by rw [hlines, readable, hdecode]
  have hsplit : lines bs = lines sound ++ lines rest := by rw [← hrest, lines_append hends]
  have hsame : readable (lines bs) = readable (lines sound) := by
    rw [hsplit, readable_append hfull, hnone, List.append_nil]
  refine ⟨cs, hcs, hsame, hfull, ?_⟩
  rw [hsame, hfull, hsplit, hlines, List.length_append, List.length_cons]
  omega

theorem Reading.ofLines_text (cs : List Char) :
    ofLines 0 [] (lines (encode cs)) none = ofWords none (lines (encode cs)).length (placed cs) := by
  rw [ofLines, if_pos (length_readable_encode cs), length_readable_encode, numbered_eq_placed,
    Nat.zero_add]
  rfl

theorem Reading.ofLines_ill_formed {bs : Bytes} (h : decode? bs = none) :
    let sound := finished (bs.take (validUpTo bs))
    ∃ cs, decode? sound = some cs ∧
      ofLines 0 [] (lines bs) none = ofWords (some .notText) (lines sound).length (placed cs) := by
  intro sound
  obtain ⟨cs, hcs, hsame, hfull, hcut⟩ := readable_of_ill_formed h
  refine ⟨cs, hcs, ?_⟩
  rw [ofLines, if_neg hcut, hsame, hfull, ← numbered_eq_placed, ← eq_encode_of_decode? hcs,
    Nat.zero_add]
  rfl

/-- **What is read of a content** is told by the words of its whole text: their samples
in order, up to the first word that is no numeral, each with the number of its line. If
the content is no UTF-8, so it is with the text before the line in which it first fails
to be, and that failure takes the place of the end. -/
theorem calls_text {as : List Arrival} (h : failure? as = none) :
    let source := content as
    let calls := ({ later := as } : Intake).calls
    (∀ cs, (wordsAt 0 cs).map Prod.fst = words cs ∧
        ∀ word i, (word, i) ∈ wordsAt 0 cs → word <+: cs.drop i) ∧
      match decode? source with
      | some cs =>
        let unended := if source = [] ∨ source.getLast? = some newline then 0 else 1
        ∀ count, calls count =
          (Reading.ofWords none (source.count newline + unended) (placed cs)).calls count
      | none =>
        let sound := finished (source.take (validUpTo source))
        let illFormed : IoError := .saying .invalidData "stream did not contain valid UTF-8"
        ∃ cs, decode? sound = some cs ∧ ∀ count, calls count =
          (Reading.ofWords (some illFormed) (lines sound).length (placed cs)).calls count := by
  intro source calls
  have hcalls : ∀ count, calls count = (Reading.ofLines 0 [] (lines source) none).calls count := by
    intro count
    rw [← Reading.ofArrivals_of_unfailing h, ← Intake.reading_fresh]
    exact Intake.calls_eq _ count
  constructor
  · intro cs
    refine ⟨map_fst_wordsAt 0 cs, fun word i hword => ?_⟩
    obtain ⟨before, after, rfl, -, rfl⟩ := eq_of_mem_wordsAt hword
    rw [Nat.zero_add, List.append_assoc, List.drop_left]
    exact List.prefix_append word after
  · cases hdecode : decode? source with
    | some cs =>
      intro count
      rw [hcalls, eq_encode_of_decode? hdecode, Reading.ofLines_text, ← eq_encode_of_decode? hdecode,
        length_lines]
    | none =>
      obtain ⟨cs, hcs, hreading⟩ := Reading.ofLines_ill_formed hdecode
      refine ⟨cs, hcs, fun count => ?_⟩
      rw [hcalls, hreading]
      rfl

/-- Two samples with a line separator between them, whose bytes arrive apart, a line
with nothing but a vertical tab, a third sample, and a line that is no UTF-8. -/
def brokenText : List Arrival :=
  [.bytes 0x31 [0xE2, 0x80], .error ⟨.interrupted, none⟩,
    .bytes 0xA8 [0x32, 0x0D, 0x0A, 0x0B, 0x0A, 0x33, 0x0A, 0x34, 0x20, 0xFF]]

theorem calls_brokenText :
    failure? brokenText = none ∧ decode? (content brokenText) = none ∧
      ({ later := brokenText } : Intake).calls 5 =
        [(some (.ok (.ofBits 0x3F800000)), 1), (some (.ok (.ofBits 0x40000000)), 1),
          (some (.ok (.ofBits 0x40400000)), 3),
          (some (.error (.io (.saying .invalidData "stream did not contain valid UTF-8"))), 3),
          (none, 3)] := by
  have hnone : decode? (content brokenText) = none := by decide +kernel
  have hrun := (@calls_text brokenText rfl).2
  simp only [hnone] at hrun
  obtain ⟨cs, hcs, hcalls⟩ := hrun
  have hsound : decode? (finished ((content brokenText).take (validUpTo (content brokenText)))) =
      some ['1', '\u2028', '2', '\r', '\n', '\x0b', '\n', '3', '\n'] := by
    decide +kernel
  obtain rfl := Option.some.inj (hcs.symm.trans hsound)
  refine ⟨rfl, hnone, (hcalls 5).trans ?_⟩
  decide +kernel

end LowPass
