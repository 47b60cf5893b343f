/-
Quoted text taken apart again.

A character is written by a short escape, by its code point, or as itself
(`written_ofChar`). In each way it can be told from what follows it (`Written.read?`), and
the quote that ends a text is no character of it. So a text in quotes settles the text and
what stands after it (`quoted_append_inj`), whatever either of them holds: quotes,
backslashes, or what looks like an escape.

All that is written is visible (`isHidden_of_mem_quoted`).
-/
import LowPass.Text.Quoted

namespace LowPass

/-! ## Digits -/

theorem digitChar_of_mem_toDigits {base n : Nat} {c : Char} (hbase : 1 < base)
    (h : c ∈ Nat.toDigits base n) : ∃ d < base, c = Nat.digitChar d := by
  induction n using Nat.strongRecOn with
  | ind n ih =>
    rw [Nat.toDigits_eq_if hbase] at h
    split at h
    · rename_i hn
      exact ⟨n, hn, List.mem_singleton.1 h⟩
    · rename_i hn
      rcases List.mem_append.1 h with h | h
      · exact ih (n / base) (Nat.div_lt_self (by omega) hbase) h
      · exact ⟨n % base, Nat.mod_lt n (by omega), List.mem_singleton.1 h⟩

namespace Quoted

/-- The value of a hexadecimal digit, lower case. -/
def hexDigit (c : Char) : Nat := if c.isDigit then c.toNat - 48 else c.toNat - 87

/-- The number that hexadecimal digits spell. -/
def ofHex (cs : List Char) : Nat := cs.foldl (fun n c => n * 16 + hexDigit c) 0

theorem hexDigit_digitChar : ∀ d < 16, hexDigit (Nat.digitChar d) = d := by decide

theorem ofHex_toDigits (n : Nat) : ofHex (Nat.toDigits 16 n) = n := by
  induction n using Nat.strongRecOn with
  | ind n ih =>
    rw [Nat.toDigits_eq_if (by decide)]
    split
    · rename_i hn
      simp [ofHex, hexDigit_digitChar n hn]
    · rename_i hn
      have hlast := hexDigit_digitChar (n % 16) (Nat.mod_lt n (by decide))
      have hfirst : ofHex (Nat.toDigits 16 (n / 16)) = n / 16 := ih (n / 16) (by omega)
      unfold ofHex at hfirst ⊢
      rw [List.foldl_append, hfirst, List.foldl_cons, List.foldl_nil, hlast]
      omega

/-! ## One character -/

/-- The escapes of one letter, and what they stand for. -/
def shortEscapes : List (Char × Char) :=
  [('"', '"'), ('\\', '\\'), ('t', '\t'), ('r', '\r'), ('n', '\n'), ('0', '\x00')]

/-- The ways in which a character is written. -/
inductive Written (c : Char) : List Char → Prop where
  | short {letter : Char} : (letter, c) ∈ shortEscapes → Written c ['\\', letter]
  | codePoint : Written c (codePoint c)
  | itself : c ≠ '"' → c ≠ '\\' → isHidden c = false → Written c [c]

theorem written_ofChar (c : Char) : Written c (ofChar c) := by
  by_cases hquote : c = '"'
  · subst hquote; exact .short (by decide)
  by_cases hbackslash : c = '\\'
  · subst hbackslash; exact .short (by decide)
  by_cases htab : c = '\t'
  · subst htab; exact .short (by decide)
  by_cases hreturn : c = '\r'
  · subst hreturn; exact .short (by decide)
  by_cases hnewline : c = '\n'
  · subst hnewline; exact .short (by decide)
  by_cases hnull : c = '\x00'
  · subst hnull; exact .short (by decide)
  simp only [ofChar, hquote, hbackslash, htab, hreturn, hnewline, hnull, if_false]
  by_cases hhidden : isHidden c = true
  · rw [if_pos hhidden]
    exact .codePoint
  · rw [if_neg hhidden]
    exact .itself hquote hbackslash (Bool.eq_false_iff.2 hhidden)

/-- The character that quoted text goes on with, and what follows it; there is none where
the text ends. -/
def read? : List Char → Option (Char × List Char)
  | [] => none
  | c :: cs =>
    if c = '"' then none
    else if c ≠ '\\' then some (c, cs)
    else match cs with
      | 'u' :: cs =>
        let digits := cs.drop 1
        some (.ofNat (ofHex (digits.takeWhile (· ≠ '\x7d'))),
          (digits.dropWhile (· ≠ '\x7d')).drop 1)
      | letter :: cs => (shortEscapes.lookup letter).map fun c => (c, cs)
      | [] => none

theorem digitChar_ne_brace : ∀ d < 16, Nat.digitChar d ≠ '\x7d' := by decide

theorem read?_codePoint (c : Char) (rest : List Char) :
    read? (codePoint c ++ rest) = some (c, rest) := by
  have hdigits : ∀ d ∈ Nat.toDigits 16 c.toNat, decide (d ≠ '\x7d') = true := by
    intro d hd
    obtain ⟨n, hn, rfl⟩ := digitChar_of_mem_toDigits (by decide) hd
    exact decide_eq_true (digitChar_ne_brace n hn)
  have hwritten : codePoint c ++ rest =
      '\\' :: 'u' :: '\x7b' :: (Nat.toDigits 16 c.toNat ++ '\x7d' :: rest) := by
    simp [codePoint]
  rw [hwritten]
  simp only [read?, List.drop_succ_cons, List.drop_zero]
  rw [List.takeWhile_append_of_pos hdigits, List.dropWhile_append_of_pos hdigits]
  simp [ofHex_toDigits]

/-- A written character is read back, whatever follows it. -/
theorem Written.read? {c : Char} {cs : List Char} (h : Written c cs) (rest : List Char) :
    read? (cs ++ rest) = some (c, rest) := by
  cases h with
  | short hletter =>
    simp only [shortEscapes, List.mem_cons, Prod.mk.injEq, List.not_mem_nil, or_false] at hletter
    rcases hletter with
      ⟨rfl, rfl⟩ | ⟨rfl, rfl⟩ | ⟨rfl, rfl⟩ | ⟨rfl, rfl⟩ | ⟨rfl, rfl⟩ | ⟨rfl, rfl⟩ <;> rfl
  | codePoint => exact read?_codePoint c rest
  | itself hquote hbackslash => simp [Quoted.read?, hquote, hbackslash]

theorem read?_ofChar (c : Char) (rest : List Char) :
    read? (ofChar c ++ rest) = some (c, rest) := (written_ofChar c).read? rest

theorem read?_quote (rest : List Char) : read? ('"' :: rest) = none := rfl

/-! ## The whole text -/

/-- Texts that are written alike, with a quote after them, are alike, and so is what follows
the quotes. -/
theorem flatMap_ofChar_inj {cs ds x y : List Char}
    (h : cs.flatMap ofChar ++ '"' :: x = ds.flatMap ofChar ++ '"' :: y) : cs = ds ∧ x = y := by
  induction cs generalizing ds with
  | nil =>
    cases ds with
    | nil => exact ⟨rfl, (List.cons.inj h).2⟩
    | cons d ds =>
      -- the one text has come to its quote, where nothing is read
      have hread := congrArg read? h
      rw [List.flatMap_cons, List.append_assoc, read?_ofChar] at hread
      exact nomatch (read?_quote x).symm.trans hread
  | cons c cs ih =>
    rw [List.flatMap_cons, List.append_assoc] at h
    cases ds with
    | nil =>
      have hread := congrArg read? h
      rw [read?_ofChar] at hread
      exact nomatch hread.trans (read?_quote y)
    | cons d ds =>
      rw [List.flatMap_cons, List.append_assoc] at h
      have hread := congrArg read? h
      rw [read?_ofChar, read?_ofChar] at hread
      obtain ⟨rfl, hrest⟩ := Prod.mk.inj (Option.some.inj hread)
      obtain ⟨rfl, hxy⟩ := ih hrest
      exact ⟨rfl, hxy⟩

end Quoted

theorem quoted_append_inj {s t x y : String} (h : quoted s ++ x = quoted t ++ y) :
    s = t ∧ x = y := by
  have hlists := congrArg String.toList h
  simp only [quoted, String.toList_append, String.toList_ofList, List.cons_append,
    List.append_assoc, List.nil_append, List.cons.injEq, true_and] at hlists
  obtain ⟨hs, hx⟩ := Quoted.flatMap_ofChar_inj hlists
  exact ⟨String.toList_inj.1 hs, String.toList_inj.1 hx⟩

/-! ## What is hidden -/

/-- The space, and the letters, digits and marks of ASCII. -/
def isPlain (c : Char) : Bool := 0x20 ≤ c.toNat && c.toNat ≤ 0x7E

theorem isHidden_of_isPlain {c : Char} (h : isPlain c = true) : isHidden c = false := by
  simp only [isPlain, Bool.and_eq_true, decide_eq_true_eq] at h
  obtain ⟨hlow, hhigh⟩ := h
  have happly : ∀ ranges : Ranges, (∀ r ∈ ranges, r.2 < 0x20 ∨ 0x7E < r.1) →
      ranges.has c = false := fun ranges h => Ranges.has_of_apart h hlow hhigh
  have hspaces : (spaces.has c && c != ' ') = false := by
    by_cases hspace : c = ' '
    · simp [hspace]
    · have hne : c.toNat ≠ 0x20 := fun h => hspace (Char.toNat_inj.1 h)
      have hapart : ∀ r ∈ spaces, r.2 < 0x21 ∨ 0x7E < r.1 := by decide
      rw [Ranges.has_of_apart hapart (by omega) hhigh]
      rfl
  simp only [isHidden, hspaces, happly extending (by decide +kernel), happly controls (by decide),
    happly formats (by decide), happly breaks (by decide), happly ignorable (by decide),
    happly privateUse (by decide), happly unassigned (by decide +kernel), Bool.or_false]

theorem isHidden_of_mem_plain {cs : List Char} (hplain : cs.all isPlain = true) {c : Char}
    (h : c ∈ cs) : isHidden c = false := isHidden_of_isPlain (List.all_eq_true.1 hplain c h)

theorem isPlain_digitChar : ∀ d < 16, isPlain (Nat.digitChar d) = true := by decide

theorem isHidden_of_mem_toDigits {base n : Nat} {c : Char} (hbase : 1 < base) (hle : base ≤ 16)
    (h : c ∈ Nat.toDigits base n) : isHidden c = false := by
  obtain ⟨d, hd, rfl⟩ := digitChar_of_mem_toDigits hbase h
  exact isHidden_of_isPlain (isPlain_digitChar d (by omega))

theorem Quoted.Written.visible {c d : Char} {cs : List Char} (h : Written c cs) (hd : d ∈ cs) :
    isHidden d = false := by
  cases h with
  | short hletter =>
    have hplain : shortEscapes.all (fun p => isPlain p.1) = true := by decide
    rcases List.mem_cons.1 hd with rfl | hd
    · exact isHidden_of_isPlain (by decide)
    · rw [List.mem_singleton.1 hd]
      exact isHidden_of_isPlain (List.all_eq_true.1 hplain _ hletter)
  | codePoint =>
    rcases List.mem_append.1 hd with hd | hd
    · rcases List.mem_append.1 hd with hd | hd
      · exact isHidden_of_mem_plain (by decide) hd
      · exact isHidden_of_mem_toDigits (by decide) (by decide) hd
    · exact isHidden_of_mem_plain (by decide) hd
  | itself _ _ hvisible => rwa [List.mem_singleton.1 hd]

theorem isHidden_of_mem_quoted {s : String} {c : Char} (h : c ∈ (quoted s).toList) :
    isHidden c = false := by
  rw [quoted, String.toList_ofList] at h
  rcases List.mem_cons.1 h with rfl | h
  · exact isHidden_of_isPlain (by decide)
  · rcases List.mem_append.1 h with h | h
    · obtain ⟨a, -, ha⟩ := List.mem_flatMap.1 h
      exact (Quoted.written_ofChar a).visible ha
    · exact isHidden_of_mem_plain (by decide) h

end LowPass
