/-
Newlines in UTF-8. The byte of a newline belongs to no other character, so cutting
well-formed bytes at a newline cuts their text at one (`decode?_append_newline`).

Bytes that are not well formed are so up to some place (`validUpTo`).
-/
import LowPass.Arrival
import LowPass.Text.Utf8.RoundTrip
import Mathlib.Data.Nat.Find

namespace LowPass
namespace Utf8

theorem eq_newline_of_mem {c : Char} (h : newline ∈ String.utf8EncodeChar c) : c = '\n' := by
  have hc : c.toNat = c.val.toNat := rfl
  have hbyte : ∀ n, newline = UInt8.ofNat n ↔ n % 256 = 10 := by
    intro n
    rw [← UInt8.toNat_inj, UInt8.toNat_ofNat', eq_comm]
    rfl
  have hten : c.toNat = 10 := by
    simp only [String.utf8EncodeChar, ← hc] at h
    generalize c.toNat = v at h ⊢
    split at h
    · simp only [List.mem_singleton, hbyte] at h
      omega
    · -- Every byte of a longer form is past 127.
      split at h
      · simp only [List.mem_cons, List.not_mem_nil, or_false, hbyte] at h
        omega
      · split at h <;> simp only [List.mem_cons, List.not_mem_nil, or_false, hbyte] at h <;> omega
  exact Char.toNat_inj.1 hten

theorem encode_cons (c : Char) (cs : List Char) :
    encode (c :: cs) = String.utf8EncodeChar c ++ encode cs := rfl

theorem encode_newline (cs : List Char) : encode ('\n' :: cs) = newline :: encode cs := rfl

theorem encode_append (cs ds : List Char) : encode (cs ++ ds) = encode cs ++ encode ds :=
  List.flatMap_append

theorem newline_not_mem_encode {cs : List Char} (h : '\n' ∉ cs) : newline ∉ encode cs := by
  intro hmem
  obtain ⟨c, hc, hbyte⟩ := List.mem_flatMap.1 hmem
  exact h (eq_newline_of_mem hbyte ▸ hc)

theorem count_newline_encode (cs : List Char) : (encode cs).count newline = cs.count '\n' := by
  induction cs with
  | nil => rfl
  | cons c cs ih =>
    by_cases hc : c = '\n'
    · rw [hc, encode_newline, List.count_cons_self, List.count_cons_self, ih]
    · have hnone : newline ∉ String.utf8EncodeChar c := fun h => hc (eq_newline_of_mem h)
      rw [encode_cons, List.count_append, List.count_eq_zero.2 hnone, ih, List.count_cons_of_ne hc,
        Nat.zero_add]

/-- A newline byte of a text is a newline of it. -/
theorem cut_at_newline {cs : List Char} {as bs : Bytes} (h : encode cs = as ++ newline :: bs) :
    ∃ before after, cs = before ++ '\n' :: after ∧ encode before = as ∧ encode after = bs := by
  induction cs generalizing as with
  | nil => simp [encode] at h
  | cons c cs ih =>
    by_cases hc : c = '\n'
    · rw [hc, encode_newline] at h
      cases as with
      | nil =>
        obtain ⟨-, hrest⟩ := List.cons.inj h
        exact ⟨[], cs, by rw [hc, List.nil_append], rfl, hrest⟩
      | cons a as =>
        obtain ⟨rfl, hrest⟩ := List.cons.inj h
        obtain ⟨before, after, rfl, rfl, rfl⟩ := ih hrest
        exact ⟨'\n' :: before, after, by rw [hc, List.cons_append], rfl, rfl⟩
    · have hnone : newline ∉ String.utf8EncodeChar c := fun h => hc (eq_newline_of_mem h)
      rw [encode_cons] at h
      rcases List.append_eq_append_iff.1 h with ⟨more, rfl, hrest⟩ | ⟨more, hchar, hrest⟩
      · obtain ⟨before, after, rfl, rfl, rfl⟩ := ih hrest
        exact ⟨c :: before, after, rfl, rfl, rfl⟩
      · -- The newline would have to be within the character, unless that ends before it.
        cases more with
        | nil =>
          rw [List.append_nil] at hchar
          obtain ⟨before, after, rfl, hnil, rfl⟩ := @ih [] hrest.symm
          exact ⟨c :: before, after, rfl, by rw [encode_cons, hnil, List.append_nil, hchar], rfl⟩
        | cons b more =>
          obtain ⟨rfl, -⟩ := List.cons.inj hrest
          exact absurd (hchar ▸ by simp) hnone

/-- **Cutting at a newline** leaves well-formed bytes on either side. -/
theorem decode?_append_newline {as bs : Bytes} {cs : List Char}
    (h : decode? (as ++ newline :: bs) = some cs) :
    ∃ before after, cs = before ++ '\n' :: after ∧ decode? as = some before ∧
      decode? bs = some after := by
  obtain ⟨before, after, rfl, rfl, rfl⟩ := cut_at_newline (eq_encode_of_decode? h).symm
  exact ⟨before, after, rfl, decode?_encode before, decode?_encode after⟩

theorem decode?_append {as bs : Bytes} {cs ds : List Char} (ha : decode? as = some cs)
    (hb : decode? bs = some ds) : decode? (as ++ bs) = some (cs ++ ds) := by
  rw [decode?_eq_some_iff, encode_append, ← eq_encode_of_decode? ha, ← eq_encode_of_decode? hb]

theorem isSome_decode?_beginning {as bs : Bytes} (h : as <+: bs)
    (hends : as = [] ∨ as.getLast? = some newline) (hbs : (decode? bs).isSome = true) :
    (decode? as).isSome = true := by
  obtain ⟨more, rfl⟩ := h
  obtain ⟨cs, hcs⟩ := Option.isSome_iff_exists.1 hbs
  rcases hends with rfl | hlast
  · simp [decode?]
  · obtain ⟨as, rfl⟩ : ∃ as', as = as' ++ [newline] := List.getLast?_eq_some_iff.1 hlast
    rw [List.append_assoc, List.singleton_append] at hcs
    obtain ⟨before, after, -, hbefore, -⟩ := decode?_append_newline hcs
    have hnewline : decode? [newline] = some ['\n'] := decode?_encode ['\n']
    rw [decode?_append hbefore hnewline]
    rfl

/-! ## Up to an ill-formed part -/

/-- The length of the longest beginning that is well formed. -/
def validUpTo (bs : Bytes) : Nat :=
  Nat.findGreatest (fun n => (decode? (bs.take n)).isSome = true) bs.length

theorem isSome_decode?_take_validUpTo (bs : Bytes) :
    (decode? (bs.take (validUpTo bs))).isSome = true := by
  have hnone : (decode? (bs.take 0)).isSome = true := by simp [decode?]
  exact Nat.findGreatest_spec (P := fun n => (decode? (bs.take n)).isSome = true)
    (Nat.zero_le bs.length) hnone

theorem prefix_take_validUpTo {as bs : Bytes} (h : as <+: bs) (has : (decode? as).isSome = true) :
    as <+: bs.take (validUpTo bs) := by
  have hle : as.length ≤ validUpTo bs := by
    refine Nat.le_findGreatest h.length_le ?_
    rwa [← List.prefix_iff_eq_take.1 h]
  exact List.prefix_take_iff.2 ⟨h, hle⟩

end Utf8
end LowPass
