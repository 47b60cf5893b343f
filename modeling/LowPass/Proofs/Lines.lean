/-
The lines of bytes. A line is cut after its newline, which only the last may
lack, so bytes that are cut after a newline keep their lines (`lines_append`).

The finished part of bytes is what stands up to the last newline: the longest
beginning that is empty or ends in a newline (`finished_prefix`,
`finished_ends`, `prefix_finished`).
-/
import LowPass.Arrival
import Mathlib.Data.List.DropRight

namespace LowPass

/-- The lines of bytes, each with its newline. -/
def lines : Bytes → List Bytes
  | [] => []
  | b :: bs =>
    if b = newline then [b] :: lines bs
    else match lines bs with
      | [] => [[b]]
      | l :: ls => (b :: l) :: ls

/-- The bytes up to the last newline, and with it. -/
def finished (bs : Bytes) : Bytes := bs.rdropWhile (· != newline)

@[simp] theorem lines_nil : lines [] = [] := rfl

@[simp] theorem lines_eq_nil {bs : Bytes} : lines bs = [] ↔ bs = [] := by
  cases bs with
  | nil => simp
  | cons b bs =>
    simp only [lines, reduceCtorEq, iff_false]
    split
    · simp
    · split <;> simp

theorem lines_open_append {l : Bytes} (hl : newline ∉ l) (hne : l ≠ []) (bs : Bytes) :
    lines (l ++ bs) = match lines bs with
      | [] => [l]
      | first :: more => (l ++ first) :: more := by
  induction l with
  | nil => exact absurd rfl hne
  | cons b l ih =>
    have hb : b ≠ newline := fun h => hl (by simp [h])
    have hl : newline ∉ l := fun h => hl (by simp [h])
    rw [List.cons_append, lines, if_neg hb]
    rcases eq_or_ne l [] with rfl | hne
    · rfl
    · rw [ih hl hne]
      cases lines bs <;> rfl

theorem lines_append_newline {l : Bytes} (hl : newline ∉ l) (bs : Bytes) :
    lines (l ++ newline :: bs) = (l ++ [newline]) :: lines bs := by
  have hnl : lines (newline :: bs) = [newline] :: lines bs := by rw [lines, if_pos rfl]
  rcases eq_or_ne l [] with rfl | hne
  · exact hnl
  · rw [lines_open_append hl hne, hnl]

/-- Bytes that end a line, or are none, are cut into lines apart from what follows. -/
theorem lines_append {as : Bytes} (h : as = [] ∨ as.getLast? = some newline) (bs : Bytes) :
    lines (as ++ bs) = lines as ++ lines bs := by
  rcases h with rfl | h
  · rfl
  · obtain ⟨as, rfl⟩ : ∃ as', as = as' ++ [newline] := List.getLast?_eq_some_iff.1 h
    rw [List.append_assoc, List.singleton_append]
    induction as with
    | nil => simp [lines]
    | cons b as ih =>
      have ih := ih (by simp)
      simp only [List.cons_append, lines]
      by_cases hb : b = newline
      · rw [if_pos hb, if_pos hb, ih, List.cons_append]
      · rw [if_neg hb, if_neg hb, ih]
        cases hlines : lines (as ++ [newline]) with
        | nil => simp at hlines
        | cons l ls => rfl

theorem length_lines (bs : Bytes) :
    (lines bs).length =
      bs.count newline + if bs = [] ∨ bs.getLast? = some newline then 0 else 1 := by
  induction bs with
  | nil => rfl
  | cons b bs ih =>
    unfold lines
    rcases eq_or_ne bs [] with rfl | hne
    · by_cases hb : b = newline <;> simp [hb]
    · have hlast : (b :: bs).getLast? = bs.getLast? := by
        rw [List.getLast?_cons]
        cases h : bs.getLast? with
        | none => exact absurd (List.getLast?_eq_none_iff.1 h) hne
        | some c => rfl
      simp only [hne, false_or, hlast, reduceCtorEq] at ih ⊢
      by_cases hb : b = newline
      · rw [if_pos hb, List.length_cons, ih, hb, List.count_cons_self]
        omega
      · rw [if_neg hb, List.count_cons_of_ne hb, ← ih]
        cases hlines : lines bs with
        | nil => exact absurd (lines_eq_nil.1 hlines) hne
        | cons l ls => rfl

theorem length_lines_cons (b : UInt8) (bs : Bytes) :
    (lines (b :: bs)).length =
      if b = newline then (lines bs).length + 1 else max 1 (lines bs).length := by
  rw [lines]
  split
  · rfl
  · cases lines bs <;> simp

theorem length_lines_le {as bs : Bytes} (h : as <+: bs) : (lines as).length ≤ (lines bs).length := by
  induction as generalizing bs with
  | nil => exact Nat.zero_le _
  | cons a as ih =>
    obtain ⟨more, rfl⟩ := h
    have hrest := ih (List.prefix_append as more)
    rw [List.cons_append, length_lines_cons, length_lines_cons]
    split <;> omega

/-! ## The finished part -/

theorem finished_prefix (bs : Bytes) : finished bs <+: bs := List.rdropWhile_prefix _ bs

theorem finished_ends (bs : Bytes) : finished bs = [] ∨ (finished bs).getLast? = some newline := by
  by_cases h : finished bs = []
  · exact .inl h
  · have hlast : (finished bs).getLast h = newline := by
      have hnot := List.rdropWhile_last_not (· != newline) bs h
      rwa [bne_iff_ne, ne_eq, not_not] at hnot
    exact .inr (by rw [List.getLast?_eq_some_getLast h, hlast])

theorem length_lines_finished (bs : Bytes) :
    (lines (finished bs)).length = (finished bs).count newline := by
  rw [length_lines, if_pos (finished_ends bs), Nat.add_zero]

theorem finished_append_newline (as bs : Bytes) :
    finished (as ++ newline :: bs) = as ++ newline :: finished bs := by
  induction bs using List.reverseRecOn with
  | nil =>
    have h := List.rdropWhile_concat_neg (· != newline) as newline (by simp)
    rw [finished, h]
    rfl
  | append_singleton bs b ih =>
    have hassoc : as ++ newline :: (bs ++ [b]) = (as ++ newline :: bs) ++ [b] := by simp
    by_cases hb : b = newline
    · subst hb
      rw [finished, finished, hassoc, List.rdropWhile_concat_neg _ _ _ (by simp),
        List.rdropWhile_concat_neg _ _ _ (by simp)]
      simp
    · have hp : (b != newline) = true := by simpa using hb
      rw [finished, finished, hassoc, List.rdropWhile_concat_pos (· != newline) _ _ hp,
        List.rdropWhile_concat_pos (· != newline) _ _ hp]
      exact ih

theorem finished_of_not_mem {bs : Bytes} (h : newline ∉ bs) : finished bs = [] := by
  rw [finished, List.rdropWhile_eq_nil_iff]
  intro b hb
  simpa using fun (e : b = newline) => h (e ▸ hb)

@[simp] theorem finished_eq_nil {bs : Bytes} : finished bs = [] ↔ newline ∉ bs := by
  refine ⟨fun h hmem => ?_, finished_of_not_mem⟩
  obtain ⟨as, cs, rfl⟩ := List.append_of_mem hmem
  rw [finished_append_newline] at h
  simp at h

/-- No beginning that ends in a newline is longer. -/
theorem prefix_finished {as bs : Bytes} (h : as <+: bs)
    (hlast : as = [] ∨ as.getLast? = some newline) : as <+: finished bs := by
  rcases hlast with rfl | hlast
  · exact List.nil_prefix
  · obtain ⟨more, rfl⟩ := h
    obtain ⟨as, rfl⟩ : ∃ as', as = as' ++ [newline] := List.getLast?_eq_some_iff.1 hlast
    rw [List.append_assoc, List.singleton_append, finished_append_newline]
    exact ⟨finished more, by simp⟩

theorem finished_open_append {l : Bytes} (hl : newline ∉ l) (bs : Bytes) :
    finished (l ++ bs) = if finished bs = [] then [] else l ++ finished bs := by
  by_cases hbs : newline ∈ bs
  · obtain ⟨as, cs, rfl⟩ := List.append_of_mem hbs
    rw [← List.append_assoc, finished_append_newline, finished_append_newline, if_neg (by simp),
      List.append_assoc]
  · rw [if_pos (by simpa using hbs), finished_eq_nil]
    simp [hl, hbs]

end LowPass
