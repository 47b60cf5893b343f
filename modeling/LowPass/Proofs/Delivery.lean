/-
What arrivals deliver to a reader of lines.

It does not matter in which portions bytes arrive, or that the reader is
interrupted on the way. What counts are the bytes before the first failure
(`received`) and that failure (`failure?`). The line that a failure cuts is lost
with it, so the lines to be had are those of the finished part (`delivered`).

`readLine_delivered`: `readLine` takes the next of these lines and leaves the
others; when there is none, it meets the failure or the end.
-/
import LowPass.Proofs.Lines

namespace LowPass
namespace Arrival

/-- The first failure among arrivals. An interruption is none. -/
def failure? : List Arrival → Option IoError
  | [] => none
  | .bytes _ _ :: later => failure? later
  | .error e :: later => if e.kind = .interrupted then failure? later else some e

/-- The bytes that arrive before the first failure. -/
def received : List Arrival → Bytes
  | [] => []
  | .bytes b bs :: later => b :: bs ++ received later
  | .error e :: later => if e.kind = .interrupted then received later else []

/-- The lines that are complete before the first failure. At the end of the
input the last line is complete as it is. -/
def delivered (as : List Arrival) : List Bytes :=
  match failure? as with
  | none => lines (received as)
  | some _ => lines (finished (received as))

@[simp] theorem delivered_nil : delivered [] = [] := rfl

theorem failure?_eq_none {as : List Arrival} :
    failure? as = none ↔ ∀ e, .error e ∈ as → e.kind = .interrupted := by
  induction as with
  | nil => simp [failure?]
  | cons a as ih =>
    cases a with
    | bytes b bs => simp [failure?, ih]
    | error e =>
      by_cases he : e.kind = .interrupted
      · simp [failure?, he, ih]
      · simp [failure?, he]

theorem received_of_unfailing {as : List Arrival} (h : failure? as = none) :
    received as = content as := by
  induction as with
  | nil => rfl
  | cons a as ih =>
    cases a with
    | bytes b bs => simp only [received, content, ih h]
    | error e =>
      unfold failure? at h
      split at h
      · rename_i he
        rw [received, if_pos he, content, ih h]
      · cases h

theorem delivered_of_unfailing {as : List Arrival} (h : failure? as = none) :
    delivered as = lines (content as) := by
  rw [delivered, h, received_of_unfailing h]

@[simp] theorem failure?_together (bs : Bytes) (later : List Arrival) :
    failure? (together bs later) = failure? later := by
  cases bs <;> rfl

@[simp] theorem received_together (bs : Bytes) (later : List Arrival) :
    received (together bs later) = bs ++ received later := by
  cases bs <;> rfl

theorem received_isPrefix (as : List Arrival) : received as <+: content as := by
  induction as with
  | nil => exact List.prefix_rfl
  | cons a as ih =>
    cases a with
    | bytes b bs => exact (List.prefix_append_right_inj _).2 ih
    | error e =>
      unfold received
      split
      · exact ih
      · exact List.nil_prefix

theorem length_delivered_le (as : List Arrival) :
    (delivered as).length ≤ (lines (content as)).length := by
  unfold delivered
  split
  · exact length_lines_le (received_isPrefix as)
  · have hfinished := finished_prefix (received as)
    exact length_lines_le (hfinished.trans (received_isPrefix as))

/-! ## A failure after arrivals that go well -/

section
variable {before : List Arrival} {e : IoError} (hb : failure? before = none)
  (he : e.kind ≠ .interrupted) (after : List Arrival)
include hb he

theorem failure?_append_error : failure? (before ++ .error e :: after) = some e := by
  induction before with
  | nil => simp [failure?, he]
  | cons a as ih =>
    cases a with
    | bytes b bs => exact ih hb
    | error e' =>
      simp only [List.cons_append, failure?] at hb ⊢
      split at hb
      · rename_i hi
        rw [if_pos hi]
        exact ih hb
      · cases hb

theorem received_append_error : received (before ++ .error e :: after) = content before := by
  induction before with
  | nil => simp [received, content, he]
  | cons a as ih =>
    cases a with
    | bytes b bs => simp only [List.cons_append, received, content, ih hb]
    | error e' =>
      simp only [List.cons_append, received, content, failure?] at hb ⊢
      split at hb
      · rename_i hi
        rw [if_pos hi]
        exact ih hb
      · cases hb

theorem delivered_append_error :
    delivered (before ++ .error e :: after) = lines (finished (content before)) := by
  rw [delivered, failure?_append_error hb he, received_append_error hb he]

end

/-! ## Line after line -/

theorem delivered_of_newline {b : UInt8} {bs l rest : Bytes} (hl : newline ∉ l)
    (hbs : b :: bs = l ++ newline :: rest) (later : List Arrival) :
    delivered (.bytes b bs :: later) = (l ++ [newline]) :: delivered (together rest later) := by
  have hreceived : received (.bytes b bs :: later) = l ++ newline :: (rest ++ received later) := by
    rw [received, hbs, List.append_assoc, List.cons_append]
  unfold delivered
  rw [hreceived, received_together, failure?_together]
  simp only [failure?]
  cases failure? later with
  | none => exact lines_append_newline hl _
  | some e =>
    simp only [finished_append_newline]
    exact lines_append_newline hl _

/-- Bytes that arrive without a newline belong to the line after them. At the
end of the input they are the last line; a failure loses them. -/
theorem delivered_of_open {b : UInt8} {bs : Bytes} (hbs : newline ∉ b :: bs)
    (later : List Arrival) :
    delivered (.bytes b bs :: later) =
      match delivered later, failure? later with
      | l :: ls, _ => (b :: bs ++ l) :: ls
      | [], none => [b :: bs]
      | [], some _ => [] := by
  unfold delivered
  simp only [failure?, received]
  cases failure? later with
  | none =>
    simp only [lines_open_append hbs (by simp)]
    cases lines (received later) <;> rfl
  | some e =>
    simp only [finished_open_append hbs]
    split
    · rename_i h
      simp [h]
    · rename_i h
      rw [lines_open_append hbs (by simp)]
      cases hlines : lines (finished (received later)) with
      | nil => exact absurd (lines_eq_nil.1 hlines) h
      | cons l ls => rfl

end Arrival

open Arrival

theorem cutLine?_eq_some {bs line rest : Bytes} (h : cutLine? bs = some (line, rest)) :
    ∃ l, newline ∉ l ∧ line = l ++ [newline] ∧ bs = l ++ newline :: rest := by
  induction bs generalizing line with
  | nil => simp [cutLine?] at h
  | cons b bs ih =>
    simp only [cutLine?] at h
    split at h
    · rename_i hb
      simp only [Option.some.injEq, Prod.mk.injEq] at h
      obtain ⟨rfl, rfl⟩ := h
      exact ⟨[], by simp, by simp [hb], by simp [hb]⟩
    · rename_i hb
      simp only [Option.map_eq_some_iff, Prod.exists, Prod.mk.injEq] at h
      obtain ⟨line', rest', hcut, rfl, rfl⟩ := h
      obtain ⟨l, hl, rfl, rfl⟩ := ih hcut
      exact ⟨b :: l, by simp [hl, Ne.symm hb], rfl, rfl⟩

theorem not_mem_of_cutLine?_eq_none {bs : Bytes} (h : cutLine? bs = none) : newline ∉ bs := by
  induction bs with
  | nil => simp
  | cons b bs ih =>
    simp only [cutLine?] at h
    split at h
    · cases h
    · rename_i hb
      simp only [List.mem_cons, not_or]
      exact ⟨Ne.symm hb, ih (by simpa using h)⟩

/-- What reading a line makes of the lines that are delivered. -/
theorem readLine_delivered (as : List Arrival) :
    match readLine as with
    | .failed e _ => delivered as = [] ∧ failure? as = some e
    | .line [] later => later = [] ∧ delivered as = [] ∧ failure? as = none
    | .line (b :: bs) later =>
      delivered as = (b :: bs) :: delivered later ∧ failure? as = failure? later := by
  induction as with
  | nil => simp [readLine, failure?]
  | cons a as ih =>
    cases a with
    | error e =>
      by_cases he : e.kind = .interrupted
      · simpa [readLine, delivered, failure?, received, he] using ih
      · simp [readLine, delivered, failure?, received, he, finished]
    | bytes b bs =>
      simp only [readLine]
      cases hcut : cutLine? (b :: bs) with
      | some cut =>
        obtain ⟨line, rest⟩ := cut
        obtain ⟨l, hl, hline, hbs⟩ := cutLine?_eq_some hcut
        have hdelivered := delivered_of_newline hl hbs as
        rw [← hline] at hdelivered
        cases line with
        | nil => simp at hline
        | cons c cs => exact ⟨hdelivered, by simp [failure?]⟩
      | none =>
        have hopen := delivered_of_open (not_mem_of_cutLine?_eq_none hcut) as
        cases hread : readLine as with
        | failed e later =>
          rw [hread] at ih
          simp only [LineRead.prepend, failure?, hopen, ih, and_self]
        | line text later =>
          rw [hread] at ih
          cases text with
          | nil =>
            obtain ⟨rfl, hnone, hfail⟩ := ih
            rw [hnone, hfail] at hopen
            exact ⟨by simpa using hopen, hfail⟩
          | cons c cs =>
            obtain ⟨hmore, hfail⟩ := ih
            rw [hmore] at hopen
            exact ⟨hopen, hfail⟩

end LowPass
