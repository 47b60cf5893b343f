/-
How an intake comes to its end.

A call that gives no sample closes the intake (`closed_next`), and a closed intake gives
nothing and stays as it is (`next_of_closed`): the words that wait and what is still to
arrive are left alone, even what arrives only after the end (`next_of_no_sample`). So the
items are samples, then at most one error, then nothing.

The count of lines never goes down, and with the lines that are still to be had it never
goes up (`line_next`). An intake that comes to nothing without an error has come to the end
of a text, and has given every word of it (`reading_of_calls`, `ofArrivals_of_no_failure`).
-/
import LowPass.Proofs.CutInput
import LowPass.Proofs.WholeText

namespace LowPass

open Arrival

namespace Intake

/-! ## One call -/

theorem handOut_cases (i : Intake) (word : List Char) :
    (∃ x, handOut i word = (.ok x, i)) ∨ ∃ f, handOut i word = (.error f, { i with closed := true }) := by
  unfold handOut
  cases Binary32.ofText? word with
  | some x => exact .inl ⟨x, rfl⟩
  | none => exact .inr ⟨_, rfl⟩

/-- What a call can do: nothing, when the intake is closed; hand out a word that waits, or
the first word of a line further on; or find no more words. -/
theorem next_cases (i : Intake) :
    i.closed = true ∧ i.next = (none, i) ∨
      i.closed = false ∧
        ((∃ word j, i.next = (some (handOut j word).1, (handOut j word).2) ∧ j.closed = false ∧
            (j.line = i.line ∧ j.later = i.later ∨
              search i.line i.later = .found word j.waiting j.line j.later)) ∨
          (∃ line later, i.next = (none, { later, line, closed := true }) ∧
            search i.line i.later = .ended line later) ∨
          ∃ e line later, i.next = (some (.error (.io e)), { later, line, closed := true }) ∧
            search i.line i.later = .failed e line later) := by
  unfold next
  split
  · rename_i hc
    exact .inl ⟨hc, rfl⟩
  · rename_i hc
    refine .inr ⟨by simpa using hc, ?_⟩
    split
    · exact .inl ⟨_, _, rfl, by simpa using hc, .inl ⟨rfl, rfl⟩⟩
    · split
      · rename_i hs
        exact .inl ⟨_, _, rfl, rfl, .inr hs⟩
      · rename_i hs
        exact .inr (.inl ⟨_, _, rfl, hs⟩)
      · rename_i hs
        exact .inr (.inr ⟨_, _, _, rfl, hs⟩)

theorem next_of_closed {i : Intake} (h : i.closed = true) : i.next = (none, i) := by
  unfold next
  rw [if_pos h]

/-- **A call that gives no sample** closes the intake. -/
theorem closed_next {i : Intake} (h : ∀ x, i.next.1 ≠ some (.ok x)) : i.next.2.closed = true := by
  rcases next_cases i with ⟨hc, hnext⟩ | ⟨-, ⟨word, j, hnext, -⟩ | ⟨_, _, hnext, -⟩ | ⟨_, _, _, hnext, -⟩⟩ <;>
    rw [hnext] at h ⊢
  · exact hc
  · rcases handOut_cases j word with ⟨x, hword⟩ | ⟨f, hword⟩ <;> rw [hword] at h ⊢
    exact absurd rfl (h x)

/-! ## The count of lines -/

/-- Looking for the next word takes lines away as it counts them. -/
theorem search_line (line : Nat) (as : List Arrival) :
    match search line as with
    | .found _ _ line' later =>
      line ≤ line' ∧ line' + (delivered later).length ≤ line + (delivered as).length
    | .ended line' _ | .failed _ line' _ => line ≤ line' ∧ line' ≤ line + (delivered as).length := by
  fun_induction search line as with
  | case1 => exact ⟨Nat.le_refl _, Nat.le_add_right _ _⟩
  | case2 => exact ⟨Nat.le_refl _, Nat.le_add_right _ _⟩
  | case3 => exact ⟨Nat.le_refl _, Nat.le_add_right _ _⟩
  | case4 line as b bs later hread cs _ _ ih =>
    have h := readLine_delivered as
    rw [hread] at h
    rw [h.1, List.length_cons]
    split at ih <;> omega
  | case5 line as b bs later hread cs _ word others _ =>
    have h := readLine_delivered as
    rw [hread] at h
    rw [h.1, List.length_cons]
    omega

/-- How many lines are still to be had. -/
def linesLeft (i : Intake) : Nat := if i.closed then 0 else (delivered i.later).length

/-- **The count of lines** does not go down, and does not outrun the lines there are. -/
theorem line_next (i : Intake) :
    i.line ≤ i.next.2.line ∧ i.next.2.line + i.next.2.linesLeft ≤ i.line + i.linesLeft := by
  have hs := search_line i.line i.later
  unfold linesLeft
  rcases next_cases i with ⟨hc, hnext⟩ | ⟨hc, ⟨word, j, hnext, hj, hfrom⟩ | ⟨_, _, hnext, hsearch⟩ |
    ⟨_, _, _, hnext, hsearch⟩⟩ <;> rw [hnext]
  · exact ⟨Nat.le_refl _, Nat.le_refl _⟩
  · have hline : i.line ≤ j.line ∧
        j.line + (delivered j.later).length ≤ i.line + (delivered i.later).length := by
      rcases hfrom with ⟨hline, hlater⟩ | hsearch
      · rw [hline, hlater]
        exact ⟨Nat.le_refl _, Nat.le_refl _⟩
      · rwa [hsearch] at hs
    rcases handOut_cases j word with ⟨x, hword⟩ | ⟨f, hword⟩ <;> simp [hword, hc, hj] <;> omega
  · rw [hsearch] at hs
    simpa [hc] using hs
  · rw [hsearch] at hs
    simpa [hc] using hs

/-! ## Any number of calls -/

/-- The intake after so many calls. -/
def after (i : Intake) : Nat → Intake
  | 0 => i
  | n + 1 => i.next.2.after n

theorem after_succ (i : Intake) (n : Nat) : i.after (n + 1) = (i.after n).next.2 := by
  induction n generalizing i with
  | zero => rfl
  | succ n ih => exact ih i.next.2

theorem after_add (i : Intake) (m n : Nat) : i.after (m + n) = (i.after m).after n := by
  induction m generalizing i with
  | zero => rw [Nat.zero_add]; rfl
  | succ m ih => rw [Nat.add_right_comm]; exact ih i.next.2

theorem calls_eq_map (i : Intake) (count : Nat) :
    i.calls count =
      (List.range count).map fun n => ((i.after n).next.1, (i.after (n + 1)).line) := by
  induction count generalizing i with
  | zero => rfl
  | succ count ih =>
    rw [calls, ih, List.range_succ_eq_map, List.map_cons, List.map_map]
    rfl

theorem after_of_closed {i : Intake} (h : i.closed = true) (n : Nat) : i.after n = i := by
  induction n with
  | zero => rfl
  | succ n ih => rw [after_succ, ih, next_of_closed h]

theorem calls_of_closed {i : Intake} (h : i.closed = true) (count : Nat) :
    i.calls count = List.replicate count (none, i.line) := by
  induction count with
  | zero => rfl
  | succ count ih => rw [calls, next_of_closed h, ih, List.replicate_succ]

section
variable {i : Intake} {m : Nat} (h : ∀ x, (i.after m).next.1 ≠ some (.ok x))
include h

theorem closed_after : (i.after (m + 1)).closed = true := by
  rw [after_succ]
  exact closed_next h

/-- After a call that gives no sample the intake stays as it is, and gives nothing. -/
theorem after_of_no_sample {n : Nat} (hlt : m < n) :
    i.after n = i.after (m + 1) ∧ (i.after n).next.1 = none := by
  have hclosed := closed_after h
  obtain ⟨k, rfl⟩ := Nat.exists_eq_add_of_le hlt
  rw [Nat.succ_eq_add_one, after_add, after_of_closed hclosed, next_of_closed hclosed]
  exact ⟨rfl, rfl⟩

/-- Nor does it ask again: whatever comes now is left where it is. -/
theorem next_of_no_sample (again : List Arrival) (n : Nat) :
    let ended : Intake := { i.after (m + 1) with later := again }
    (ended.after n).next = (none, ended) := by
  intro ended
  have hclosed : ended.closed = true := closed_after h
  rw [after_of_closed hclosed, next_of_closed hclosed]

end

theorem exists_calls_eq (i : Intake) (count : Nat) :
    ∃ (samples : List Binary32) (failure : Option Failure) (nothings : Nat),
      (i.calls count).map Prod.fst =
        samples.map (fun x => some (.ok x)) ++ failure.toList.map (fun f => some (.error f)) ++
          List.replicate nothings none := by
  induction count generalizing i with
  | zero => exact ⟨[], none, 0, rfl⟩
  | succ count ih =>
    rw [calls, List.map_cons]
    rcases hitem : i.next.1 with _ | f | x
    · have hclosed : i.next.2.closed = true := closed_next (by simp [hitem])
      exact ⟨[], none, count + 1, by simp [calls_of_closed hclosed, List.replicate_succ]⟩
    · have hclosed : i.next.2.closed = true := closed_next (by simp [hitem])
      exact ⟨[], some f, count, by simp [calls_of_closed hclosed]⟩
    · obtain ⟨samples, failure, nothings, hrest⟩ := ih i.next.2
      exact ⟨x :: samples, failure, nothings, by rw [hrest]; rfl⟩

theorem line_le_after (i : Intake) {m n : Nat} (h : m ≤ n) : (i.after m).line ≤ (i.after n).line := by
  induction h with
  | refl => exact Nat.le_refl _
  | step _ ih =>
    rw [after_succ]
    exact Nat.le_trans ih (line_next _).1

theorem line_after_le (i : Intake) (n : Nat) : (i.after n).line ≤ i.line + i.linesLeft := by
  suffices h : (i.after n).line + (i.after n).linesLeft ≤ i.line + i.linesLeft by omega
  induction n with
  | zero => exact Nat.le_refl _
  | succ n ih =>
    rw [after_succ]
    exact Nat.le_trans (line_next _).2 ih

/-! ## The end of a text -/

theorem reading_of_calls {i : Intake} {samples : List Binary32} {count : Nat}
    (h : (i.calls count).map Prod.fst = samples.map (fun x => some (.ok x)) ++ [none]) :
    i.reading.failure = none ∧ i.reading.samples.map Prod.fst = samples := by
  have hgives := next_reading i
  induction samples generalizing i count with
  | nil =>
    cases count with
    | zero => cases h
    | succ count =>
      have hitem : i.next.1 = none := (List.cons.inj h).1
      rw [hitem] at hgives
      rw [hgives.eq_nothing]
      exact ⟨rfl, rfl⟩
  | cons x samples ih =>
    cases count with
    | zero => cases h
    | succ count =>
      obtain ⟨hitem, hrest⟩ := List.cons.inj h
      rw [hitem] at hgives
      obtain ⟨hfailure, hsamples⟩ := ih hrest (next_reading _)
      rw [hgives.eq_cons]
      exact ⟨hfailure, congrArg (x :: ·) hsamples⟩

end Intake

namespace Reading

theorem words_of_unfailing {line : Nat} {ws : List (List Char × Nat)}
    (h : (ofWords none line ws).failure = none) :
    (ws.map Prod.fst).map Binary32.ofText? = ((ofWords none line ws).samples.map Prod.fst).map some := by
  induction ws with
  | nil => rfl
  | cons w ws ih =>
    unfold ofWords at h ⊢
    cases hw : Binary32.ofText? w.1 with
    | none =>
      rw [hw] at h
      cases h
    | some x =>
      rw [hw] at h
      simp only [List.map_cons, hw, ih h, cons]

/-- What is read without a failure is a whole text. -/
theorem ofArrivals_of_no_failure {as : List Arrival} (h : (ofArrivals as).failure = none) :
    ∃ cs, Utf8.decode? (content as) = some cs ∧
      (words cs).map Binary32.ofText? = ((ofArrivals as).samples.map Prod.fst).map some := by
  have hnone : failure? as = none := by
    cases hfail : failure? as with
    | none => rfl
    | some e =>
      rw [ofArrivals, hfail, ofLines_error] at h
      cases h
  rw [ofArrivals_of_unfailing hnone] at h ⊢
  cases hdecode : Utf8.decode? (content as) with
  | none =>
    obtain ⟨cs, -, hreading⟩ := ofLines_ill_formed hdecode
    rw [hreading] at h
    exact absurd h (failure_ofWords_error _ _ _)
  | some cs =>
    have hwords : (placed cs).map Prod.fst = words cs := by
      rw [← map_fst_wordsAt 0 cs, placed, List.map_map]
      rfl
    rw [Utf8.eq_encode_of_decode? hdecode, ofLines_text] at h ⊢
    exact ⟨cs, rfl, by rw [← hwords, words_of_unfailing h]⟩

end Reading

/-- **How an intake ends, once and for good.** Whatever arrives, the calls give samples, then
at most one error, then nothing. After a call that gives no sample the intake gives nothing,
and nothing of it changes any more: not the count of lines, nor what is still to arrive, even
if that is something else by then, such as more input after the end. The count never goes
down, and never past the number of lines there are. And when nothing is given without an
error before it, every word of what has arrived has been given. -/
theorem calls_end (as : List Arrival) :
    let i : Intake := { later := as }
    (∀ count, i.calls count =
        (List.range count).map fun n => ((i.after n).next.1, (i.after (n + 1)).line)) ∧
      (∀ count, ∃ (samples : List Binary32) (failure : Option Failure) (nothings : Nat),
        (i.calls count).map Prod.fst =
          samples.map (fun x => some (.ok x)) ++ failure.toList.map (fun f => some (.error f)) ++
            List.replicate nothings none) ∧
      (∀ m n, m < n → (∀ x, (i.after m).next.1 ≠ some (.ok x)) →
        i.after n = i.after (m + 1) ∧ (i.after n).next.1 = none) ∧
      (∀ m, (∀ x, (i.after m).next.1 ≠ some (.ok x)) → ∀ (again : List Arrival) (n : Nat),
        let ended : Intake := { i.after (m + 1) with later := again }
        (ended.after n).next = (none, ended)) ∧
      (∀ m n, m ≤ n → (i.after m).line ≤ (i.after n).line) ∧
      (∀ n, (i.after n).line ≤ (lines (content as)).length) ∧
      ∀ count (samples : List Binary32),
        (i.calls count).map Prod.fst = samples.map (fun x => some (.ok x)) ++ [none] →
          ∃ cs, Utf8.decode? (content as) = some cs ∧
            (words cs).map Binary32.ofText? = samples.map some := by
  intro i
  refine ⟨i.calls_eq_map, i.exists_calls_eq, fun _ _ hlt h => Intake.after_of_no_sample h hlt,
    fun _ => Intake.next_of_no_sample, fun _ _ => i.line_le_after, fun n => ?_,
    fun count samples hcalls => ?_⟩
  · calc (i.after n).line ≤ i.line + i.linesLeft := i.line_after_le n
      _ = (delivered as).length := Nat.zero_add _
      _ ≤ (lines (content as)).length := length_delivered_le as
  · obtain ⟨hfailure, rfl⟩ := Intake.reading_of_calls hcalls
    exact Reading.ofArrivals_of_no_failure hfailure

/-- A word that is no numeral, with a word and a line still to come after it. -/
def spoiledInput : List Arrival :=
  [.bytes 0x31 [0x0A, 0x78, 0x20], .bytes 0x32 [0x0A], .error (.saying .other "gone"),
    .bytes 0x33 []]

/-- Two samples on the last two of three lines. -/
def soundInput : List Arrival :=
  [.bytes 0x0A [0x31], .error ⟨.interrupted, none⟩, .bytes 0x30 [0x0A, 0x32]]

theorem calls_end_early :
    let spoiled : Intake := { later := spoiledInput }
    let sound : Intake := { later := soundInput }
    let ended : Intake := { sound.after 3 with later := spoiledInput }
    (spoiled.after 1).next.1 = some (.error (.malformedSample "x" 2)) ∧
      (spoiled.after 4).waiting = [['2']] ∧
      (spoiled.after 4).later = [.error (.saying .other "gone"), .bytes 0x33 []] ∧
      (spoiled.after 4).next.1 = none ∧ (spoiled.after 4).line = 2 ∧
      (sound.calls 3).map Prod.fst =
        [some (.ok (.ofBits 0x41200000)), some (.ok (.ofBits 0x40000000)), none] ∧
      (sound.after 2).next.1 = none ∧ (ended.after 1).next = (none, ended) ∧
      ∃ cs, Utf8.decode? (content soundInput) = some cs ∧
        (words cs).map Binary32.ofText? =
          [some (.ofBits 0x41200000), some (.ofBits 0x40000000)] := by
  intro spoiled sound ended
  have herror : (spoiled.after 1).next.1 = some (.error (.malformedSample "x" 2)) := by
    decide +kernel
  have hcalls : (sound.calls 3).map Prod.fst =
      [some (.ok (.ofBits 0x41200000)), some (.ok (.ofBits 0x40000000)), none] := by
    rw [Intake.calls_eq, Intake.reading_fresh]
    decide +kernel
  have hend : (sound.after 2).next.1 = none := by decide +kernel
  obtain ⟨-, -, hstays, -⟩ := calls_end spoiledInput
  obtain ⟨hsame, hnothing⟩ := hstays 1 4 (by decide) fun x hx => nomatch herror.symm.trans hx
  obtain ⟨-, -, -, hleaves, -, -, hwords⟩ := calls_end soundInput
  have hended := hleaves 2 (fun x hx => nomatch hend.symm.trans hx) spoiledInput 1
  have hgiven := hwords 3 [.ofBits 0x41200000, .ofBits 0x40000000] hcalls
  refine ⟨herror, ?_, ?_, hnothing, ?_, hcalls, hend, hended, hgiven⟩ <;> rw [hsame] <;>
    decide +kernel

end LowPass
