/-
What is read of an input, told from its lines alone.

The lines up to the first that is no UTF-8 are texts (`readable`), and their
words are taken in order, each with the number of its line (`numbered`). Every
word is a sample, up to the first that is no numeral. So a reading is some
samples, then at most one failure, and the count of lines from then on.

`next_reading` says of one call on an intake that it takes the front of its
reading; `calls_eq`, that this is so for any number of calls.
-/
import LowPass.Intake
import LowPass.Proofs.Delivery

namespace LowPass

open Arrival

/-- The texts of the lines before the first that is no UTF-8. -/
def readable : List Bytes → List (List Char)
  | [] => []
  | l :: ls =>
    match Utf8.decode? l with
    | none => []
    | some cs => cs :: readable ls

theorem length_readable_eq {ls : List Bytes} :
    (readable ls).length = ls.length ↔ ls.any (fun l => (Utf8.decode? l).isNone) = false := by
  induction ls with
  | nil => simp [readable]
  | cons l ls ih =>
    unfold readable
    cases hl : Utf8.decode? l with
    | none => simp [hl]
    | some cs => simp [hl, ih]

/-- The words of texts, each with the number of its text. The first text is
number `n + 1`. -/
def numbered (n : Nat) : List (List Char) → List (List Char × Nat)
  | [] => []
  | cs :: texts => (words cs).map (·, n + 1) ++ numbered (n + 1) texts

/-- What is read of an input: samples, each with the number of its line, the
failure after them, if there is one, and the count of lines in the end. -/
structure Reading where
  samples : List (Binary32 × Nat)
  failure : Option Failure
  line : Nat

namespace Reading

def cons (sample : Binary32 × Nat) (r : Reading) : Reading :=
  { r with samples := sample :: r.samples }

/-- What is read of numbered words when an error or the end follows them. -/
def ofWords (e : Option IoError) (line : Nat) : List (List Char × Nat) → Reading
  | [] => ⟨[], e.map .io, line⟩
  | (word, n) :: more =>
    match Binary32.ofText? word with
    | some x => (ofWords e line more).cons (x, n)
    | none => ⟨[], some (.malformedSample (.ofList word) n), n⟩

section
variable (e : Option IoError) (line : Nat) (ws : List (List Char × Nat))

theorem samples_ofWords :
    (ofWords e line ws).samples.map Prod.fst =
      (ws.takeWhile fun w => (Binary32.ofText? w.1).isSome).filterMap
        fun w => Binary32.ofText? w.1 := by
  induction ws with
  | nil => rfl
  | cons w ws ih =>
    unfold ofWords
    cases hw : Binary32.ofText? w.1 with
    | none => simp [hw]
    | some x => simp [hw, cons, ih]

/-- The first word that is no numeral is the failure; without one, the end is
what follows the words. -/
theorem failure_ofWords :
    ((ofWords e line ws).failure, (ofWords e line ws).line) =
      match ws.dropWhile fun w => (Binary32.ofText? w.1).isSome with
      | (word, n) :: _ => (some (.malformedSample (.ofList word) n), n)
      | [] => (e.map .io, line) := by
  induction ws with
  | nil => rfl
  | cons w ws ih =>
    unfold ofWords
    cases hw : Binary32.ofText? w.1 with
    | none => simp [hw]
    | some x => simpa [hw, cons] using ih

end

/-- What is read of words that wait on line `n` and of the lines after it, which
an error or the end follows. A line that is no UTF-8 comes before either. -/
def ofLines (n : Nat) (waiting : List (List Char)) (ls : List Bytes) (e : Option IoError) : Reading :=
  ofWords (if (readable ls).length = ls.length then e else some .notText)
    (n + (readable ls).length) (waiting.map (·, n) ++ numbered n (readable ls))

theorem ofLines_nil (n : Nat) (e : Option IoError) : ofLines n [] [] e = ⟨[], e.map .io, n⟩ := rfl

theorem ofLines_word (n : Nat) (word : List Char) (waiting : List (List Char)) (ls : List Bytes)
    (e : Option IoError) :
    ofLines n (word :: waiting) ls e =
      match Binary32.ofText? word with
      | some x => (ofLines n waiting ls e).cons (x, n)
      | none => ⟨[], some (.malformedSample (.ofList word) n), n⟩ := rfl

theorem ofLines_undecodable {l : Bytes} (hl : Utf8.decode? l = none) (n : Nat) (ls : List Bytes)
    (e : Option IoError) : ofLines n [] (l :: ls) e = ⟨[], some (.io .notText), n⟩ := by
  simp [ofLines, readable, hl, numbered, ofWords]

theorem ofLines_line {l : Bytes} {cs : List Char} (hl : Utf8.decode? l = some cs) (n : Nat)
    (ls : List Bytes) (e : Option IoError) :
    ofLines n [] (l :: ls) e = ofLines (n + 1) (words cs) ls e := by
  simp only [ofLines, readable, hl, numbered, List.length_cons, Nat.add_right_cancel_iff,
    List.map_nil, List.nil_append]
  congr 1
  omega

/-- A call on what is to be read gives the item in front, with the count of
lines, and leaves the rest. -/
inductive Gives : Reading → Option (Except Failure Binary32) → Nat → Reading → Prop
  | sample (x : Binary32) (n : Nat) (r : Reading) : Gives (r.cons (x, n)) (some (.ok x)) n r
  | failure (f : Failure) (n : Nat) : Gives ⟨[], some f, n⟩ (some (.error f)) n ⟨[], none, n⟩
  | nothing (n : Nat) : Gives ⟨[], none, n⟩ none n ⟨[], none, n⟩

theorem Gives.eq_cons {r r' : Reading} {x : Binary32} {n : Nat} (h : r.Gives (some (.ok x)) n r') :
    r = r'.cons (x, n) := by
  cases h
  rfl

theorem Gives.eq_failure {r r' : Reading} {f : Failure} {n : Nat}
    (h : r.Gives (some (.error f)) n r') : r = ⟨[], some f, n⟩ := by
  cases h
  rfl

theorem Gives.eq_nothing {r r' : Reading} {n : Nat} (h : r.Gives none n r') : r = ⟨[], none, n⟩ := by
  cases h
  rfl

/-- The items that are handed out, each with the count of lines at that time. -/
def items (r : Reading) : List (Option (Except Failure Binary32) × Nat) :=
  r.samples.map (fun (x, n) => (some (.ok x), n)) ++
    r.failure.toList.map fun f => (some (.error f), r.line)

/-- What so many calls give: the items, and then nothing any more. -/
def calls (r : Reading) (count : Nat) : List (Option (Except Failure Binary32) × Nat) :=
  (r.items ++ List.replicate count (none, r.line)).take count

theorem calls_of_gives {r r' : Reading} {item : Option (Except Failure Binary32)} {n : Nat}
    (h : r.Gives item n r') (count : Nat) : r.calls (count + 1) = (item, n) :: r'.calls count := by
  cases h with
  | sample x =>
    simp only [calls, items, cons, List.map_cons, List.cons_append, List.take_succ_cons,
      List.replicate_succ', ← List.append_assoc]
    rw [List.take_append_of_le_length]
    simp only [List.length_append, List.length_replicate]
    omega
  | failure f => simp [calls, items, List.take_replicate]
  | nothing => simp [calls, items, List.replicate_succ]

end Reading

namespace Intake

/-- What so many calls give, each item with the count of lines after the call. -/
def calls (i : Intake) : Nat → List (Option (Except Failure Binary32) × Nat)
  | 0 => []
  | count + 1 => (i.next.1, i.next.2.line) :: i.next.2.calls count

/-- What is still to be read of an intake. -/
def reading (i : Intake) : Reading :=
  if i.closed then ⟨[], none, i.line⟩
  else .ofLines i.line i.waiting (delivered i.later) (failure? i.later)

/-- Looking for the next word passes over lines that have none. -/
theorem search_reading (line : Nat) (as : List Arrival) :
    match search line as with
    | .found word others line' later =>
      Reading.ofLines line [] (delivered as) (failure? as) =
        .ofLines line' (word :: others) (delivered later) (failure? later)
    | .ended line' _ => Reading.ofLines line [] (delivered as) (failure? as) = ⟨[], none, line'⟩
    | .failed e line' _ =>
      Reading.ofLines line [] (delivered as) (failure? as) = ⟨[], some (.io e), line'⟩ := by
  fun_induction search line as with
  | case1 line as e later hread =>
    have h := readLine_delivered as
    rw [hread] at h
    simp only [h.1, h.2, Reading.ofLines_nil, Option.map_some]
  | case2 line as later hread =>
    have h := readLine_delivered as
    rw [hread] at h
    simp only [h.2.1, h.2.2, Reading.ofLines_nil, Option.map_none]
  | case3 line as b bs later hread hdecode =>
    have h := readLine_delivered as
    rw [hread] at h
    simp only [h.1, Reading.ofLines_undecodable hdecode]
  | case4 line as b bs later hread cs hdecode hwords ih =>
    have h := readLine_delivered as
    rw [hread] at h
    simp only [h.1, h.2, Reading.ofLines_line hdecode, hwords]
    exact ih
  | case5 line as b bs later hread cs hdecode word others hwords =>
    have h := readLine_delivered as
    rw [hread] at h
    simp only [h.1, h.2, Reading.ofLines_line hdecode, hwords]

theorem handOut_reading {i : Intake} (hi : i.closed = false) (word : List Char) :
    ({ i with waiting := word :: i.waiting } : Intake).reading.Gives
      (some (handOut i word).1) (handOut i word).2.line (handOut i word).2.reading := by
  unfold handOut
  cases hword : Binary32.ofText? word with
  | some x =>
    simp only [reading, hi, Reading.ofLines_word, hword]
    exact .sample x ..
  | none =>
    simp only [reading, hi, Reading.ofLines_word, hword]
    exact .failure ..

/-- **A call gives the front of what is to be read and leaves the rest.** -/
theorem next_reading (i : Intake) :
    i.reading.Gives i.next.1 i.next.2.line i.next.2.reading := by
  unfold next
  split
  · rename_i hc
    simp only [reading, hc]
    exact .nothing ..
  · rename_i hc
    have hc : i.closed = false := by simpa using hc
    split
    · rename_i word others hw
      have hi : ({ i with waiting := word :: others } : Intake) = i := by rw [← hw]
      have h := handOut_reading (i := { i with waiting := others }) hc word
      rwa [hi] at h
    · rename_i hw
      have hi : i.reading = .ofLines i.line [] (delivered i.later) (failure? i.later) := by
        simp [reading, hc, hw]
      have hs := search_reading i.line i.later
      rw [← hi] at hs
      split
      · rename_i word others line later hsearch
        rw [hsearch] at hs
        rw [hs]
        exact handOut_reading (i := { later, line, waiting := others }) rfl word
      · rename_i hsearch
        rw [hsearch] at hs
        rw [hs]
        exact .nothing ..
      · rename_i hsearch
        rw [hsearch] at hs
        rw [hs]
        exact .failure ..

/-- **Any number of calls give what is to be read, and then nothing.** -/
theorem calls_eq (i : Intake) (count : Nat) : i.calls count = i.reading.calls count := by
  induction count generalizing i with
  | zero => simp [calls, Reading.calls]
  | succ count ih => rw [calls, ih, Reading.calls_of_gives (next_reading i)]

end Intake
end LowPass
