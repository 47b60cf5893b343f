/-
Samples from input, one at a time.

An intake holds what is still to arrive, the words of the current line that
have not been handed out, and the number of that line. A line becomes words
only when it is complete: one that is no UTF-8 yields none and is not counted.
Once an intake has come to its end or to an error it is closed, and asks for
nothing more.
-/
import LowPass.Arrival
import LowPass.Decimal.Numeral
import LowPass.Failure
import LowPass.Text.Words

namespace LowPass

open Utf8 (length_le_of_decode?)

/-- Samples to be read. -/
structure Intake where
  later : List Arrival
  /-- the words of the current line that are still to be handed out -/
  waiting : List (List Char) := []
  /-- how many lines have been read -/
  line : Nat := 0
  closed : Bool := false
  deriving DecidableEq

namespace Intake

/-- What looking for the next line with a word comes to. -/
inductive Search where
  | found (word : List Char) (others : List (List Char)) (line : Nat) (later : List Arrival)
  | ended (line : Nat) (later : List Arrival)
  | failed (e : IoError) (line : Nat) (later : List Arrival)

/-- Reads lines, counting them, until one has a word. -/
def search (line : Nat) (as : List Arrival) : Search :=
  match _h : readLine as with
  | .failed e later => .failed e line later
  | .line [] later => .ended line later
  | .line (b :: bs) later =>
    match Utf8.decode? (b :: bs) with
    | none => .failed .notText line later
    | some cs =>
      match words cs with
      | [] => search (line + 1) later
      | word :: others => .found word others (line + 1) later
termination_by (Arrival.content as).length
decreasing_by exact length_content_readLine _h

/-- Hands out a word: its sample, or an error that closes the intake. -/
def handOut (i : Intake) (word : List Char) : Except Failure Binary32 × Intake :=
  match Binary32.ofText? word with
  | some sample => (.ok sample, i)
  | none => (.error (.malformedSample (.ofList word) i.line), { i with closed := true })

/-- The next sample or the error in its place; nothing once the intake is closed. -/
def next (i : Intake) : Option (Except Failure Binary32) × Intake :=
  if i.closed then (none, i)
  else match i.waiting with
    | word :: others =>
      let (item, i) := handOut { i with waiting := others } word
      (some item, i)
    | [] =>
      match search i.line i.later with
      | .found word others line later =>
        let (item, i) := handOut { later, line, waiting := others } word
        (some item, i)
      | .ended line later => (none, { later, line, closed := true })
      | .failed e line later => (some (.error (.io e)), { later, line, closed := true })

/-- The bytes still to arrive and the words that wait. A line has no more words
than bytes, so every sample takes from this. -/
def size (i : Intake) : Nat := (Arrival.content i.later).length + i.waiting.length

theorem search_found {line line' : Nat} {as later : List Arrival} {word : List Char}
    {others : List (List Char)} (h : search line as = .found word others line' later) :
    (Arrival.content later).length + others.length < (Arrival.content as).length := by
  fun_induction search line as with
  | case1 => cases h
  | case2 => cases h
  | case3 => cases h
  | case4 line as b bs rest hr cs _ _ ih => exact Nat.lt_trans (ih h) (length_content_readLine hr)
  | case5 line as b bs rest hr cs hd w ws hw =>
    cases h
    have hcs := length_le_of_decode? hd
    have hws : (words cs).length ≤ cs.length := length_segments_le ..
    rw [hw] at hws
    have hlen := congrArg List.length (content_readLine hr)
    simp only [List.length_append, List.length_cons] at *
    omega

theorem handOut_ok {i j : Intake} {word : List Char} {sample : Binary32}
    (h : handOut i word = (.ok sample, j)) : j = i := by
  simp only [handOut] at h
  split at h <;> simp_all

/-- Every sample makes the intake smaller. -/
theorem size_next {i j : Intake} {sample : Binary32} (h : i.next = (some (.ok sample), j)) :
    j.size < i.size := by
  simp only [next] at h
  split at h
  · simp at h
  · split at h
    · rename_i word others hw
      simp only [Prod.mk.injEq, Option.some.injEq] at h
      have hj := handOut_ok (Prod.ext h.1 h.2)
      subst hj
      simp only [size, hw, List.length_cons]
      omega
    · rename_i hw
      split at h
      · rename_i hs
        simp only [Prod.mk.injEq, Option.some.injEq] at h
        have hj := handOut_ok (Prod.ext h.1 h.2)
        subst hj
        have := search_found hs
        simp only [size, hw]
        omega
      · simp at h
      · simp at h

end Intake
end LowPass
