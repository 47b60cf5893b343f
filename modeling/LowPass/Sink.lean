/-
Where bytes go. A sink takes bytes up to its room, a part of what it is offered
if need be; with no room left it refuses with an error or takes nothing.

`pour` offers bytes until all are taken or the sink fails. Then what the sink
has taken, and what is left, are exactly what there was (`taken_pour`).
-/
import LowPass.IoError
import LowPass.Text.Utf8

namespace LowPass

/-- What a sink does when it is offered bytes and has no room. An interruption
refuses nothing: the same bytes would be offered again. -/
inductive Sink.Refusal where
  | error (e : IoError) (final : e.kind ≠ .interrupted := by decide)
  /-- it takes none, and says that this was no error -/
  | takesNothing
  deriving DecidableEq

structure Sink where
  taken : Array UInt8 := #[]
  /-- how many bytes it still takes; any number, if not said -/
  room : Option Nat := none
  refusal : Sink.Refusal := .takesNothing
  deriving DecidableEq

namespace Sink

/-- Offers bytes once: how many of them were taken, from the front. -/
def offer (s : Sink) (bs : Bytes) : Except IoError Nat × Sink :=
  match s.room with
  | none => (.ok bs.length, { s with taken := s.taken ++ bs })
  | some 0 =>
    match s.refusal with
    | .error e _ => (.error e, s)
    | .takesNothing => (.ok 0, s)
  | some (n + 1) =>
    let part := bs.take (n + 1)
    (.ok part.length, { s with taken := s.taken ++ part, room := some (n + 1 - part.length) })

/-- Offers bytes until the sink has taken all of them, or fails; what it has not
taken is left. -/
def pour (s : Sink) (bs : Bytes) : Except IoError Unit × Bytes × Sink :=
  match bs with
  | [] => (.ok (), [], s)
  | b :: rest =>
    match s.offer (b :: rest) with
    | (.error e, s) => (.error e, b :: rest, s)
    | (.ok 0, s) => (.error .nothingWritten, b :: rest, s)
    | (.ok (n + 1), s) => s.pour (rest.drop n)
termination_by bs.length
decreasing_by simp only [List.length_cons, List.length_drop]; omega

theorem taken_offer {s t : Sink} {bs : Bytes} {n : Nat} (h : s.offer bs = (.ok n, t)) :
    t.taken.toList ++ bs.drop n = s.taken.toList ++ bs := by
  simp only [offer] at h
  split at h
  · cases h; simp
  · split at h <;> cases h
    rfl
  · rename_i m _
    cases h
    simp only [Array.toList_appendList, List.append_assoc, List.length_take,
      List.append_cancel_left_eq]
    rcases Nat.le_total (m + 1) bs.length with hle | hle
    · rw [Nat.min_eq_left hle, List.take_append_drop]
    · rw [Nat.min_eq_right hle, List.take_of_length_le hle, List.drop_length, List.append_nil]

theorem taken_offer_error {s t : Sink} {bs : Bytes} {e : IoError}
    (h : s.offer bs = (.error e, t)) : t = s := by
  simp only [offer] at h
  split at h
  · cases h
  · split at h <;> cases h
    rfl
  · cases h

/-- Pouring neither loses, repeats nor reorders a byte. -/
theorem taken_pour (s : Sink) (bs : Bytes) :
    (s.pour bs).2.2.taken.toList ++ (s.pour bs).2.1 = s.taken.toList ++ bs := by
  fun_induction pour s bs with
  | case1 => rfl
  | case2 s b rest e t h => simp [taken_offer_error h]
  | case3 s b rest t h => simpa using taken_offer h
  | case4 s b rest n t h ih => rw [ih]; simpa using taken_offer h

end Sink
end LowPass
