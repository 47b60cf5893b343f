/-
What a sink gets, buffered or not.

A sink takes bytes as far as it has room, and refuses only what is past that
(`pour_of_le`, `pour_of_lt`). So pouring in two goes is pouring at once
(`pour_append`).

A buffer in front of the sink makes no difference in the end: whatever the
pieces are and wherever the buffer has to be emptied, the sink gets what it
would get of all bytes at once, with the same failure (`deliver_eq`).
-/
import LowPass.Outlet

namespace LowPass
namespace Sink

/-- The reason that a sink without room gives, or is given. -/
def complaint (s : Sink) : IoError :=
  match s.refusal with
  | .error e _ => e
  | .takesNothing => .nothingWritten

/-- The sink after it has taken bytes. -/
def accept (s : Sink) (bs : Bytes) : Sink :=
  { s with taken := s.taken ++ bs, room := s.room.map (· - bs.length) }

@[simp] theorem accept_nil (s : Sink) : s.accept [] = s := by
  cases s
  simp [accept]

@[simp] theorem complaint_accept (s : Sink) (bs : Bytes) : (s.accept bs).complaint = s.complaint := rfl

theorem accept_append (s : Sink) (as bs : Bytes) :
    s.accept (as ++ bs) = (s.accept as).accept bs := by
  have htaken : s.taken ++ (as ++ bs) = s.taken ++ as ++ bs := by
    rw [← Array.toList_inj]
    simp
  simp only [accept, htaken, Option.map_map, mk.injEq, and_true, true_and]
  cases s.room with
  | none => rfl
  | some room => simp; omega

/-! ## Pouring -/

theorem pour_of_none {s : Sink} (hroom : s.room = none) (bs : Bytes) :
    s.pour bs = (.ok (), [], s.accept bs) := by
  cases bs with
  | nil => simp [pour]
  | cons b bs =>
    unfold pour
    simp only [offer, hroom, List.length_cons, List.drop_length]
    simp [pour, accept, hroom]

theorem pour_of_le {s : Sink} {room : Nat} (hroom : s.room = some room) {bs : Bytes}
    (h : bs.length ≤ room) : s.pour bs = (.ok (), [], s.accept bs) := by
  cases bs with
  | nil => simp [pour]
  | cons b bs =>
    obtain ⟨n, rfl⟩ : ∃ n, room = n + 1 := ⟨room - 1, by simp at h; omega⟩
    unfold pour
    simp only [offer, hroom, List.take_of_length_le h, List.length_cons, List.drop_length]
    simp [pour, accept, hroom]

theorem pour_of_full {s : Sink} (hroom : s.room = some 0) {bs : Bytes} (hbs : bs ≠ []) :
    s.pour bs = (.error s.complaint, bs, s) := by
  cases bs with
  | nil => exact absurd rfl hbs
  | cons b bs =>
    unfold pour complaint
    simp only [offer, hroom]
    cases s.refusal <;> rfl

theorem pour_of_lt {s : Sink} {room : Nat} (hroom : s.room = some room) {bs : Bytes}
    (h : room < bs.length) :
    s.pour bs = (.error s.complaint, bs.drop room, s.accept (bs.take room)) := by
  cases room with
  | zero =>
    rw [pour_of_full hroom (List.ne_nil_of_length_pos h)]
    simp
  | succ n =>
    cases bs with
    | nil => simp at h
    | cons b bs =>
      have hlen : ((b :: bs).take (n + 1)).length = n + 1 := by
        rw [List.length_take]
        omega
      have hrest : bs.drop n ≠ [] := by
        simp only [List.length_cons] at h
        simp only [ne_eq, List.drop_eq_nil_iff]
        omega
      unfold pour
      simp only [offer, hroom, hlen]
      rw [pour_of_full (by simp) hrest]
      simp only [accept, hroom, hlen, Option.map_some, complaint, List.drop_succ_cons]

/-- Pouring ends well, or the sink has room for too few. -/
theorem pour_cases (s : Sink) (bs : Bytes) :
    (s.pour bs = (.ok (), [], s.accept bs) ∧ ∀ room ∈ s.room, bs.length ≤ room) ∨
      ∃ room, s.room = some room ∧ room < bs.length ∧
        s.pour bs = (.error s.complaint, bs.drop room, s.accept (bs.take room)) := by
  cases hroom : s.room with
  | none => exact .inl ⟨pour_of_none hroom bs, nofun⟩
  | some room =>
    by_cases hbs : bs.length ≤ room
    · exact .inl ⟨pour_of_le hroom hbs, by simpa using hbs⟩
    · have hlt : room < bs.length := Nat.lt_of_not_le hbs
      exact .inr ⟨room, rfl, hlt, pour_of_lt hroom hlt⟩

/-- **Pouring in two goes is pouring at once.** -/
theorem pour_append (s : Sink) (as bs : Bytes) :
    s.pour (as ++ bs) =
      match s.pour as with
      | (.ok (), _, s) => s.pour bs
      | (.error e, left, s) => (.error e, left ++ bs, s) := by
  cases hroom : s.room with
  | none =>
    have hroom' : (s.accept as).room = none := by simp [accept, hroom]
    simp only [pour_of_none hroom, pour_of_none hroom', accept_append]
  | some room =>
    by_cases has : as.length ≤ room
    · have hroom' : (s.accept as).room = some (room - as.length) := by simp [accept, hroom]
      simp only [pour_of_le hroom has]
      by_cases hbs : bs.length ≤ room - as.length
      · have hall : (as ++ bs).length ≤ room := by
          rw [List.length_append]
          omega
        rw [pour_of_le hroom hall, pour_of_le hroom' hbs, accept_append]
      · have hall : room < (as ++ bs).length := by
          rw [List.length_append]
          omega
        rw [pour_of_lt hroom hall, pour_of_lt hroom' (Nat.lt_of_not_le hbs), complaint_accept,
          List.drop_append, List.drop_of_length_le has, List.take_append, List.take_of_length_le has,
          accept_append, List.nil_append]
    · have hlt : room < as.length := Nat.lt_of_not_le has
      have hall : room < (as ++ bs).length := by
        rw [List.length_append]
        omega
      simp only [pour_of_lt hroom hlt, pour_of_lt hroom hall,
        List.drop_append_of_le_length (Nat.le_of_lt hlt),
        List.take_append_of_le_length (Nat.le_of_lt hlt)]

theorem left_of_pour_ok {s s' : Sink} {bs left : Bytes} (h : s.pour bs = (.ok (), left, s')) :
    left = [] := by
  rcases pour_cases s bs with ⟨hpour, -⟩ | ⟨room, -, -, hpour⟩ <;> rw [hpour] at h <;> cases h
  rfl

theorem full_of_pour_error {s s' : Sink} {bs left : Bytes} {e : IoError}
    (h : s.pour bs = (.error e, left, s')) :
    s'.room = some 0 ∧ left ≠ [] ∧ e = s'.complaint := by
  rcases pour_cases s bs with ⟨hpour, -⟩ | ⟨room, hroom, hlt, hpour⟩ <;> rw [hpour] at h <;> cases h
  refine ⟨?_, ?_, rfl⟩
  · simp [accept, hroom, Nat.min_eq_left (Nat.le_of_lt hlt)]
  · rw [ne_eq, List.drop_eq_nil_iff]
    omega

theorem pour_left {s s' : Sink} {bs left : Bytes} {e : IoError}
    (h : s.pour bs = (.error e, left, s')) : s'.pour left = (.error e, left, s') := by
  obtain ⟨hfull, hleft, rfl⟩ := full_of_pour_error h
  exact pour_of_full hfull hleft

end Sink

/-! ## Behind a buffer -/

namespace Outlet

/-- Pieces put one after another, and then the end, whether all went well or not. -/
def deliver (o : Outlet) (pieces : List Bytes) : Except IoError Unit × Sink :=
  match o.putAll pieces with
  | (.ok (), o) => o.close
  | (.error e, o) => (.error e, o.abandon)

theorem deliver_append (o : Outlet) (first pieces : List Bytes) :
    o.deliver (first ++ pieces) =
      match o.putAll first with
      | (.ok (), o) => o.deliver pieces
      | (.error e, o) => (.error e, o.abandon) := by
  induction first generalizing o with
  | nil => rfl
  | cons piece first ih =>
    have hcons : ∀ o' : Outlet, o.put piece = (.ok (), o') →
        o.deliver (piece :: (first ++ pieces)) = o'.deliver (first ++ pieces) := by
      intro o' hput
      simp only [deliver, putAll, hput]
    rcases hput : o.put piece with ⟨e | ⟨⟩, o'⟩
    · simp only [List.cons_append, deliver, putAll, hput]
    · rw [List.cons_append, hcons o' hput, ih]
      simp only [putAll, hput]

theorem close_eq (o : Outlet) :
    o.close = ((o.sink.pour o.held.toList).1, (o.sink.pour o.held.toList).2.2) := by
  unfold close flush
  rcases hpour : o.sink.pour o.held.toList with ⟨e | ⟨⟩, left, s⟩
  · simp only [abandon, flush, Sink.pour_left hpour]
  · rfl

theorem abandon_of_put_error {o o' : Outlet} {piece : Bytes} {e : IoError}
    (h : o.put piece = (.error e, o')) :
    ∃ left, o.sink.pour o.held.toList = (.error e, left, o'.sink) ∧ o'.abandon = o'.sink := by
  unfold put flush at h
  split at h
  · cases h
  · rcases hpour : o.sink.pour o.held.toList with ⟨e' | ⟨⟩, left, s⟩ <;> rw [hpour] at h <;> cases h
    refine ⟨left, rfl, ?_⟩
    simp only [abandon, flush, Sink.pour_left hpour]

/-- An accepted piece is poured with what is held, sooner or later. -/
theorem pour_of_put_ok {o o' : Outlet} {piece : Bytes} (h : o.put piece = (.ok (), o')) (bs : Bytes) :
    o.sink.pour (o.held.toList ++ (piece ++ bs)) = o'.sink.pour (o'.held.toList ++ bs) := by
  unfold put flush at h
  split at h
  · cases h
    simp [hold]
  · rcases hpour : o.sink.pour o.held.toList with ⟨e | ⟨⟩, left, s⟩ <;> rw [hpour] at h <;> cases h
    obtain rfl := Sink.left_of_pour_ok hpour
    simp [Sink.pour_append, hpour, hold]

/-- **A sink gets through a buffer what it would get at once.** -/
theorem deliver_eq (o : Outlet) (pieces : List Bytes) :
    o.deliver pieces =
      ((o.sink.pour (o.held.toList ++ pieces.flatten)).1,
        (o.sink.pour (o.held.toList ++ pieces.flatten)).2.2) := by
  induction pieces generalizing o with
  | nil => simp only [deliver, putAll, close_eq, List.flatten_nil, List.append_nil]
  | cons piece pieces ih =>
    unfold deliver putAll
    rcases hput : o.put piece with ⟨e | ⟨⟩, o'⟩
    · obtain ⟨left, hpour, habandon⟩ := abandon_of_put_error hput
      simp only [List.flatten_cons, Sink.pour_append, hpour, habandon]
    · rw [List.flatten_cons, pour_of_put_ok hput]
      exact ih o'

end Outlet
end LowPass
