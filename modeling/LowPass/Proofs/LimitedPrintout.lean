/-
A printout into a sink with limited room, going on after failures.

A piece is refused only when what is held does not fit into the sink. Then the sink is
full, and some of what is held can never leave (`Stuck`): pieces that are accepted later
are held behind it. So the sink gets a beginning of all that was ever given to the outlet,
whether it was accepted or not (`Given`), and `close` says whether it got all.

What is reported as written is in the sink or in the buffer, and neither can have more
than its size (`Bounded.length_view_le`), for no piece of a line is larger than the buffer.
-/
import LowPass.Proofs.Decimal.Millionths
import LowPass.Proofs.LimitedSink

namespace LowPass

theorem size_append_bytes (as : Array UInt8) (bs : Bytes) : (as ++ bs).size = as.size + bs.length := by
  simp only [← Array.length_toList, Array.toList_appendList, List.length_append]

namespace Sink

/-- How many bytes a sink takes in all. -/
def limit (s : Sink) : Option Nat := s.room.map (s.taken.size + ·)

theorem limit_accept {s : Sink} {bs : Bytes} (h : ∀ room ∈ s.room, bs.length ≤ room) :
    (s.accept bs).limit = s.limit := by
  unfold limit accept
  rw [size_append_bytes]
  cases hroom : s.room with
  | none => rfl
  | some room =>
    have := h room hroom
    simp only [Option.map_some, Option.some.injEq]
    omega

theorem limit_pour (s : Sink) (bs : Bytes) : (s.pour bs).2.2.limit = s.limit := by
  rcases pour_cases s bs with ⟨hpour, hroom⟩ | ⟨room, hroom, hlt, hpour⟩ <;> rw [hpour]
  · exact limit_accept hroom
  · refine limit_accept fun room' h => ?_
    rw [hroom] at h
    cases h
    exact List.length_take_le room bs

theorem length_left_le (s : Sink) (bs : Bytes) : (s.pour bs).2.1.length ≤ bs.length := by
  rcases pour_cases s bs with ⟨hpour, -⟩ | ⟨room, -, -, hpour⟩ <;> rw [hpour]
  · exact Nat.zero_le _
  · rw [List.length_drop]
    omega

theorem size_taken_le {s : Sink} {cap : Nat} (h : s.limit = some cap) : s.taken.size ≤ cap := by
  obtain ⟨room, -, hcap⟩ := Option.map_eq_some_iff.1 h
  omega

end Sink

namespace Outlet

/-! ## What has been given to an outlet -/

section
variable (s : Sink) (bs : Bytes) (o : Outlet)

/-- An outlet on a sink that has accepted all these bytes. -/
def Accepted : Prop := ∀ more, o.sink.pour (o.held.toList ++ more) = s.pour (bs ++ more)

/-- An outlet on a sink that is too small for these bytes: the sink is full, and what is
held stays. -/
structure Stuck : Prop where
  full : o.sink.room = some 0
  holding : o.held.toList ≠ []
  lost : ∃ left, s.pour bs = (.error o.sink.complaint, left, o.sink)

/-- An outlet on a sink when these bytes have been given to it. -/
def Given : Prop := o.Accepted s bs ∨ o.Stuck s bs

end

section
variable {s : Sink} {bs : Bytes} {o o' : Outlet}

theorem given_nil (s : Sink) : ({ sink := s } : Outlet).Given s [] := .inl fun _ => rfl

theorem Stuck.append (h : o.Stuck s bs) (more : Bytes) : o.Stuck s (bs ++ more) := by
  obtain ⟨hfull, hholding, left, hlost⟩ := h
  exact ⟨hfull, hholding, left ++ more, by rw [Sink.pour_append, hlost]⟩

theorem Stuck.flush (h : o.Stuck s bs) : o.flush = (.error o.sink.complaint, o) := by
  rw [Outlet.flush, Sink.pour_of_full h.full h.holding]

/-- Later pieces are held behind what is stuck, or refused. -/
theorem Stuck.put (h : o.Stuck s bs) (piece : Bytes) : (o.put piece).2.Stuck s bs := by
  unfold Outlet.put
  rw [h.flush]
  split
  · exact ⟨h.full, by simp [hold, h.holding], h.lost⟩
  · exact h

theorem Accepted.pour (h : o.Accepted s bs) : o.sink.pour o.held.toList = s.pour bs := by
  have hpour := h []
  rwa [List.append_nil, List.append_nil] at hpour

theorem Accepted.put (h : o.Accepted s bs) {piece : Bytes} (hput : o.put piece = (.ok (), o')) :
    o'.Accepted s (bs ++ piece) := by
  intro more
  rw [List.append_assoc, ← h, pour_of_put_ok hput]

/-- A piece is refused only if what was given before it is too much already. -/
theorem Accepted.stuck (h : o.Accepted s bs) {piece : Bytes} {e : IoError}
    (hput : o.put piece = (.error e, o')) : o'.Stuck s bs := by
  unfold Outlet.put Outlet.flush at hput
  split at hput
  · cases hput
  · rcases hflush : o.sink.pour o.held.toList with ⟨e' | ⟨⟩, left, t⟩ <;> rw [hflush] at hput <;>
      cases hput
    obtain ⟨hfull, hleft, rfl⟩ := Sink.full_of_pour_error hflush
    exact ⟨hfull, hleft, left, by rw [← h.pour, hflush]⟩

/-- **Pieces that are given**, all of them or up to the first that is refused. -/
theorem Given.putAll (h : o.Given s bs) (pieces : List Bytes) :
    match o.putAll pieces with
    | (.ok (), o') => o'.Given s (bs ++ pieces.flatten)
    | (.error _, o') => o'.Stuck s (bs ++ pieces.flatten) := by
  induction pieces generalizing o bs with
  | nil => simpa [Outlet.putAll] using h
  | cons piece pieces ih =>
    rw [Outlet.putAll, List.flatten_cons, ← List.append_assoc]
    rcases hput : o.put piece with ⟨e | ⟨⟩, o'⟩
    · have hstuck : o'.Stuck s bs := by
        rcases h with h | h
        · exact h.stuck hput
        · simpa [hput] using h.put piece
      exact (hstuck.append piece).append pieces.flatten
    · refine ih ?_
      rcases h with h | h
      · exact .inl (h.put hput)
      · have hstuck := h.put piece
        rw [hput] at hstuck
        exact .inr (hstuck.append piece)

/-- In the end the sink has what it would have got at once, and says what it would have
said. -/
theorem Given.close (h : o.Given s bs) : o.close = ((s.pour bs).1, (s.pour bs).2.2) := by
  rcases h with h | h
  · rw [close_eq, h.pour]
  · obtain ⟨left, hlost⟩ := h.lost
    rw [close_eq, Sink.pour_of_full h.full h.holding, hlost]

end

/-! ## How much there is -/

/-- A sink that takes so many bytes, and no more held than can be. -/
structure Bounded (cap : Nat) (o : Outlet) : Prop where
  limit : o.sink.limit = some cap
  held : o.held.size ≤ capacity

theorem size_hold (o : Outlet) (piece : Bytes) :
    (o.hold piece).held.size = o.held.size + piece.length := size_append_bytes o.held piece

section
variable {cap : Nat} {o : Outlet} (h : o.Bounded cap)
include h

theorem Bounded.length_view_le : o.view.length ≤ cap + capacity := by
  have htaken := Sink.size_taken_le h.limit
  have hheld := h.held
  rw [view, List.length_append, Array.length_toList, Array.length_toList]
  omega

theorem Bounded.put {piece : Bytes} (hpiece : piece.length ≤ capacity) :
    (o.put piece).2.Bounded cap := by
  have hlimit := (Sink.limit_pour o.sink o.held.toList).trans h.limit
  have hleft := Sink.length_left_le o.sink o.held.toList
  have hheld := h.held
  unfold Outlet.put Outlet.flush
  split
  · rename_i hfits
    exact ⟨h.limit, by rwa [size_hold]⟩
  · rcases hpour : o.sink.pour o.held.toList with ⟨e | ⟨⟩, left, t⟩ <;> rw [hpour] at hlimit hleft
    · exact ⟨hlimit, Nat.le_trans hleft hheld⟩
    · obtain rfl := Sink.left_of_pour_ok hpour
      refine ⟨hlimit, ?_⟩
      rw [size_hold]
      simpa using hpiece

theorem Bounded.putAll {pieces : List Bytes} (hpieces : ∀ piece ∈ pieces, piece.length ≤ capacity) :
    (o.putAll pieces).2.Bounded cap := by
  induction pieces generalizing o with
  | nil => exact h
  | cons piece pieces ih =>
    have hnext := h.put (hpieces piece List.mem_cons_self)
    rw [Outlet.putAll]
    rcases hput : o.put piece with ⟨e | ⟨⟩, o'⟩ <;> rw [hput] at hnext
    · exact hnext
    · exact ih hnext fun p hp => hpieces p (List.mem_cons_of_mem piece hp)

end

theorem length_view_putAll (o : Outlet) (pieces : List Bytes) :
    match o.putAll pieces with
    | (.ok (), o') => o'.view.length = o.view.length + pieces.flatten.length
    | (.error _, o') => o.view.length ≤ o'.view.length := by
  induction pieces generalizing o with
  | nil => rfl
  | cons piece pieces ih =>
    rw [putAll]
    rcases hput : o.put piece with ⟨e | ⟨⟩, o'⟩
    · exact Nat.le_of_eq (by rw [view_put_error hput])
    · have hview := view_put_ok hput
      have hih := ih o'
      dsimp only
      rw [List.flatten_cons, List.length_append]
      split at hih
      · rw [hih, hview, List.length_append, Nat.add_assoc]
      · rw [hview, List.length_append] at hih
        omega

end Outlet

/-! ## The pieces of a line -/

theorem Utf8.length_encode_le (cs : List Char) : (encode cs).length ≤ 4 * cs.length := by
  induction cs with
  | nil => exact Nat.zero_le _
  | cons c cs ih =>
    have hc : (String.utf8EncodeChar c).length ≤ 4 := by
      rw [String.length_utf8EncodeChar]
      exact Char.utf8Size_le_four c
    rw [encode] at ih ⊢
    rw [List.flatMap_cons, List.length_append, List.length_cons]
    omega

namespace Fixed

theorem length_toDigits_millionths {mag : Nat} (h : Representable mag) :
    (Nat.toDigits 10 (millionths mag)).length ≤ 100 := by
  have hle : millionths mag ≤ mag * 1000000 := by
    rw [millionths_eq]
    exact nearestEven_le_of_le (Nat.two_pow_pos 149) (Nat.le_mul_of_pos_right _ (Nat.two_pow_pos 149))
  refine Nat.toDigits_length 10 _ 100 (by decide) ?_
  calc millionths mag ≤ mag * 1000000 := hle
    _ ≤ magLimit * 1000000 := Nat.mul_le_mul_right _ (Nat.le_of_lt h.lt)
    _ < 10 ^ 100 := by decide

theorem length_le_of_mem_pieces {count bound : Nat} (hbound : 6 ≤ bound)
    (h : (Nat.toDigits 10 count).length ≤ bound) :
    ∀ piece ∈ pieces count, piece.length ≤ bound := by
  unfold pieces places
  dsimp only
  split_ifs <;>
    simp only [List.forall_mem_cons, List.not_mem_nil, false_implies, implies_true, and_true,
      List.length_cons, List.length_nil, List.length_replicate, List.length_take, List.length_drop] <;>
    omega

end Fixed

namespace Binary32

theorem length_fixedPieces_le (x : Binary32) : ∀ piece ∈ x.fixedPieces, piece.length ≤ 100 := by
  cases x with
  | nan => decide
  | infinite negative => cases negative <;> decide
  | finite negative mag fits =>
    intro piece hpiece
    rcases List.mem_append.1 hpiece with hsign | hpiece
    · cases negative with
      | false => cases hsign
      | true =>
        obtain rfl := List.mem_singleton.1 hsign
        decide
    · exact Fixed.length_le_of_mem_pieces (by decide) (Fixed.length_toDigits_millionths fits) _ hpiece

theorem length_linePieces_le (x : Binary32) :
    ∀ piece ∈ x.linePieces, piece.length ≤ Outlet.capacity := by
  intro piece hpiece
  obtain ⟨cs, hcs, rfl⟩ := List.mem_map.1 hpiece
  have hcs : cs.length ≤ 100 := by
    rcases List.mem_append.1 hcs with hcs | hcs
    · exact x.length_fixedPieces_le cs hcs
    · obtain rfl := List.mem_singleton.1 hcs
      decide
  have hlength := Utf8.length_encode_le cs
  unfold Outlet.capacity
  omega

end Binary32

/-! ## Samples printed one after another -/

namespace Printout

open Outlet

section
variable {s : Sink} {bs : Bytes} {p : Printout}

theorem given_print (h : p.outlet.Given s bs) (x : Binary32) :
    (p.print x).2.outlet.Given s (bs ++ x.line) ∧
      ∀ e, (p.print x).1 = .error e → ∃ e', (s.pour (bs ++ x.line)).1 = .error e' := by
  have hall := h.putAll x.linePieces
  unfold print
  rw [Binary32.line]
  rcases hput : p.outlet.putAll x.linePieces with ⟨e | ⟨⟩, o⟩ <;> rw [hput] at hall
  · obtain ⟨left, hlost⟩ := hall.lost
    exact ⟨.inr hall, fun _ _ => ⟨_, by rw [hlost]⟩⟩
  · refine ⟨hall, fun _ he => ?_⟩
    cases he

/-- **A sample that fails** is one with which there is too much for the sink. -/
theorem given_printAll (h : p.outlet.Given s bs) (xs : List Binary32) :
    (p.printAll xs).2.outlet.Given s (bs ++ xs.flatMap Binary32.line) ∧
      ∀ i e n, (p.printAll xs).1[i]? = some (.error e, n) →
        ∃ e', (s.pour (bs ++ (xs.take (i + 1)).flatMap Binary32.line)).1 = .error e' := by
  induction xs generalizing p bs with
  | nil => exact ⟨by simpa [printAll] using h, by simp [printAll]⟩
  | cons x xs ih =>
    obtain ⟨hprint, hfailed⟩ := given_print h x
    obtain ⟨hlast, hall⟩ := ih hprint
    rw [List.append_assoc] at hlast
    refine ⟨hlast, fun i e n hi => ?_⟩
    cases i with
    | zero =>
      simp only [printAll, List.getElem?_cons_zero, Option.some.injEq, Prod.mk.injEq] at hi
      simpa using hfailed e hi.1
    | succ i =>
      have hlater := hall i e n hi
      rwa [List.append_assoc] at hlater

end

theorem written_print (p : Printout) (x : Binary32) :
    (p.print x).2.written = p.written + if (p.print x).1.isOk then 1 else 0 := by
  unfold print
  rcases p.outlet.putAll x.linePieces with ⟨e | ⟨⟩, o⟩ <;> rfl

theorem length_printAll (p : Printout) (xs : List Binary32) :
    (p.printAll xs).1.length = xs.length := by
  induction xs generalizing p with
  | nil => rfl
  | cons x xs ih => rw [printAll, List.length_cons, List.length_cons, ih]

theorem written_printAll (p : Printout) (xs : List Binary32) :
    (p.printAll xs).2.written = p.written + (p.printAll xs).1.countP (·.1.isOk) ∧
      ∀ i r, (p.printAll xs).1[i]? = some r →
        r.2 = p.written + ((p.printAll xs).1.take (i + 1)).countP (·.1.isOk) := by
  induction xs generalizing p with
  | nil => exact ⟨rfl, by simp [printAll]⟩
  | cons x xs ih =>
    obtain ⟨hlast, hall⟩ := ih (p.print x).2
    have hfirst := written_print p x
    simp only [printAll, List.countP_cons]
    refine ⟨by omega, fun i r hi => ?_⟩
    cases i with
    | zero =>
      cases hi
      simpa using hfirst
    | succ i =>
      have hlater := hall i r hi
      simp only [List.take_succ_cons, List.countP_cons]
      omega

/-- The samples that did not fail. -/
def reported (p : Printout) (xs : List Binary32) : List Binary32 :=
  ((xs.zip (p.printAll xs).1).filter (·.2.1.isOk)).map Prod.fst

theorem length_view_print (p : Printout) (x : Binary32) :
    p.outlet.view.length + (if (p.print x).1.isOk then x.line.length else 0) ≤
      (p.print x).2.outlet.view.length := by
  have hview := length_view_putAll p.outlet x.linePieces
  unfold print
  rcases hput : p.outlet.putAll x.linePieces with ⟨e | ⟨⟩, o⟩ <;> rw [hput] at hview
  · exact hview
  · exact Nat.le_of_eq hview.symm

theorem length_reported_le (p : Printout) (xs : List Binary32) :
    p.outlet.view.length + ((p.reported xs).flatMap Binary32.line).length ≤
      (p.printAll xs).2.outlet.view.length := by
  induction xs generalizing p with
  | nil => simp [reported, printAll]
  | cons x xs ih =>
    have hfirst := length_view_print p x
    have hrest := ih (p.print x).2
    unfold reported at hrest ⊢
    simp only [printAll, List.zip_cons_cons, List.filter_cons]
    split at hfirst
    · rename_i hok
      rw [if_pos hok, List.map_cons, List.flatMap_cons, List.length_append]
      dsimp only
      omega
    · rename_i hfailed
      rw [if_neg hfailed]
      omega

theorem bounded_print {cap : Nat} {p : Printout} (h : p.outlet.Bounded cap) (x : Binary32) :
    (p.print x).2.outlet.Bounded cap := by
  have hnext := h.putAll x.length_linePieces_le
  unfold print
  rcases hput : p.outlet.putAll x.linePieces with ⟨e | ⟨⟩, o⟩ <;> rw [hput] at hnext <;> exact hnext

theorem bounded_printAll {cap : Nat} {p : Printout} (h : p.outlet.Bounded cap) (xs : List Binary32) :
    (p.printAll xs).2.outlet.Bounded cap := by
  induction xs generalizing p with
  | nil => exact h
  | cons x xs ih => exact ih (bounded_print h x)

/-- Ending a printout leaves the sink as if all lines had been poured at once, and says so. -/
theorem finish_printAll (s : Sink) (xs : List Binary32) :
    ((onto s).printAll xs).2.finish =
      ((s.pour (xs.flatMap Binary32.line)).1, (s.pour (xs.flatMap Binary32.line)).2.2) := by
  obtain ⟨hgiven, -⟩ := given_printAll (p := onto s) (given_nil s) xs
  exact hgiven.close

section
variable {cap : Nat} {refusal : Sink.Refusal} {xs : List Binary32}

theorem printAll_ok_of_le {i : Nat} {r : Except IoError Unit × Nat}
    (hr : ((onto { room := some cap, refusal }).printAll xs).1[i]? = some r)
    (hle : ((xs.take (i + 1)).flatMap Binary32.line).length ≤ cap) : r.1 = .ok () := by
  obtain ⟨-, hfailed⟩ :=
    given_printAll (p := onto { room := some cap, refusal }) (given_nil _) xs
  obtain ⟨e | ⟨⟩, n⟩ := r
  · obtain ⟨e', he'⟩ := hfailed i e n hr
    rw [List.nil_append, (Sink.pour_limited cap refusal _).2, if_pos hle] at he'
    cases he'
  · rfl

theorem printAll_all_ok (hle : (xs.flatMap Binary32.line).length ≤ cap) :
    ∀ r ∈ ((onto { room := some cap, refusal }).printAll xs).1, r.1 = .ok () := by
  intro r hr
  obtain ⟨i, hi⟩ := List.mem_iff_getElem?.1 hr
  have hsplit : xs.flatMap Binary32.line = (xs.take (i + 1)).flatMap Binary32.line ++
      (xs.drop (i + 1)).flatMap Binary32.line := by
    rw [← List.flatMap_append, List.take_append_drop]
  rw [hsplit, List.length_append] at hle
  exact printAll_ok_of_le hi (by omega)

theorem length_reported_le_limit :
    (((onto { room := some cap, refusal }).reported xs).flatMap Binary32.line).length ≤
      cap + capacity := by
  have hbounded : (onto { room := some cap, refusal }).outlet.Bounded cap :=
    ⟨by simp [onto, Sink.limit], Nat.zero_le _⟩
  calc _ ≤ ((onto { room := some cap, refusal }).printAll xs).2.outlet.view.length :=
        Nat.le_trans (Nat.le_add_left _ _) (length_reported_le _ xs)
    _ ≤ cap + capacity := (bounded_printAll hbounded xs).length_view_le

end

/-- **What becomes of samples printed into a limited sink**, going on after failures. The
sink gets a beginning of their lines, as long as its room. Ending the printout succeeds
just if that is all of them, and then none has failed before. No sample fails while there
is room for all lines so far; the count is that of the samples that did not fail; and
their lines are no longer than the room and the buffer together. -/
theorem printAll_limited (cap : Nat) (refusal : Sink.Refusal) (xs : List Binary32) :
    let text := fun ys : List Binary32 => ys.flatMap fun y => Utf8.encode (y.fixed ++ ['\n'])
    let total := (text xs).length
    let p := onto { room := some cap, refusal }
    let results := (p.printAll xs).1
    let last := (p.printAll xs).2
    last.finish.2.taken.toList = (text xs).take (min cap total) ∧
      (last.finish.1 = .ok () ↔ total ≤ cap) ∧
      (total ≤ cap → (∀ r ∈ results, r.1 = .ok ()) ∧ last.written = xs.length) ∧
      results.length = xs.length ∧
      (∀ i r, results[i]? = some r →
        ((text (xs.take (i + 1))).length ≤ cap → r.1 = .ok ()) ∧
          r.2 = (results.take (i + 1)).countP (·.1.isOk)) ∧
      (text (p.reported xs)).length ≤ cap + 8192 := by
  intro text total p results last
  have htext : text = fun ys => ys.flatMap Binary32.line := by
    funext ys
    simp only [text, ← line_eq]
  have hfinish : last.finish = _ := finish_printAll { room := some cap, refusal } xs
  obtain ⟨htaken, hresult⟩ := Sink.pour_limited cap refusal (xs.flatMap Binary32.line)
  obtain ⟨hwritten, hcounts⟩ := written_printAll p xs
  have hzero : p.written = 0 := rfl
  rw [hzero, Nat.zero_add] at hwritten
  simp only [hzero, Nat.zero_add] at hcounts
  simp only [total, htext]
  refine ⟨?_, ?_, fun hle => ?_, length_printAll p xs,
    fun i r hr => ⟨printAll_ok_of_le hr, hcounts i r hr⟩, length_reported_le_limit⟩
  · rw [hfinish]
    exact htaken
  · rw [hfinish, hresult]
    by_cases hle : (xs.flatMap Binary32.line).length ≤ cap
    · rw [if_pos hle]
      exact iff_of_true rfl hle
    · rw [if_neg hle]
      exact iff_of_false nofun hle
  · have hall : ∀ r ∈ results, r.1 = .ok () := printAll_all_ok hle
    refine ⟨hall, ?_⟩
    rw [hwritten, List.countP_eq_length.2, length_printAll]
    intro r hr
    rw [hall r hr]
    rfl

/-- A thousand zeros just fill a sink of 9000 bytes. It takes 8192 of them when the buffer
is full, which is inside a line. -/
theorem printAll_limited_exactly :
    let zeros : List Binary32 := List.replicate 1000 (.zero false)
    let text := zeros.flatMap fun y => Utf8.encode (y.fixed ++ ['\n'])
    let p := onto { room := some 9000 }
    let last := (p.printAll zeros).2
    text.length = 9000 ∧ last.finish.1 = .ok () ∧ last.finish.2.taken.toList = text ∧
      (∀ r ∈ (p.printAll zeros).1, r.1 = .ok ()) ∧ last.written = 1000 := by
  intro zeros text
  have hcount : zeros.length = 1000 := List.length_replicate
  have hlength : text.length = 9000 := by
    have hline : (Utf8.encode ((Binary32.zero false).fixed ++ ['\n'])).length = 9 := by decide
    rw [List.length_flatMap, List.map_replicate, List.sum_replicate, hline]
    rfl
  -- From here on the lengths are all there is to know of the samples.
  clear_value zeros
  obtain ⟨htaken, hfinish, hall, -⟩ := printAll_limited 9000 .takesNothing zeros
  have hle := Nat.le_of_eq hlength
  obtain ⟨hok, hwritten⟩ := hall hle
  rw [hlength, Nat.min_self, List.take_of_length_le hle] at htaken
  exact ⟨hlength, hfinish.2 hle, htaken, hok, hwritten.trans hcount⟩

end Printout

end LowPass
