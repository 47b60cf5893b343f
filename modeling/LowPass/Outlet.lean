/-
A sink behind a buffer. Pieces are held back until the next one does not fit;
then all that is held goes to the sink first, and if that fails the piece is
not accepted. Bytes that the sink did not take stay held.

Whatever happens, what the sink has taken and what is held are together the
pieces that were accepted, in order (`view_put_ok`, `view_put_error`).
-/
import LowPass.Sink

namespace LowPass

structure Outlet where
  sink : Sink
  held : Array UInt8 := #[]

namespace Outlet

/-- How many bytes can be held. Pieces are shorter than that. -/
def capacity : Nat := 8192

/-- All that was accepted: what the sink has taken, then what is held. -/
def view (o : Outlet) : Bytes := o.sink.taken.toList ++ o.held.toList

/-- Gives what is held to the sink. -/
def flush (o : Outlet) : Except IoError Unit × Outlet :=
  let (result, left, sink) := o.sink.pour o.held.toList
  (result, { sink, held := left.toArray })

/-- Adds a piece to what is held. -/
def hold (o : Outlet) (piece : Bytes) : Outlet := { o with held := o.held ++ piece }

/-- Accepts a piece, or fails to make room for it. -/
def put (o : Outlet) (piece : Bytes) : Except IoError Unit × Outlet :=
  if o.held.size + piece.length ≤ capacity then (.ok (), o.hold piece)
  else match o.flush with
    | (.ok (), o) => (.ok (), o.hold piece)
    | (.error e, o) => (.error e, o)

/-- Accepts pieces up to the first that it cannot. -/
def putAll (o : Outlet) : List Bytes → Except IoError Unit × Outlet
  | [] => (.ok (), o)
  | piece :: pieces =>
    match o.put piece with
    | (.ok (), o) => o.putAll pieces
    | (.error e, o) => (.error e, o)

/-- Lets go of the sink after a last attempt to give it what is held, of which
no more is heard. -/
def abandon (o : Outlet) : Sink := o.flush.2.sink

/-- Gives the sink all that is held and lets go of it. -/
def close (o : Outlet) : Except IoError Unit × Sink :=
  match o.flush with
  | (.ok (), o) => (.ok (), o.sink)
  | (.error e, o) => (.error e, o.abandon)

@[simp] theorem view_flush (o : Outlet) : o.flush.2.view = o.view := by
  simp only [view, flush, List.toList_toArray]
  exact Sink.taken_pour ..

@[simp] theorem view_hold (o : Outlet) (piece : Bytes) : (o.hold piece).view = o.view ++ piece := by
  simp [view, hold]

theorem view_put_ok {o o' : Outlet} {piece : Bytes} (h : o.put piece = (.ok (), o')) :
    o'.view = o.view ++ piece := by
  simp only [put] at h
  split at h
  · cases h; simp
  · split at h
    · rename_i q hq
      cases h
      have := view_flush o
      rw [hq] at this
      simp [← this]
    · cases h

theorem view_put_error {o o' : Outlet} {piece : Bytes} {e : IoError}
    (h : o.put piece = (.error e, o')) : o'.view = o.view := by
  simp only [put] at h
  split at h
  · cases h
  · split at h
    · cases h
    · rename_i hq
      cases h
      have := view_flush o
      rw [hq] at this
      exact this

end Outlet
end LowPass
