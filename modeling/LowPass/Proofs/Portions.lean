/-
The portions in which bytes arrive. A word, a character or a line may be cut
anywhere, and the reader interrupted on the way: what is read, and what a run
makes of it, depends on the bytes before the first failure and on that failure
alone (`Reading.ofArrivals_congr`).
-/
import LowPass.Proofs.Smoothing

namespace LowPass

open Arrival

/-- The same bytes up to the same failure are read alike. -/
theorem Reading.ofArrivals_congr {as bs : List Arrival} (hreceived : received as = received bs)
    (hfailure : failure? as = failure? bs) : Reading.ofArrivals as = .ofArrivals bs := by
  simp only [ofArrivals, delivered, hreceived, hfailure]

theorem smooth_congr {as bs : List Arrival} (ha : failure? as = none) (hb : failure? bs = none)
    (h : content as = content bs) (sink : Sink) : smooth as sink = smooth bs sink := by
  rw [smooth_eq, smooth_eq, Reading.ofArrivals_of_unfailing ha, Reading.ofArrivals_of_unfailing hb, h]

/-- **Portions do not matter**, nor do interruptions: inputs with one content give
the same items with the same line numbers, call after call, and the same run into
any sink. -/
theorem portions_alike {as bs : List Arrival} (ha : ∀ e, .error e ∈ as → e.kind = .interrupted)
    (hb : ∀ e, .error e ∈ bs → e.kind = .interrupted) (h : content as = content bs) :
    (∀ count, ({ later := as } : Intake).calls count = ({ later := bs } : Intake).calls count) ∧
      ∀ sink, smooth as sink = smooth bs sink := by
  have ha := failure?_eq_none.2 ha
  have hb := failure?_eq_none.2 hb
  have hreceived : received as = received bs := by
    rw [received_of_unfailing ha, received_of_unfailing hb, h]
  have hreading : Reading.ofArrivals as = .ofArrivals bs :=
    Reading.ofArrivals_congr hreceived (ha.trans hb.symm)
  constructor
  · intro count
    rw [Intake.calls_eq, Intake.calls_eq, Intake.reading_fresh, Intake.reading_fresh, hreading]
  · intro sink
    rw [smooth_eq, smooth_eq, hreading]

/-- Two samples with an ideographic space between them, at once. -/
def atOnce : List Arrival := [.bytes 0x31 [0x35, 0xE3, 0x80, 0x80, 0x32, 0x0D, 0x0A, 0x33]]

/-- The same bytes cut within the number, within the space and before the
newline; the end is found only after an interruption. -/
def inPieces : List Arrival :=
  [.bytes 0x31 [], .error ⟨.interrupted, none⟩, .bytes 0x35 [0xE3], .bytes 0x80 [],
    .bytes 0x80 [0x32, 0x0D], .bytes 0x0A [0x33], .error ⟨.interrupted, none⟩]

theorem portions_alike_inPieces :
    (∀ e, .error e ∈ inPieces → e.kind = .interrupted) ∧
      (∀ e, .error e ∈ atOnce → e.kind = .interrupted) ∧ content inPieces = content atOnce ∧
      ({ later := inPieces } : Intake).calls 5 = ({ later := atOnce } : Intake).calls 5 ∧
      smooth inPieces { room := some 9 } = smooth atOnce { room := some 9 } := by
  have hpieces : ∀ e, .error e ∈ inPieces → e.kind = .interrupted := by simp [inPieces]
  have honce : ∀ e, .error e ∈ atOnce → e.kind = .interrupted := by simp [atOnce]
  obtain ⟨hcalls, hsmooth⟩ := portions_alike hpieces honce rfl
  exact ⟨hpieces, honce, rfl, hcalls 5, hsmooth _⟩

end LowPass
