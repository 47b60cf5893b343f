/-
A sink with limited room. It gets the beginning of what an unlimited sink would
get, as long as its room, and nothing is different until the room is too small:
then the run fails as the sink does, whatever its outcome would have been.
-/
import LowPass.Proofs.Smoothing

namespace LowPass

theorem Sink.pour_limited (cap : Nat) (refusal : Refusal) (bs : Bytes) :
    let sink : Sink := { room := some cap, refusal }
    (sink.pour bs).2.2.taken.toList = bs.take (min cap bs.length) ∧
      (sink.pour bs).1 = if bs.length ≤ cap then .ok () else .error sink.complaint := by
  intro sink
  by_cases hbs : bs.length ≤ cap
  · rw [pour_of_le (s := sink) rfl hbs, if_pos hbs, Nat.min_eq_right hbs, List.take_length]
    simp [sink, accept]
  · have hlt : cap < bs.length := Nat.lt_of_not_le hbs
    rw [pour_of_lt (s := sink) rfl hlt, if_neg hbs, Nat.min_eq_left (Nat.le_of_lt hlt)]
    simp [sink, accept]

/-- **A limited sink cuts the output at its room, and its failure is never
missed**: it is the outcome even of a run that has failed before. -/
theorem smooth_limited (as : List Arrival) (cap : Nat) (refusal : Sink.Refusal) :
    let whole := smooth as {}
    let out := whole.2.taken.toList
    let limited := smooth as { room := some cap, refusal }
    limited.2.taken.toList = out.take (min cap out.length) ∧
      limited.1 =
        if out.length ≤ cap then whole.1
        else match refusal with
          | .error e _ => .error (.io e)
          | .takesNothing => .error (.io (.saying .writeZero "failed to write the buffered data")) := by
  intro whole out limited
  have hout : out = (Reading.ofArrivals as).output := taken_smooth_unlimited as
  have hwhole : whole.1 = (Reading.ofArrivals as).outcome 0 := by
    rw [show whole = _ from smooth_unlimited as]
  have hlimited : limited = _ := smooth_eq as { room := some cap, refusal }
  obtain ⟨htaken, hresult⟩ := Sink.pour_limited cap refusal out
  rw [hlimited, ← hout, hresult, ← hwhole]
  split
  · exact ⟨htaken, rfl⟩
  · refine ⟨htaken, ?_⟩
    cases refusal <;> rfl

example :
    let limited := smooth [.bytes 0x31 []] { room := some 4 }
    limited.2.taken.toList = Bytes.ofText "0.07" ∧
      limited.1 = .error (.io (.saying .writeZero "failed to write the buffered data")) := by
  decide +kernel

end LowPass
