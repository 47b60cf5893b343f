/-
Printouts, and what reading makes of them.

A printout into an unlimited sink is the lines of its samples (`printed_eq`).
Each line has one word and a newline, so it is read as one sample
(`Reading.ofArrivals_printed`): the sample it was made of, as far as six decimals
tell (`printed_read`), and one that prints the same line (`printed_again`).
-/
import LowPass.Binary32.Bits
import LowPass.Proofs.Decimal.Spelling
import LowPass.Proofs.Smoothing
import LowPass.Proofs.Text.Newline

namespace LowPass

open Arrival

/-! ## Into an unlimited sink -/

theorem Outlet.putAll_append (o : Outlet) (first pieces : List Bytes) :
    o.putAll (first ++ pieces) =
      match o.putAll first with
      | (.ok (), o) => o.putAll pieces
      | (.error e, o) => (.error e, o) := by
  induction first generalizing o with
  | nil => rfl
  | cons piece first ih =>
    rw [List.cons_append, putAll, putAll]
    rcases o.put piece with ⟨e | ⟨⟩, o'⟩
    · rfl
    · exact ih o'

namespace Printout

theorem printAll_of_putAll {p : Printout} {xs : List Binary32} {o : Outlet}
    (h : p.outlet.putAll (xs.flatMap Binary32.linePieces) = (.ok (), o)) :
    (∀ r ∈ (p.printAll xs).1, r.1 = .ok ()) ∧ (p.printAll xs).2.outlet = o := by
  induction xs generalizing p with
  | nil =>
    cases h
    exact ⟨by simp [printAll], rfl⟩
  | cons x xs ih =>
    rw [List.flatMap_cons, Outlet.putAll_append] at h
    rcases hput : p.outlet.putAll x.linePieces with ⟨e | ⟨⟩, o'⟩ <;> rw [hput] at h
    · cases h
    · obtain ⟨hok, hlast⟩ := @ih { outlet := o', written := p.written + 1 } h
      simp only [printAll, print, hput]
      exact ⟨by simpa using hok, hlast⟩

/-- **An unlimited sink gets the line of every sample**, and nothing fails. -/
theorem printAll_unlimited (xs : List Binary32) :
    (∀ r ∈ ((onto {}).printAll xs).1, r.1 = .ok ()) ∧
      ((onto {}).printAll xs).2.finish = (.ok (), Sink.accept {} (xs.flatMap Binary32.line)) := by
  have hdeliver : (onto {}).outlet.deliver (xs.flatMap Binary32.linePieces) =
      (.ok (), Sink.accept {} (xs.flatMap Binary32.line)) := by
    rw [Outlet.deliver_eq, flatten_linePieces, Sink.pour_of_none rfl]
    rfl
  rcases hput : (onto {}).outlet.putAll (xs.flatMap Binary32.linePieces) with ⟨e | ⟨⟩, o⟩ <;>
    rw [Outlet.deliver, hput] at hdeliver
  · cases hdeliver
  · obtain ⟨hok, hlast⟩ := printAll_of_putAll hput
    refine ⟨hok, ?_⟩
    rw [finish, hlast]
    exact hdeliver

end Printout

/-- What a printout of samples leaves in an unlimited sink. -/
def printed (xs : List Binary32) : Bytes :=
  ((Printout.onto {}).printAll xs).2.finish.2.taken.toList

theorem printed_eq (xs : List Binary32) : printed xs = xs.flatMap Binary32.line := by
  rw [printed, (Printout.printAll_unlimited xs).2]
  simp [Sink.accept]

example : printed [.ofBits 0x3F800000] = .ofText "1.000000\n" := by decide +kernel

/-! ## Line by line -/

namespace Binary32

theorem line_eq_append (x : Binary32) : ∃ l, newline ∉ l ∧ x.line = l ++ [newline] := by
  refine ⟨Utf8.encode x.fixed, fun hmem => ?_, ?_⟩
  · obtain ⟨c, hc, hbyte⟩ := List.mem_flatMap.1 hmem
    obtain rfl := Utf8.eq_newline_of_mem hbyte
    cases isBlank_fixed hc
  · rw [line_eq, Utf8.encode, List.flatMap_append]
    rfl

end Binary32

theorem lines_printed (xs : List Binary32) : lines (printed xs) = xs.map Binary32.line := by
  rw [printed_eq]
  induction xs with
  | nil => rfl
  | cons x xs ih =>
    obtain ⟨l, hl, hline⟩ := x.line_eq_append
    rw [List.flatMap_cons, List.map_cons, ← ih, hline, List.append_assoc, List.singleton_append,
      lines_append_newline hl]

theorem count_newline_printed (xs : List Binary32) : (printed xs).count newline = xs.length := by
  rw [printed_eq]
  induction xs with
  | nil => rfl
  | cons x xs ih =>
    obtain ⟨l, hl, hline⟩ := x.line_eq_append
    rw [List.flatMap_cons, List.count_append, ih, hline, List.count_append,
      List.count_eq_zero.2 hl, List.length_cons]
    simp only [List.count_singleton_self]
    omega

/-! ## Read again -/

namespace Reading

theorem ofLines_printed (n : Nat) (xs : List Binary32) :
    ofLines n [] (xs.map Binary32.line) none =
      ⟨(xs.map Binary32.reread).zipIdx (n + 1), none, n + xs.length⟩ := by
  induction xs generalizing n with
  | nil => rfl
  | cons x xs ih =>
    have hdecode : Utf8.decode? x.line = some (x.fixed ++ ['\n']) := by
      rw [line_eq, Utf8.decode?_encode]
    have hlength : n + 1 + xs.length = n + (x :: xs).length := by
      rw [List.length_cons]
      omega
    rw [List.map_cons, ofLines_line hdecode, Binary32.words_fixed, ofLines_word, Binary32.ofText?_fixed]
    simp only [ih, cons, hlength, List.map_cons, List.zipIdx_cons]

/-- **What was printed is read** sample by sample, each from its own line. -/
theorem ofArrivals_printed {as : List Arrival} (h : failure? as = none) {xs : List Binary32}
    (hcontent : content as = printed xs) :
    ofArrivals as = ⟨(xs.map Binary32.reread).zipIdx 1, none, xs.length⟩ := by
  rw [ofArrivals_of_unfailing h, hcontent, lines_printed, ofLines_printed]
  simp only [Nat.zero_add]

end Reading

theorem Intake.calls_printed {as : List Arrival} (h : failure? as = none) {xs : List Binary32}
    (hcontent : content as = printed xs) (count : Nat) :
    ({ later := as } : Intake).calls count =
      Reading.calls ⟨(xs.map Binary32.reread).zipIdx 1, none, xs.length⟩ count := by
  rw [calls_eq, reading_fresh, Reading.ofArrivals_printed h hcontent]

/-- **Printing what was read from a printout gives it again.** -/
theorem printed_again {as : List Arrival} (h : failure? as = none) {xs : List Binary32}
    (hcontent : content as = printed xs) :
    ∃ ys, (∀ count, ({ later := as } : Intake).calls count =
        Reading.calls ⟨ys.zipIdx 1, none, xs.length⟩ count) ∧ printed ys = printed xs := by
  refine ⟨xs.map Binary32.reread, Intake.calls_printed h hcontent, ?_⟩
  have hline : ∀ x : Binary32, x.reread.line = x.line := by
    intro x
    rw [line_eq, line_eq, Binary32.fixed_reread]
  simp only [printed_eq, List.flatMap_map, hline]

/-- The smallest number below zero, which is printed as a zero, two values that are
no number, and 2²⁴. -/
def oddSamples : List Binary32 :=
  [.ofBits 0x80000001, .ofBits 0x7FC00000, .ofBits 0xFF800000, .ofBits 0x4B800000]

def oddPrintout : List Arrival :=
  together (Bytes.ofText "-0.000000\nNaN\n-inf\n16777216.000000\n") []

theorem printed_again_odd :
    failure? oddPrintout = none ∧ content oddPrintout = printed oddSamples ∧
      (({ later := oddPrintout } : Intake).calls 1 = [(some (.ok (.zero true)), 1)]) ∧
      ∃ ys, ({ later := oddPrintout } : Intake).calls 5 =
        Reading.calls ⟨ys.zipIdx 1, none, 4⟩ 5 ∧ printed ys = printed oddSamples := by
  have hcontent : content oddPrintout = printed oddSamples := by
    rw [printed_eq, oddPrintout, content_together]
    decide +kernel
  obtain ⟨ys, hcalls, hagain⟩ := printed_again rfl hcontent
  refine ⟨rfl, hcontent, ?_, ys, hcalls 5, hagain⟩
  rw [Intake.calls_printed rfl hcontent]
  decide +kernel

/-- **Reading a printout gives its samples**, as far as six decimals tell, each
from its own line, and then nothing. So the output of any run, however it ended,
is an input of which every line is a sample. -/
theorem printed_read {as : List Arrival} (h : failure? as = none) :
    (∀ xs, content as = printed xs →
      ∃ ys, List.Forall₂ Binary32.ReadsBack xs ys ∧
        ∀ count, ({ later := as } : Intake).calls count =
          Reading.calls ⟨ys.zipIdx 1, none, xs.length⟩ count) ∧
      ∀ source, content as = (smooth source {}).2.taken.toList →
        let written := (content as).count newline
        (smooth as {}).1 = .ok ⟨written, written⟩ := by
  constructor
  · intro xs hcontent
    refine ⟨xs.map Binary32.reread, ?_, Intake.calls_printed h hcontent⟩
    rw [List.forall₂_map_right_iff, List.forall₂_same]
    exact fun x _ => x.readsBack_reread
  · intro source hcontent written
    have hprinted : content as = printed ((Reading.ofArrivals source).outputs .fresh) := by
      rw [hcontent, taken_smooth_unlimited, printed_eq, Reading.output]
    have hwritten : written = ((Reading.ofArrivals source).outputs .fresh).length := by
      simp only [written, hprinted, count_newline_printed]
    rw [smooth_unlimited, Reading.ofArrivals_printed h hprinted, hwritten]
    simp [Reading.outcome]

/-- A run that fails after outputs that are tiny, large and infinite. -/
def brokenInput : List Arrival := together (Bytes.ofText "-1e-9 1e9\ninf x") []

/-- What the run leaves. -/
def brokenOutput : List Arrival :=
  together (Bytes.ofText "-0.000000\n70000000.000000\ninf\n") []

theorem printed_read_broken :
    let xs := (Reading.ofArrivals brokenInput).outputs .fresh
    failure? brokenOutput = none ∧ content brokenOutput = printed xs ∧
      content brokenOutput = (smooth brokenInput {}).2.taken.toList ∧
      (smooth brokenInput {}).1 = .error (.malformedSample "x" 2) ∧
      (∃ ys, List.Forall₂ Binary32.ReadsBack xs ys ∧
        ({ later := brokenOutput } : Intake).calls 4 =
          Reading.calls ⟨ys.zipIdx 1, none, xs.length⟩ 4) ∧
      (smooth brokenOutput {}).1 = .ok ⟨3, 3⟩ := by
  intro xs
  have hprinted : content brokenOutput = printed xs := by
    rw [printed_eq, brokenOutput, content_together]
    decide +kernel
  have hleft : content brokenOutput = (smooth brokenInput {}).2.taken.toList := by
    rw [taken_smooth_unlimited, brokenOutput, content_together]
    decide +kernel
  have hfailed : (smooth brokenInput {}).1 = .error (.malformedSample "x" 2) := by
    rw [smooth_unlimited]
    decide +kernel
  obtain ⟨hread, hrun⟩ := @printed_read brokenOutput rfl
  obtain ⟨ys, hys, hcalls⟩ := hread xs hprinted
  exact ⟨rfl, hprinted, hleft, hfailed, ⟨ys, hys, hcalls 4⟩, hrun brokenInput hleft⟩

end LowPass
