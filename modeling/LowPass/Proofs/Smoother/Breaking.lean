/-
How a filter loses its output, and what is left of it.

As long as a sample is finite and its difference from the output too, the output
stays finite: neither the product nor the sum can overflow (`Reaches.mem`). Any
other sample breaks the filter (`Breaks`): a NaN makes the output NaN, and an
infinity, or a sample so far away that the difference overflows, makes it an
infinity with the sign of the sample. A broken filter gives only NaNs, whatever comes
(`block_of_broken`), until it is taken back to zero.

So a block is smoothed to finite outputs, then at most one infinity, then NaNs
(`block_shape`).
-/
import LowPass.Proofs.Smoother.Serving
import LowPass.Proofs.Smoother.Settling

namespace LowPass
namespace Binary32

/-- A difference of finite values that overflows has the sign of the first: with the
other sign it would not be larger than the second. -/
theorem sign_of_sub_eq_infinite {negative sign : Bool} {mag : Nat} {fits : Representable mag}
    {y : Binary32} (hy : y.isFinite = true)
    (h : .finite negative mag fits - y = .infinite sign) : sign = negative := by
  have hlimit := (representable_scaled (-y)).lt
  rw [← isFinite_neg] at hy
  rw [sub_def] at h
  rcases add_cases (x := .finite negative mag fits) rfl hy with ⟨-, sign, hadd⟩ | ⟨-, hadd⟩ <;>
    rw [hadd] at h
  · cases h
  · unfold ofRatio at h
    split at h
    · cases h
    · rename_i hover
      cases h
      by_contra hsign
      refine hover (Nat.lt_of_le_of_lt ?_ hlimit)
      refine roundMag_le_of_le Nat.one_pos (representable_scaled _) ?_
      cases negative <;> simp [scaled] at hsign ⊢ <;> omega

theorem sub_eq_infinite {x y : Binary32} (hx : x.isFinite = true) (hy : y.isFinite = true)
    (h : (x - y).isFinite = false) : ∃ sign, x - y = .infinite sign := by
  rw [← isFinite_neg] at hy
  rw [sub_def] at h ⊢
  rcases add_cases hx hy with ⟨-, sign, hadd⟩ | ⟨-, hadd⟩ <;> rw [hadd] at h ⊢
  · cases h
  · unfold ofRatio at h ⊢
    split at h
    · cases h
    · rename_i hover
      exact ⟨_, dif_neg hover⟩

end Binary32

namespace Smoother

open Binary32

/-- **What breaks a filter**, and the output that it leaves: a NaN, an infinity, or a
finite sample whose difference from the output overflows. -/
inductive Breaks (s : Smoother) : Binary32 → Binary32 → Prop
  | nan : s.Breaks .nan .nan
  | infinite (negative : Bool) : s.Breaks (.infinite negative) (.infinite negative)
  | overflow {negative : Bool} {mag : Nat} {fits : Representable mag} :
    (.finite negative mag fits - s.output).isFinite = false →
      s.Breaks (.finite negative mag fits) (.infinite negative)

theorem Breaks.not_isFinite {s : Smoother} {x y : Binary32} (h : s.Breaks x y) :
    y.isFinite = false := by
  cases h <;> rfl

section
variable {s : Smoother} (hs : s.output.isFinite = true)
include hs

theorem step_of_sub_eq_infinite {x : Binary32} {sign : Bool} (h : x - s.output = .infinite sign) :
    (s.step x).output = .infinite sign := by
  have hpull : (.infinite sign : Binary32) * weight = .infinite sign := by cases sign <;> decide
  show s.output + (x - s.output) * weight = .infinite sign
  rw [h, hpull]
  obtain ⟨w⟩ := s
  cases w with
  | finite t mag fits => rfl
  | _ => cases hs

theorem Breaks.output_step {x y : Binary32} (h : s.Breaks x y) : (s.step x).output = y := by
  cases h with
  | nan =>
    obtain ⟨w⟩ := s
    cases w <;> rfl
  | infinite negative =>
    refine step_of_sub_eq_infinite hs ?_
    obtain ⟨w⟩ := s
    cases w with
    | finite t mag fits => rfl
    | _ => cases hs
  | overflow h =>
    obtain ⟨sign, hsign⟩ := sub_eq_infinite rfl hs h
    obtain rfl := sign_of_sub_eq_infinite hs hsign
    exact step_of_sub_eq_infinite hs hsign

theorem breaks_or_reaches (x : Binary32) : (∃ y, s.Breaks x y) ∨ s.Reaches x := by
  cases x with
  | nan => exact .inl ⟨_, .nan⟩
  | infinite negative => exact .inl ⟨_, .infinite negative⟩
  | finite negative mag fits =>
    by_cases hdiff : (.finite negative mag fits - s.output).isFinite = true
    · exact .inr ⟨hs, rfl, hdiff⟩
    · exact .inl ⟨_, .overflow (Bool.eq_false_iff.2 hdiff)⟩

end

theorem Reaches.not_breaks {s : Smoother} {x y : Binary32} (h : s.Reaches x) : ¬ s.Breaks x y := by
  obtain ⟨-, hx, hdiff⟩ := h
  intro hbreaks
  cases hbreaks with
  | nan => cases hx
  | infinite => cases hx
  | overflow h => rw [h] at hdiff; cases hdiff

/-! ## A broken filter -/

section
variable {s : Smoother} (hs : s.output.isFinite = false)
include hs

/-- Whatever the sample is, the difference from an infinity is NaN or pulls the other
way. -/
theorem step_of_broken (x : Binary32) : (s.step x).output = .nan := by
  obtain ⟨w⟩ := s
  cases w with
  | nan => rfl
  | infinite negative =>
    cases x with
    | nan => rfl
    | infinite sign => cases negative <;> cases sign <;> decide
    | finite sign mag fits => cases negative <;> rfl
  | finite => cases hs

theorem block_of_broken (xs : List Binary32) :
    (s.block xs).1 = List.replicate xs.length .nan := by
  induction xs generalizing s with
  | nil => rfl
  | cons x xs ih =>
    have hnan := step_of_broken hs x
    have hnext : (s.step x).output.isFinite = false := by rw [hnan]; rfl
    show (s.step x).output :: ((s.step x).block xs).1 = _
    rw [hnan, ih hnext, List.length_cons, List.replicate_succ]

end

theorem Breaks.block {s : Smoother} (hs : s.output.isFinite = true) {x y : Binary32}
    (h : s.Breaks x y) (later : List Binary32) :
    (s.block (x :: later)).1 = y :: List.replicate later.length .nan := by
  have hy : (s.step x).output = y := h.output_step hs
  have hbroken : (s.step x).output.isFinite = false := by rw [hy]; exact h.not_isFinite
  show (s.step x).output :: ((s.step x).block later).1 = _
  rw [hy, block_of_broken hbroken]

theorem kept_broken : Kept (fun y => y.isFinite = false) fun _ => True where
  step := by
    intro s x hs _
    rw [step_of_broken hs x]
    rfl

theorem serve_of_restarts (s : Smoother) {r : Request} (h : r.restarts = true) :
    (s.serve r).2 = fresh := by
  cases r with
  | reset => rfl
  | renew => rfl
  | _ => cases h

/-! ## A whole block -/

/-- The samples are in reach one after the other. -/
def ReachesAll : Smoother → List Binary32 → Prop
  | _, [] => True
  | s, x :: xs => s.Reaches x ∧ (s.step x).ReachesAll xs

theorem ReachesAll.finite {s : Smoother} {xs : List Binary32} (h : s.ReachesAll xs) :
    ∀ y ∈ (s.block xs).1, y.isFinite = true := by
  induction xs generalizing s with
  | nil => exact fun y hy => nomatch hy
  | cons x xs ih =>
    obtain ⟨hx, hxs⟩ := h
    intro y hy
    rcases List.mem_cons.1 hy with rfl | hy
    · exact hx.mem.1
    · exact ih hxs y hy

theorem ReachesAll.not_breaks {s : Smoother} {before after : List Binary32} {x : Binary32}
    (h : s.ReachesAll (before ++ x :: after)) : ¬ ∃ y, (s.block before).2.Breaks x y := by
  induction before generalizing s with
  | nil =>
    rintro ⟨y, hbreaks⟩
    exact h.1.not_breaks hbreaks
  | cons b before ih => exact ih h.2

/-- A block is in reach up to its end, or up to a sample that breaks the filter. -/
theorem exists_reachesAll {s : Smoother} (hs : s.output.isFinite = true) (xs : List Binary32) :
    ∃ taken rest, xs = taken ++ rest ∧ s.ReachesAll taken ∧
      (s.block taken).2.output.isFinite = true ∧
      match rest with
      | [] => True
      | x :: _ => ∃ y, (s.block taken).2.Breaks x y := by
  induction xs generalizing s with
  | nil => exact ⟨[], [], rfl, trivial, hs, trivial⟩
  | cons x xs ih =>
    rcases breaks_or_reaches hs x with hbreaks | hreaches
    · exact ⟨[], x :: xs, rfl, trivial, hs, hbreaks⟩
    · obtain ⟨taken, rest, rfl, hall, hlast, hrest⟩ := ih hreaches.mem.1
      exact ⟨x :: taken, rest, rfl, ⟨hreaches, hall⟩, hlast, hrest⟩

/-- **The shape of what a block is smoothed to.** Its samples up to the first that
breaks the filter have finite outputs. That one, if there is one, leaves the output that
`Breaks` says, and all after it are NaN. No sample makes the output of a broken filter
finite again: only going back to zero does, and that makes it a fresh one. -/
theorem block_shape {s : Smoother} (hs : s.output.isFinite = true) (xs : List Binary32) :
    (∃ taken rest, xs = taken ++ rest ∧
      (∀ y ∈ (s.block taken).1, y.isFinite = true) ∧
      (∀ before x after, taken = before ++ x :: after → ¬ ∃ y, (s.block before).2.Breaks x y) ∧
      match rest with
      | [] => True
      | x :: later => ∃ y, (s.block taken).2.Breaks x y ∧
        (s.block xs).1 = (s.block taken).1 ++ y :: List.replicate later.length .nan) ∧
    ∀ t : Smoother,
      (t.output.isFinite = false → ∀ rs, (∀ r ∈ rs, Request.restarts r = false) →
        ∀ a ∈ t.serveAll rs, (∀ y ∈ a.1.outputs, y.isFinite = false) ∧ a.2.isFinite = false) ∧
      ∀ r, Request.restarts r = true → (t.serve r).2 = fresh := by
  constructor
  · obtain ⟨taken, rest, rfl, hall, hlast, hrest⟩ := exists_reachesAll hs xs
    refine ⟨taken, rest, rfl, hall.finite, ?_, ?_⟩
    · rintro before x after rfl
      exact hall.not_breaks
    · cases rest with
      | nil => trivial
      | cons x later =>
        obtain ⟨y, hbreaks⟩ := hrest
        refine ⟨y, hbreaks, ?_⟩
        rw [block_append, hbreaks.block hlast]
  · intro t
    refine ⟨fun ht rs hrs => ?_, fun r hr => serve_of_restarts t hr⟩
    refine kept_broken.serveAll ht (fun _ _ _ _ => trivial) fun r hr hrestarts => ?_
    rw [hrs r hr] at hrestarts
    cases hrestarts

/-- A sample as far as can be on one side, then on the other: their difference is out of
range. -/
theorem block_shape_farApart :
    fresh.output.isFinite = true ∧
      (∃ taken rest, [largest, -largest, .zero true] = taken ++ rest ∧
        (∀ y ∈ (fresh.block taken).1, y.isFinite = true) ∧
        (∀ before x after, taken = before ++ x :: after →
          ¬ ∃ y, (fresh.block before).2.Breaks x y) ∧
        match rest with
        | [] => True
        | x :: later => ∃ y, (fresh.block taken).2.Breaks x y ∧
          (fresh.block [largest, -largest, .zero true]).1 =
            (fresh.block taken).1 ++ y :: List.replicate later.length .nan) ∧
      (fresh.block [largest, -largest, .zero true]).1.drop 1 = [.infinite true, .nan] := by
  obtain ⟨hshape, -⟩ := @block_shape fresh rfl [largest, -largest, .zero true]
  exact ⟨rfl, hshape, by decide +kernel⟩

end Smoother
end LowPass
