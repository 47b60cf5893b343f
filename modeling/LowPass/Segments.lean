/-
The segments of a list: its longest parts without a separator. Separators next
to one another, or at either end, make no empty segment. What stands on either
side of a separator is cut apart (`segments_append_cons`).
-/

namespace LowPass

/-- The segments between the elements that separate, in order. -/
def segments {α : Type} (separates : α → Bool) : List α → List (List α)
  | [] => []
  | a :: as =>
    if separates a then segments separates as
    else match as with
      | [] => [[a]]
      | b :: _ =>
        if separates b then [a] :: segments separates as
        else (segments separates as).modifyHead (a :: ·)

/-- Every segment has an element, and none that separates. -/
theorem mem_segments {α : Type} {separates : α → Bool} {as seg : List α}
    (h : seg ∈ segments separates as) : seg ≠ [] ∧ ∀ a ∈ seg, separates a = false := by
  induction as generalizing seg with
  | nil => simp [segments] at h
  | cons a as ih =>
    unfold segments at h
    by_cases ha : separates a = true
    · rw [if_pos ha] at h
      exact ih h
    · rw [if_neg ha] at h
      have ha : separates a = false := by simpa using ha
      cases as with
      | nil =>
        obtain rfl : seg = [a] := by simpa using h
        simp [ha]
      | cons b bs =>
        by_cases hb : separates b = true
        · simp only [hb, if_true] at h
          rcases List.mem_cons.1 h with rfl | h
          · simp [ha]
          · exact ih h
        · simp only [hb] at h
          cases hs : segments separates (b :: bs) with
          | nil => simp [hs] at h
          | cons s ss =>
            rw [hs] at h ih
            rcases List.mem_cons.1 (by simpa using h) with rfl | h
            · refine ⟨by simp, fun x hx => ?_⟩
              rcases List.mem_cons.1 hx with rfl | hx
              · exact ha
              · exact (ih List.mem_cons_self).2 x hx
            · exact ih (List.mem_cons_of_mem _ h)

theorem length_segments_le {α : Type} (separates : α → Bool) (as : List α) :
    (segments separates as).length ≤ as.length := by
  induction as with
  | nil => exact Nat.le_refl _
  | cons a as ih =>
    unfold segments
    by_cases ha : separates a = true
    · rw [if_pos ha]
      exact Nat.le_succ_of_le ih
    · rw [if_neg ha]
      cases as with
      | nil => exact Nat.le_refl _
      | cons b bs =>
        dsimp only
        by_cases hb : separates b = true
        · rw [if_pos hb]
          exact Nat.succ_le_succ ih
        · rw [if_neg hb, List.length_modifyHead]
          exact Nat.le_succ_of_le ih

/-! ## Element by element -/

section
variable {α : Type} {separates : α → Bool}

theorem segments_of_separates {a : α} (h : separates a = true) (as : List α) :
    segments separates (a :: as) = segments separates as := by
  rw [segments.eq_def]
  exact if_pos h

theorem segments_before_separator {a s : α} (ha : separates a = false) (hs : separates s = true)
    (as : List α) : segments separates (a :: s :: as) = [a] :: segments separates as := by
  rw [segments.eq_def]
  simp only [ha, hs, Bool.false_eq_true, if_false, if_true, segments_of_separates hs]

theorem segments_joined {a b : α} (ha : separates a = false) (hb : separates b = false)
    (as : List α) :
    segments separates (a :: b :: as) = (segments separates (b :: as)).modifyHead (a :: ·) := by
  rw [segments.eq_def]
  simp only [ha, hb, Bool.false_eq_true, if_false]

theorem segments_singleton {a : α} (ha : separates a = false) : segments separates [a] = [[a]] := by
  rw [segments.eq_def]
  simp [ha]

theorem segments_ne_nil {a : α} (ha : separates a = false) (as : List α) :
    segments separates (a :: as) ≠ [] := by
  induction as generalizing a with
  | nil => simp [segments_singleton ha]
  | cons b bs ih =>
    cases hb : separates b with
    | true => simp [segments_before_separator ha hb]
    | false => simp [segments_joined ha hb, ih hb]

/-- A separator ends the segments before it. -/
theorem segments_append_cons {s : α} (hs : separates s = true) (as bs : List α) :
    segments separates (as ++ s :: bs) = segments separates as ++ segments separates bs := by
  induction as with
  | nil => exact segments_of_separates hs bs
  | cons a as ih =>
    rw [List.cons_append]
    cases ha : separates a with
    | true => rw [segments_of_separates ha, segments_of_separates ha, ih]
    | false =>
      cases as with
      | nil =>
        rw [List.nil_append, segments_before_separator ha hs, segments_singleton ha,
          List.singleton_append]
      | cons b as =>
        rw [List.cons_append] at ih ⊢
        cases hb : separates b with
        | true =>
          rw [segments_of_separates hb, segments_of_separates hb] at ih
          rw [segments_before_separator ha hb, segments_before_separator ha hb, ih, List.cons_append]
        | false =>
          rw [segments_joined ha hb, segments_joined ha hb, ih]
          cases hsegs : segments separates (b :: as) with
          | nil => exact absurd hsegs (segments_ne_nil hb as)
          | cons seg segs => rfl

theorem segments_map {β : Type} (f : β → α) (bs : List β) :
    segments separates (bs.map f) = (segments (fun b => separates (f b)) bs).map (List.map f) := by
  induction bs with
  | nil => rfl
  | cons a bs ih =>
    rw [List.map_cons]
    cases ha : separates (f a) with
    | true => rw [segments_of_separates ha, segments_of_separates (a := a) ha, ih]
    | false =>
      cases bs with
      | nil =>
        rw [List.map_nil, segments_singleton ha, segments_singleton (a := a) ha]
        rfl
      | cons b bs =>
        rw [List.map_cons] at ih ⊢
        cases hb : separates (f b) with
        | true =>
          rw [segments_of_separates hb, segments_of_separates (a := b) hb] at ih
          rw [segments_before_separator ha hb, segments_before_separator (a := a) (s := b) ha hb, ih]
          rfl
        | false =>
          rw [segments_joined ha hb, segments_joined (a := a) (b := b) ha hb, ih]
          cases segments (fun b => separates (f b)) (b :: bs) <;> rfl

/-- What does not separate begins the first segment. -/
theorem prefix_of_segments_eq {a : α} (ha : separates a = false) {as seg : List α}
    {segs : List (List α)} (h : segments separates (a :: as) = seg :: segs) : seg <+: a :: as := by
  induction as generalizing a seg segs with
  | nil =>
    rw [segments_singleton ha] at h
    obtain ⟨rfl, -⟩ := List.cons.inj h
    exact List.prefix_refl _
  | cons b bs ih =>
    cases hb : separates b with
    | true =>
      rw [segments_before_separator ha hb] at h
      obtain ⟨rfl, -⟩ := List.cons.inj h
      exact List.prefix_append [a] (b :: bs)
    | false =>
      cases hsegs : segments separates (b :: bs) with
      | nil => exact absurd hsegs (segments_ne_nil hb bs)
      | cons first more =>
        rw [segments_joined ha hb, hsegs] at h
        obtain ⟨rfl, -⟩ := List.cons.inj h
        exact (List.prefix_cons_inj a).2 (ih hb hsegs)

theorem infix_of_mem_segments {as seg : List α} (h : seg ∈ segments separates as) : seg <:+: as := by
  induction as generalizing seg with
  | nil => cases h
  | cons a as ih =>
    cases ha : separates a with
    | true =>
      rw [segments_of_separates ha] at h
      exact List.infix_cons (ih h)
    | false =>
      cases hsegs : segments separates (a :: as) with
      | nil => exact absurd hsegs (segments_ne_nil ha as)
      | cons first more =>
        rw [hsegs] at h
        rcases List.mem_cons.1 h with rfl | h
        · exact (prefix_of_segments_eq ha hsegs).isInfix
        · -- The segments after the first are those of what follows it.
          cases as with
          | nil =>
            rw [segments_singleton ha] at hsegs
            obtain ⟨-, rfl⟩ := List.cons.inj hsegs
            cases h
          | cons b bs =>
            cases hb : separates b with
            | true =>
              rw [segments_before_separator ha hb] at hsegs
              obtain ⟨-, rfl⟩ := List.cons.inj hsegs
              exact List.infix_cons (ih (by rwa [segments_of_separates hb]))
            | false =>
              rw [segments_joined ha hb] at hsegs
              cases hrest : segments separates (b :: bs) with
              | nil => exact absurd hrest (segments_ne_nil hb bs)
              | cons joined segs =>
                rw [hrest] at hsegs
                obtain ⟨-, rfl⟩ := List.cons.inj hsegs
                exact List.infix_cons (ih (hrest ▸ List.mem_cons_of_mem joined h))

end

end LowPass
