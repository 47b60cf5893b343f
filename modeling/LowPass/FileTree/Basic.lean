/-
A file system, as a finite map from places to what is there.

A place is the way from the root, the innermost name first, so that the parent
of a place is its tail. The root is always a directory. `get?_put_self` and
`get?_put_of_ne` say what writing changes: one place. What is put there last stays
(`put_put`).
-/
import LowPass.Text.Utf8

namespace LowPass

/-- Where something is: the names that lead to it, the innermost first. -/
abbrev Place := List Bytes

/-- Files that store nothing. -/
inductive Device where
  /-- takes everything, and is empty -/
  | null
  /-- takes nothing, for want of space, and has no end -/
  | full
  deriving DecidableEq

/-- What is at a place. -/
inductive Entry where
  | file (content : Bytes)
  | directory
  /-- a symbolic link, with the path that it stands for -/
  | link (target : Bytes)
  | device (d : Device)
  deriving DecidableEq

structure FileTree where
  entries : List (Place × Entry)
  deriving DecidableEq

namespace FileTree

/-- What is at a place, if anything is. -/
def get? (t : FileTree) (p : Place) : Option Entry :=
  if p = [] then some .directory else t.entries.lookup p

/-- Puts an entry at a place, in the stead of what is there. -/
def put (t : FileTree) (p : Place) (e : Entry) : FileTree :=
  ⟨if (t.entries.lookup p).isSome then
    t.entries.map fun (q, old) => (q, if q = p then e else old)
  else t.entries ++ [(p, e)]⟩

/-- The names in a directory. -/
def namesIn (t : FileTree) (p : Place) : List Bytes :=
  t.entries.filterMap fun
    | (name :: parent, _) => if parent = p then some name else none
    | ([], _) => none

theorem lookup_map_put (entries : List (Place × Entry)) (p q : Place) (e : Entry) :
    (entries.map fun (r, old) => (r, if r = p then e else old)).lookup q =
      if q = p then (entries.lookup p).map fun _ => e else entries.lookup q := by
  induction entries with
  | nil => simp
  | cons x xs ih =>
    obtain ⟨r, old⟩ := x
    simp only [List.map_cons, List.lookup_cons]
    by_cases hq : q = r
    · subst hq
      by_cases hp : q = p <;> simp [hp]
    · have hb : (q == r) = false := by simpa using hq
      simp only [hb]
      rw [ih]
      by_cases hp : q = p
      · subst hp; simp [hb]
      · simp [hp]

theorem lookup_append_put (entries : List (Place × Entry)) (p q : Place) (e : Entry) :
    (entries ++ [(p, e)]).lookup q = (entries.lookup q).or (if q = p then some e else none) := by
  induction entries with
  | nil =>
    by_cases h : q = p
    · simp [h]
    · have hb : (q == p) = false := by simpa using h
      simp [List.lookup_cons, hb, h]
  | cons x xs ih =>
    obtain ⟨r, old⟩ := x
    simp only [List.cons_append, List.lookup_cons]
    split
    · rfl
    · exact ih

theorem get?_put_self (t : FileTree) {p : Place} (e : Entry) (hp : p ≠ []) :
    (t.put p e).get? p = some e := by
  simp only [get?, hp, if_false, put]
  split
  · rename_i h
    rw [lookup_map_put]
    obtain ⟨old, ho⟩ := Option.isSome_iff_exists.1 h
    simp [ho]
  · rename_i h
    rw [lookup_append_put]
    simp [Option.not_isSome_iff_eq_none.1 h]

/-- Putting an entry changes one place only. -/
theorem get?_put_of_ne (t : FileTree) {p q : Place} (e : Entry) (h : q ≠ p) :
    (t.put p e).get? q = t.get? q := by
  simp only [get?, put]
  split
  · rfl
  · split
    · rw [lookup_map_put]; simp [h]
    · rw [lookup_append_put]; simp [h]

theorem get?_put (t : FileTree) {p : Place} (e : Entry) (hp : p ≠ []) (q : Place) :
    (t.put p e).get? q = if q = p then some e else t.get? q := by
  split
  · rename_i h
    rw [h, get?_put_self t e hp]
  · rename_i h
    exact get?_put_of_ne t e h

/-- What is put last stays. -/
theorem put_put (t : FileTree) (p : Place) (a b : Entry) : (t.put p a).put p b = t.put p b := by
  cases h : t.entries.lookup p with
  | some old =>
    simp only [put, h, lookup_map_put, Option.isSome_some, if_true, Option.map_some, List.map_map]
    congr 2
    funext x
    by_cases hx : x.1 = p <;> simp [hx]
  | none =>
    have hkeep : (t.entries.map fun (q, old) => (q, if q = p then b else old)) = t.entries := by
      rw [List.lookup_eq_none_iff] at h
      refine (List.map_congr_left fun x hx => ?_).trans (List.map_id _)
      have hne : x.1 ≠ p := fun heq => by simpa [heq] using h x hx
      simp [hne]
    simp [put, h, lookup_append_put, hkeep]

end FileTree
end LowPass
