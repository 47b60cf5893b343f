/-
What opening comes to, by the places that paths lead to.

What can be read through a path (`source?`) is what an opened input brings
(`exists_openInput`). An output is made, empty, at the place that its path leads to
(`Makes`), and its path then leads to it (`Makes.resolve_put`). Of an input that was
opened before, this changes nothing unless it is the same file (`read_put_of_ne`).
-/
import LowPass.Proofs.FileTree.Resolve

namespace LowPass
namespace FileTree

variable {t : FileTree} {cwd : Place} {path : Bytes}

/-- Two paths lead to one file. -/
def SameFile (t : FileTree) (cwd : Place) (a b : Bytes) : Prop :=
  ∃ p content, t.resolve false cwd a = .ok (.file p content) ∧
    t.resolve false cwd b = .ok (.file p content)

/-! ## Inputs -/

/-- All that can be read through a path: nothing, if it leads to no file, or to one
that has no end. -/
def source? (t : FileTree) (cwd : Place) (path : Bytes) : Option Bytes :=
  match t.resolve false cwd path with
  | .ok (.file _ content) => some content
  | .ok (.device .null) => some []
  | _ => none

theorem read_file {p : Place} {content : Bytes} (h : t.get? p = some (.file content)) :
    t.read (.file p) = Arrival.together content [] := by
  simp only [read, h]

theorem read_put_of_ne {f : OpenFile} {q : Place} (e : Entry) (h : f ≠ .file q) :
    (t.put q e).read f = t.read f := by
  cases f with
  | file p =>
    have hne : p ≠ q := fun heq => h (congrArg OpenFile.file heq)
    simp only [read, get?_put_of_ne t e hne]
  | device d => rfl

/-- What can be read through a path is what comes when it is opened and read. -/
theorem exists_openInput {source : Bytes} (h : t.source? cwd path = some source) :
    ∃ f, t.openInput cwd path = .ok (some f) ∧ t.read f = Arrival.together source [] ∧
      ∀ p, f = .file p → t.resolve false cwd path = .ok (.file p source) := by
  unfold source? at h
  split at h
  · rename_i p content hspot
    cases h
    refine ⟨.file p, by simp only [openInput, hspot], read_file (found_of_resolve hspot).2, ?_⟩
    rintro _ ⟨⟩
    exact hspot
  · rename_i hspot
    cases h
    exact ⟨.device .null, by simp only [openInput, hspot], rfl, fun p hp => nomatch hp⟩
  · cases h

theorem openInput_of_source?_eq_none (h : t.source? cwd path = none)
    (hends : t.resolve false cwd path ≠ .ok (.device .full)) :
    t.openInput cwd path = .ok none ∨ ∃ e, t.openInput cwd path = .error e := by
  unfold source? at h
  unfold openInput
  cases hspot : t.resolve false cwd path with
  | error e => exact .inr ⟨e, rfl⟩
  | ok spot =>
    rw [hspot] at h hends
    cases spot with
    | file p content => cases h
    | directory p => exact .inl rfl
    | vacant p => exact .inr ⟨_, rfl⟩
    | device d =>
      cases d with
      | null => cases h
      | full => exact absurd rfl hends

/-! ## Outputs -/

/-- An output path leads to a place for a file: to a file, or to where there is nothing yet. -/
def Makes (t : FileTree) (cwd : Place) (path : Bytes) (q : Place) : Prop :=
  (∃ content, t.resolve true cwd path = .ok (.file q content)) ∨
    t.resolve true cwd path = .ok (.vacant q)

theorem Makes.free {q : Place} (h : t.Makes cwd path q) : t.Free q := by
  rcases h with ⟨content, h⟩ | h
  · obtain ⟨hroot, hget⟩ := found_of_resolve h
    exact ⟨hroot, .inr ⟨content, hget⟩⟩
  · obtain ⟨hroot, hget⟩ := found_of_resolve h
    exact ⟨hroot, .inl hget⟩

theorem Makes.create {q : Place} (h : t.Makes cwd path q) :
    t.create cwd path = (.ok (.file q), t.put q (.file [])) := by
  rcases h with ⟨content, h⟩ | h <;> simp only [FileTree.create, h]

theorem Makes.resolve_put {q : Place} (h : t.Makes cwd path q) (new : Bytes) :
    (t.put q (.file new)).resolve false cwd path = .ok (.file q new) := by
  apply resolve_of_creating
  have hfree := h.free
  rcases h with ⟨content, h⟩ | h
  · have hput := FileTree.resolve_put h hfree new (.inl rfl)
    rwa [afterPut, if_pos rfl] at hput
  · have hput := FileTree.resolve_put h hfree new (.inl rfl)
    rwa [afterPut, if_pos rfl] at hput

theorem Makes.resolve_eq {q : Place} {content : Bytes} (h : t.Makes cwd path q)
    (hget : t.get? q = some (.file content)) : t.resolve true cwd path = .ok (.file q content) := by
  rcases h with ⟨content', h⟩ | h
  · obtain ⟨-, hget'⟩ := found_of_resolve h
    rw [hget] at hget'
    cases hget'
    exact h
  · obtain ⟨-, hnone⟩ := found_of_resolve h
    rw [hget] at hnone
    cases hnone

/-- An output path leads to a place for a file, or the tree is left as it is: nothing
is made, or the path leads to a device. -/
theorem create_cases (t : FileTree) (cwd : Place) (path : Bytes) :
    (∃ q, t.Makes cwd path q) ∨ (∃ e, t.create cwd path = (.error e, t)) ∨
      ∃ d, t.resolve true cwd path = .ok (.device d) ∧
        t.create cwd path = (.ok (.device d), t) := by
  cases hspot : t.resolve true cwd path with
  | error e => exact .inr (.inl ⟨e, by simp only [create, hspot]⟩)
  | ok spot =>
    cases spot with
    | file q content => exact .inl ⟨q, .inl ⟨content, hspot⟩⟩
    | vacant q => exact .inl ⟨q, .inr hspot⟩
    | directory p => exact .inr (.inl ⟨.isADirectory, by simp only [create, hspot]⟩)
    | device d => exact .inr (.inr ⟨d, rfl, by simp only [create, hspot]⟩)

end FileTree
end LowPass
