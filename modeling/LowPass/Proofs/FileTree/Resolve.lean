/-
What a path leads to, by rules, and what becomes of that when a file is put
somewhere.

`Leads` says what each name on the way does; a walk follows exactly these rules
(`resolve_eq_ok_iff`). So a path leads to what is there (`Leads.found`), and for an
input it leads where it leads for an output (`resolve_of_creating`). Putting a file
where there was a file, or nothing, is seen at that place only: a path that led
there leads to the new file, and every other path leads where it did
(`resolve_put`).
-/
import LowPass.FileTree.Open

namespace LowPass
namespace FileTree

/-- A name that is looked up in its directory. -/
structure LookedUp (creating : Bool) (name : Bytes) (rest : List Bytes) (slashed : Bool) :
    Prop where
  notHere : name ≠ here
  notAbove : name ≠ above
  unmade : (creating && slashed && rest.isEmpty) = false
  fits : name.length ≤ nameLimit

/-- Names that lead from a directory to a spot, through so many links at most. -/
inductive Leads (t : FileTree) (creating : Bool) : Nat → Place → List Bytes → Bool → Spot → Prop
  | directory {links : Nat} {place : Place} {slashed : Bool} :
    t.Leads creating links place [] slashed (.directory place)
  | here {links : Nat} {place : Place} {rest : List Bytes} {slashed : Bool} {spot : Spot} :
    t.Leads creating links place rest slashed spot →
      t.Leads creating links place (here :: rest) slashed spot
  | above {links : Nat} {place : Place} {rest : List Bytes} {slashed : Bool} {spot : Spot} :
    t.Leads creating links place.tail rest slashed spot →
      t.Leads creating links place (above :: rest) slashed spot
  | enter {links : Nat} {place : Place} {name : Bytes} {rest : List Bytes} {slashed : Bool}
      {spot : Spot} (hname : LookedUp creating name rest slashed)
      (hget : t.get? (name :: place) = some .directory) :
    t.Leads creating links (name :: place) rest slashed spot →
      t.Leads creating links place (name :: rest) slashed spot
  | follow {links : Nat} {place : Place} {name target : Bytes} {rest : List Bytes}
      {slashed : Bool} {spot : Spot} (hname : LookedUp creating name rest slashed)
      (hget : t.get? (name :: place) = some (.link target)) :
    t.Leads creating links (if target.fromRoot then [] else place) (target.names ++ rest)
        (slashed || (rest.isEmpty && target.endsInSlash)) spot →
      t.Leads creating (links + 1) place (name :: rest) slashed spot
  | file {links : Nat} {place : Place} {name content : Bytes}
      (hname : LookedUp creating name [] false)
      (hget : t.get? (name :: place) = some (.file content)) :
    t.Leads creating links place [name] false (.file (name :: place) content)
  | device {links : Nat} {place : Place} {name : Bytes} {d : Device}
      (hname : LookedUp creating name [] false)
      (hget : t.get? (name :: place) = some (.device d)) :
    t.Leads creating links place [name] false (.device d)
  | vacant {links : Nat} {place : Place} {name : Bytes} {slashed : Bool}
      (hname : LookedUp creating name [] slashed) (hget : t.get? (name :: place) = none) :
    t.Leads creating links place [name] slashed (.vacant (name :: place))

/-! ## Walks follow the rules -/

/-- How a walk goes on from a link when it may follow so many. -/
def onward (t : FileTree) (creating : Bool) (links : Nat) (place : Place) (target : Bytes)
    (rest : List Bytes) (slashed : Bool) : Except IoError Spot :=
  match links with
  | 0 => .error .tooManyLinks
  | links + 1 =>
    t.walk creating links (if target.fromRoot then [] else place) (target.names ++ rest)
      (slashed || (rest.isEmpty && target.endsInSlash))

section
variable (t : FileTree) (creating : Bool) (links : Nat)

theorem walk_eq_descend : t.walk creating links = t.descend creating (t.onward creating links) := by
  cases links <;> rfl

variable {place : Place} {name : Bytes} {rest : List Bytes} {slashed : Bool}

theorem walk_here : t.walk creating links place (here :: rest) slashed =
    t.walk creating links place rest slashed := by
  rw [walk_eq_descend, descend, if_pos rfl]

theorem walk_above : t.walk creating links place (above :: rest) slashed =
    t.walk creating links place.tail rest slashed := by
  rw [walk_eq_descend, descend, if_neg (by decide), if_pos rfl]

theorem walk_lookedUp (h : LookedUp creating name rest slashed) :
    t.walk creating links place (name :: rest) slashed =
      match t.get? (name :: place) with
      | none => if rest.isEmpty then .ok (.vacant (name :: place)) else .error .noSuchFile
      | some .directory => t.walk creating links (name :: place) rest slashed
      | some (.link target) => t.onward creating links place target rest slashed
      | some (.file content) =>
        if rest.isEmpty && !slashed then .ok (.file (name :: place) content)
        else .error .notADirectory
      | some (.device d) =>
        if rest.isEmpty && !slashed then .ok (.device d) else .error .notADirectory := by
  rewrite [walk_eq_descend, descend, if_neg h.notHere, if_neg h.notAbove,
    if_neg (Bool.eq_false_iff.1 h.unmade), if_neg (Nat.not_lt.2 h.fits)]
  rfl

end

section
variable {t : FileTree} {creating : Bool} {links : Nat} {place : Place} {slashed : Bool}
  {spot : Spot}

/-- A walk gets past a name only if that is looked up, or one of the two that are not. -/
theorem lookedUp_of_walk {name : Bytes} {rest : List Bytes}
    (h : t.walk creating links place (name :: rest) slashed = .ok spot) :
    name = here ∨ name = above ∨ LookedUp creating name rest slashed := by
  rw [walk_eq_descend, descend] at h
  split at h
  · exact .inl ‹_›
  split at h
  · exact .inr (.inl ‹_›)
  split at h
  · cases h
  split at h
  · cases h
  · exact .inr (.inr ⟨‹_›, ‹_›, Bool.eq_false_iff.2 ‹_›, Nat.not_lt.1 ‹_›⟩)

/-- What a walk finds, the rules lead to. The names run out first, then the links. -/
theorem leads_of_walk {names : List Bytes}
    (h : t.walk creating links place names slashed = .ok spot) :
    t.Leads creating links place names slashed spot := by
  induction links using Nat.strongRecOn generalizing place names slashed spot with
  | ind links ihLinks =>
  induction names generalizing place with
  | nil =>
    rw [walk_eq_descend] at h
    cases h
    exact .directory
  | cons name rest ih =>
    rcases lookedUp_of_walk h with rfl | rfl | hname
    · rw [walk_here] at h
      exact .here (ih h)
    · rw [walk_above] at h
      exact .above (ih h)
    rw [walk_lookedUp t creating links hname] at h
    split at h
    · rename_i hget
      split at h
      · rename_i hrest
        obtain rfl := List.isEmpty_iff.1 hrest
        cases h
        exact .vacant hname hget
      · cases h
    · rename_i hget
      exact .enter hname hget (ih h)
    · rename_i target hget
      cases links with
      | zero => cases h
      | succ links => exact .follow hname hget (ihLinks links (Nat.lt_succ_self links) h)
    · rename_i content hget
      split at h
      · rename_i hend
        simp only [Bool.and_eq_true, List.isEmpty_iff, Bool.not_eq_true'] at hend
        obtain ⟨rfl, rfl⟩ := hend
        cases h
        exact .file hname hget
      · cases h
    · rename_i d hget
      split at h
      · rename_i hend
        simp only [Bool.and_eq_true, List.isEmpty_iff, Bool.not_eq_true'] at hend
        obtain ⟨rfl, rfl⟩ := hend
        cases h
        exact .device hname hget
      · cases h

theorem Leads.walk {names : List Bytes} (h : t.Leads creating links place names slashed spot) :
    t.walk creating links place names slashed = .ok spot := by
  induction h with
  | directory => rw [walk_eq_descend, descend]
  | here _ ih => rw [walk_here, ih]
  | above _ ih => rw [walk_above, ih]
  | enter hname hget _ ih => rw [walk_lookedUp _ _ _ hname, hget]; exact ih
  | follow hname hget _ ih => rw [walk_lookedUp _ _ _ hname, hget]; exact ih
  | file hname hget => rw [walk_lookedUp _ _ _ hname, hget]; rfl
  | device hname hget => rw [walk_lookedUp _ _ _ hname, hget]; rfl
  | vacant hname hget => rw [walk_lookedUp _ _ _ hname, hget]; rfl

end

/-- **A path leads where the rules lead**, if it can be walked at all. -/
theorem resolve_eq_ok_iff {t : FileTree} {creating : Bool} {cwd : Place} {path : Bytes}
    {spot : Spot} :
    t.resolve creating cwd path = .ok spot ↔
      path.contains 0 = false ∧ path ≠ [] ∧ path.length < pathLimit ∧
        t.Leads creating linkLimit (if path.fromRoot then [] else cwd) path.names path.endsInSlash
          spot := by
  constructor
  · intro h
    unfold resolve at h
    split at h
    · cases h
    split at h
    · cases h
    split at h
    · cases h
    · exact ⟨Bool.eq_false_iff.2 ‹_›, ‹_›, Nat.not_le.1 ‹_›, leads_of_walk h⟩
  · rintro ⟨hnul, hempty, hlength, hleads⟩
    rw [resolve, if_neg (Bool.eq_false_iff.1 hnul), if_neg hempty, if_neg (Nat.not_le.2 hlength)]
    exact hleads.walk

/-! ## What is found -/

/-- The tree has at a spot what the spot says. -/
def Found (t : FileTree) : Spot → Prop
  | .file p content => p ≠ [] ∧ t.get? p = some (.file content)
  | .vacant p => p ≠ [] ∧ t.get? p = none
  | .directory _ | .device _ => True

theorem Leads.found {t : FileTree} {creating : Bool} {links : Nat} {place : Place}
    {names : List Bytes} {slashed : Bool} {spot : Spot}
    (h : t.Leads creating links place names slashed spot) : t.Found spot := by
  induction h with
  | directory => trivial
  | here _ ih => exact ih
  | above _ ih => exact ih
  | enter _ _ _ ih => exact ih
  | follow _ _ _ ih => exact ih
  | file _ hget => exact ⟨List.cons_ne_nil _ _, hget⟩
  | device => trivial
  | vacant _ hget => exact ⟨List.cons_ne_nil _ _, hget⟩

theorem found_of_resolve {t : FileTree} {creating : Bool} {cwd : Place} {path : Bytes} {spot : Spot}
    (h : t.resolve creating cwd path = .ok spot) : t.Found spot :=
  (resolve_eq_ok_iff.1 h).2.2.2.found

/-! ## For an output and for an input -/

theorem Leads.of_creating {t : FileTree} {links : Nat} {place : Place} {names : List Bytes}
    {slashed : Bool} {spot : Spot} (h : t.Leads true links place names slashed spot) :
    t.Leads false links place names slashed spot := by
  have hlooked : ∀ {name rest slashed}, LookedUp true name rest slashed →
      LookedUp false name rest slashed := fun h => ⟨h.notHere, h.notAbove, rfl, h.fits⟩
  induction h with
  | directory => exact .directory
  | here _ ih => exact .here ih
  | above _ ih => exact .above ih
  | enter hname hget _ ih => exact .enter (hlooked hname) hget ih
  | follow hname hget _ ih => exact .follow (hlooked hname) hget ih
  | file hname hget => exact .file (hlooked hname) hget
  | device hname hget => exact .device (hlooked hname) hget
  | vacant hname hget => exact .vacant (hlooked hname) hget

theorem resolve_of_creating {t : FileTree} {cwd : Place} {path : Bytes} {spot : Spot}
    (h : t.resolve true cwd path = .ok spot) : t.resolve false cwd path = .ok spot := by
  rw [resolve_eq_ok_iff] at h ⊢
  obtain ⟨hnul, hempty, hlength, hleads⟩ := h
  exact ⟨hnul, hempty, hlength, hleads.of_creating⟩

/-! ## After a file has been put somewhere -/

/-- A place where a file can be put: there is one, or there is nothing. -/
def Free (t : FileTree) (q : Place) : Prop :=
  q ≠ [] ∧ (t.get? q = none ∨ ∃ content, t.get? q = some (.file content))

/-- What a spot becomes when a file is put at a place. -/
def afterPut (q : Place) (new : Bytes) : Spot → Spot
  | .file p content => if p = q then .file q new else .file p content
  | .vacant p => if p = q then .file q new else .vacant p
  | spot => spot

/-- A path still leads where it did, unless it asks for a directory where the file is
put now. -/
theorem Leads.put {t : FileTree} {creating : Bool} {links : Nat} {place q : Place}
    {names : List Bytes} {slashed : Bool} {spot : Spot}
    (h : t.Leads creating links place names slashed spot) (hq : t.Free q) (new : Bytes)
    (hasked : creating = true ∨ spot ≠ .vacant q) :
    (t.put q (.file new)).Leads creating links place names slashed (afterPut q new spot) := by
  obtain ⟨hroot, hfree⟩ := hq
  -- Directories, links and devices are where no file is put.
  have hother : ∀ {p entry}, t.get? p = some entry → (∀ content, entry ≠ .file content) →
      (t.put q (.file new)).get? p = some entry := by
    intro p entry hget hentry
    rw [get?_put_of_ne t _ ?_, hget]
    rintro rfl
    rcases hfree with hnone | ⟨content, hfile⟩
    · rw [hget] at hnone
      cases hnone
    · rw [hget] at hfile
      exact hentry content (Option.some.inj hfile)
  induction h with
  | directory => exact .directory
  | here _ ih => exact .here (ih hasked)
  | above _ ih => exact .above (ih hasked)
  | enter hname hget _ ih => exact .enter hname (hother hget fun _ h => nomatch h) (ih hasked)
  | follow hname hget _ ih => exact .follow hname (hother hget fun _ h => nomatch h) (ih hasked)
  | device hname hget => exact .device hname (hother hget fun _ h => nomatch h)
  | @file links place name content hname hget =>
    by_cases hput : name :: place = q
    · subst hput
      simp only [afterPut, if_pos]
      exact .file hname (get?_put_self t _ hroot)
    · simp only [afterPut, if_neg hput]
      exact .file hname (by rw [get?_put_of_ne t _ hput, hget])
  | @vacant links place name slashed hname hget =>
    by_cases hput : name :: place = q
    · subst hput
      -- For an output no slash can follow the name.
      have hcreating : creating = true := hasked.resolve_right fun h => h rfl
      obtain rfl : slashed = false := by simpa [hcreating] using hname.unmade
      simp only [afterPut, if_pos]
      exact .file hname (get?_put_self t _ hroot)
    · simp only [afterPut, if_neg hput]
      exact .vacant hname (by rw [get?_put_of_ne t _ hput, hget])

/-- **Putting a file is seen at its place only**, through whatever path. -/
theorem resolve_put {t : FileTree} {creating : Bool} {cwd q : Place} {path : Bytes} {spot : Spot}
    (h : t.resolve creating cwd path = .ok spot) (hq : t.Free q) (new : Bytes)
    (hasked : creating = true ∨ spot ≠ .vacant q) :
    (t.put q (.file new)).resolve creating cwd path = .ok (afterPut q new spot) := by
  rw [resolve_eq_ok_iff] at h ⊢
  obtain ⟨hnul, hempty, hlength, hleads⟩ := h
  exact ⟨hnul, hempty, hlength, hleads.put hq new hasked⟩

theorem resolve_put_file {t : FileTree} {creating : Bool} {cwd p q : Place} {path content : Bytes}
    (h : t.resolve creating cwd path = .ok (.file p content)) (hq : t.Free q) (new : Bytes) :
    (t.put q (.file new)).resolve creating cwd path =
      .ok (if p = q then .file q new else .file p content) := by
  have hspot : Spot.file p content ≠ .vacant q := by simp
  exact resolve_put h hq new (.inr hspot)

end FileTree
end LowPass
