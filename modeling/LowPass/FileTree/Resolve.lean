/-
What a path leads to.

A path is walked name by name, and every name but the last has to be that of a
directory. A link is replaced by the path that it stands for, wherever it
occurs; not more than 40 links are followed in one walk, so every walk ends. A
slash after the last name says that a directory is meant.
-/
import LowPass.FileTree.Basic
import LowPass.IoError
import LowPass.Segments

namespace LowPass

/-- The byte between the names of a path. -/
def slash : UInt8 := 0x2F

/-- The names in a path. -/
def Bytes.names (path : Bytes) : List Bytes := segments (· == slash) path

/-- Whether a path starts at the root. -/
def Bytes.fromRoot (path : Bytes) : Bool := path.head? == some slash

/-- Whether a path ends in a slash. -/
def Bytes.endsInSlash (path : Bytes) : Bool := path.getLast? == some slash

/-- Where a walk has ended. -/
inductive Spot where
  | directory (p : Place)
  | file (p : Place) (content : Bytes)
  | device (d : Device)
  /-- nothing is there, but the directory for it is -/
  | vacant (p : Place)
  deriving DecidableEq

namespace FileTree

/-- The longest name. -/
def nameLimit : Nat := 255

/-- The length that a path does not reach. -/
def pathLimit : Nat := 4096

/-- How many links are followed. -/
def linkLimit : Nat := 40

def here : Bytes := [0x2E]
def above : Bytes := [0x2E, 0x2E]

/-- Follows names from a directory up to the first link; `onLink` says how to go
on from there, given where the link is, its target, the names after it and
whether a slash follows them. If a file is to be created, its name is not looked
at when a slash follows it. -/
def descend (t : FileTree) (creating : Bool)
    (onLink : Place → Bytes → List Bytes → Bool → Except IoError Spot) (place : Place)
    (names : List Bytes) (slashed : Bool) : Except IoError Spot :=
  match names with
  | [] => .ok (.directory place)
  | name :: rest =>
    if name = here then t.descend creating onLink place rest slashed
    else if name = above then t.descend creating onLink place.tail rest slashed
    else if creating && slashed && rest.isEmpty then .error .isADirectory
    else if nameLimit < name.length then .error .nameTooLong
    else match t.get? (name :: place) with
      | none => if rest.isEmpty then .ok (.vacant (name :: place)) else .error .noSuchFile
      | some .directory => t.descend creating onLink (name :: place) rest slashed
      | some (.link target) => onLink place target rest slashed
      | some (.file content) =>
        if rest.isEmpty && !slashed then .ok (.file (name :: place) content)
        else .error .notADirectory
      | some (.device d) =>
        if rest.isEmpty && !slashed then .ok (.device d) else .error .notADirectory

/-- Follows names from a directory, and not more than so many links. -/
def walk (t : FileTree) (creating : Bool) :
    Nat → Place → List Bytes → Bool → Except IoError Spot
  | 0 => t.descend creating fun _ _ _ _ => .error .tooManyLinks
  | links + 1 => t.descend creating fun place target rest slashed =>
    t.walk creating links (if target.fromRoot then [] else place) (target.names ++ rest)
      (slashed || (rest.isEmpty && target.endsInSlash))

/-- Where a path leads, from a directory in which it is meant. -/
def resolve (t : FileTree) (creating : Bool) (cwd : Place) (path : Bytes) : Except IoError Spot :=
  if path.contains 0 then .error .nulInName
  else if path = [] then .error .noSuchFile
  else if pathLimit ≤ path.length then .error .nameTooLong
  else
    t.walk creating linkLimit (if path.fromRoot then [] else cwd) path.names path.endsInSlash

end FileTree
end LowPass
