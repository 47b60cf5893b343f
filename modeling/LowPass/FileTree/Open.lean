/-
Opening files. An input is a file or a device and may turn out to be a
directory; an output is emptied if it is there and made if it is not. What an
opened file holds is looked up when it is read, not when it is opened.
-/
import LowPass.Arrival
import LowPass.FileTree.Resolve
import LowPass.Sink

namespace LowPass

/-- A file that has been opened. -/
inductive OpenFile where
  | file (p : Place)
  | device (d : Device)
  deriving DecidableEq

namespace FileTree

/-- Opens an input; nothing, if it is a directory. -/
def openInput (t : FileTree) (cwd : Place) (path : Bytes) : Except IoError (Option OpenFile) :=
  match t.resolve false cwd path with
  | .ok (.file p _) => .ok (some (.file p))
  | .ok (.device d) => .ok (some (.device d))
  | .ok (.directory _) => .ok none
  | .ok (.vacant _) => .error .noSuchFile
  | .error e => .error e

/-- Opens an output, empty. -/
def create (t : FileTree) (cwd : Place) (path : Bytes) : Except IoError OpenFile × FileTree :=
  match t.resolve true cwd path with
  | .ok (.file p _) => (.ok (.file p), t.put p (.file []))
  | .ok (.vacant p) => (.ok (.file p), t.put p (.file []))
  | .ok (.device d) => (.ok (.device d), t)
  | .ok (.directory _) => (.error .isADirectory, t)
  | .error e => (.error e, t)

/-- What reading an opened file brings. A device that has no end brings nothing
that a reader could wait for. -/
def read (t : FileTree) : OpenFile → List Arrival
  | .file p =>
    match t.get? p with
    | some (.file content) => Arrival.together content []
    | _ => []
  | .device _ => []

/-- What takes the bytes written to an opened file. -/
def sink : OpenFile → Sink
  | .file _ => {}
  | .device .null => {}
  | .device .full => { room := some 0, refusal := .error .noSpace }

/-- Keeps the bytes written to an opened file; a device keeps none. -/
def keep (t : FileTree) (content : Bytes) : OpenFile → FileTree
  | .file p => t.put p (.file content)
  | .device _ => t

/-- Puts a file with a content where a path leads. -/
def write (t : FileTree) (cwd : Place) (path content : Bytes) : FileTree :=
  match t.create cwd path with
  | (.ok f, t) => t.keep content f
  | (.error _, t) => t

/-- Puts directories at a place and at all places on the way to it, where there
is nothing yet. -/
def makeDirectories (t : FileTree) : Place → FileTree
  | [] => t
  | name :: parent =>
    let t := t.makeDirectories parent
    if (t.get? (name :: parent)).isSome then t else t.put (name :: parent) .directory

end FileTree
end LowPass
