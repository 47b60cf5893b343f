/-
What a run needs from where its files are: to open an input, to make an output,
and to smooth the one into the other. `FileTree.host` gives it on a file tree,
as a state that is read and changed.
-/
import LowPass.FileTree.Open
import LowPass.Smoothing

namespace LowPass

/-- What keeps an input from being read. -/
inductive Obstacle where
  /-- it cannot be opened -/
  | unopened (e : IoError)
  | directory
  /-- it is open, but cannot be told from a directory -/
  | unexamined (e : IoError)
  deriving DecidableEq

structure Host (m : Type → Type) where
  /-- a file that has been opened -/
  File : Type
  /-- opens an input that is no directory -/
  openInput : Bytes → m (Except Obstacle File)
  /-- opens an output, empty -/
  create : Bytes → m (Except IoError File)
  /-- smooths what an input holds by now into an output -/
  smooth : File → File → m Outcome

/-- The host of a file tree, with paths meant from a directory. -/
def FileTree.host (cwd : Place) : Host (StateM FileTree) where
  File := OpenFile
  openInput path := fun t =>
    (match t.openInput cwd path with
      | .error e => .error (.unopened e)
      | .ok none => .error .directory
      | .ok (some f) => .ok f, t)
  create path := fun t => t.create cwd path
  smooth input output := fun t =>
    let (outcome, sink) := LowPass.smooth (t.read input) (FileTree.sink output)
    (outcome, t.keep sink.taken.toList output)

end LowPass
