/-
A survey of a directory: everything below it, as its paths show it. Links are
followed, so a file or a directory is listed under every path that leads to it;
a link that leads nowhere is listed too, with nothing to see.
-/
import LowPass.FileTree.Resolve

namespace LowPass

/-- What a path shows. -/
inductive Sight where
  | directory
  | content (bytes : Bytes)
  | nothing
  deriving DecidableEq

namespace FileTree

/-- Whether one path sorts before another or is the same, byte by byte. -/
def sortsBefore : Bytes → Bytes → Bool
  | [], _ => true
  | _ :: _, [] => false
  | a :: as, b :: bs => a < b || (a == b && sortsBefore as bs)

/-- What is below a directory, which is itself reached by a path with a slash
after it, down to a depth. -/
def below (t : FileTree) (cwd : Place) (route : Bytes) (directory : Place) :
    Nat → List (Bytes × Sight)
  | 0 => []
  | depth + 1 =>
    (t.namesIn directory).flatMap fun name =>
      let path := route ++ name
      match t.resolve false cwd path with
      | .ok (.directory p) =>
        (path ++ [slash], .directory) :: t.below cwd (path ++ [slash]) p depth
      | .ok (.file _ content) => [(path, .content content)]
      | .ok (.device _) => [(path, .content [])]
      | _ => [(path, .nothing)]

/-- Everything below a directory, in the order of the paths. No path that leads
anywhere has more names than its length allows. -/
def survey (t : FileTree) (cwd : Place) : List (Bytes × Sight) :=
  (t.below cwd [] cwd pathLimit).mergeSort fun x y => sortsBefore x.1 y.1

end FileTree
end LowPass
