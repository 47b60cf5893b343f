/-
The low-pass filter: a single pole, the digital likeness of a resistor and a
capacitor. Every sample moves the output a fixed part of the way towards it,

  output ← output + (sample − output) · weight,

in binary32, each of the three operations rounded. The output is the whole
state: a filter is fresh when it is zero.
-/
import LowPass.Binary32.Arithmetic

namespace LowPass

/-- The part of the way that one sample moves the output: the binary32 value
nearest to 0.07, which is 9395241 / 2²⁷. -/
def Smoother.weight : Binary32 :=
  .finite false (9395241 <<< 122) ⟨9395241, 122, by decide, by decide, rfl⟩

/-- A filter, known by its last output. -/
structure Smoother where
  output : Binary32
  deriving DecidableEq

namespace Smoother

/-- A filter that has seen no sample. -/
def fresh : Smoother := ⟨.zero false⟩

instance : Inhabited Smoother := ⟨fresh⟩

/-- One sample. -/
def step (s : Smoother) (sample : Binary32) : Smoother :=
  ⟨s.output + (sample - s.output) * weight⟩

/-- A block of samples, one output for each, and the filter after them. -/
def block (s : Smoother) : List Binary32 → List Binary32 × Smoother
  | [] => ([], s)
  | x :: xs =>
    let (outputs, after) := (s.step x).block xs
    ((s.step x).output :: outputs, after)

/-- What can be asked of a filter. -/
inductive Request where
  /-- smooth one sample -/
  | sample (x : Binary32)
  /-- smooth a block of samples -/
  | samples (xs : List Binary32)
  /-- look at the output -/
  | output
  /-- go back to zero -/
  | reset
  /-- put a new filter in its place -/
  | renew

/-- What a filter answers. -/
inductive Reply where
  | value (y : Binary32)
  | values (ys : List Binary32)
  | done
  deriving DecidableEq

/-- Answers one request. -/
def serve (s : Smoother) : Request → Reply × Smoother
  | .sample x => (.value (s.step x).output, s.step x)
  | .samples xs => (.values (s.block xs).1, (s.block xs).2)
  | .output => (.value s.output, s)
  | .reset => (.done, ⟨.zero false⟩)
  | .renew => (.done, fresh)

/-- Answers requests in turn; each answer stands beside the output after it. -/
def serveAll (s : Smoother) : List Request → List (Reply × Binary32)
  | [] => []
  | r :: rs =>
    let (reply, after) := s.serve r
    (reply, after.output) :: after.serveAll rs

/-- A block is smoothed in two parts as it is at once. -/
theorem block_append (s : Smoother) (xs ys : List Binary32) :
    s.block (xs ++ ys) =
      ((s.block xs).1 ++ ((s.block xs).2.block ys).1, ((s.block xs).2.block ys).2) := by
  induction xs generalizing s with
  | nil => rfl
  | cons x xs ih => simp [block, ih]

theorem length_block (s : Smoother) (xs : List Binary32) : (s.block xs).1.length = xs.length := by
  induction xs generalizing s with
  | nil => rfl
  | cons x xs ih => simp [block, ih]

end Smoother
end LowPass
