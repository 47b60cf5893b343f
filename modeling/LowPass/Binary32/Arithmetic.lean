/-
Sum, difference and product of binary32 values, each its exact result rounded
once. Opposite infinities have no sum and an infinity has no product with zero:
both are NaN, and NaN spreads.
-/
import LowPass.Binary32.Round

namespace LowPass
namespace Binary32

/-- A sum of zero is positive, unless both terms are negative. -/
def add : Binary32 → Binary32 → Binary32
  | .nan, _ => .nan
  | _, .nan => .nan
  | .infinite s, .infinite t => if s = t then .infinite s else .nan
  | .infinite s, .finite .. => .infinite s
  | .finite .., .infinite t => .infinite t
  | x@(.finite s _ _), y@(.finite t _ _) =>
    let sum := x.scaled + y.scaled
    if sum = 0 then zero (s && t) else ofRatio (sum < 0) sum.natAbs 1

instance : Add Binary32 := ⟨add⟩
instance : Sub Binary32 := ⟨fun x y => x + -y⟩

/-- The exact product counts units of 2⁻²⁹⁸. -/
def mul : Binary32 → Binary32 → Binary32
  | .nan, _ => .nan
  | _, .nan => .nan
  | .infinite s, .infinite t => .infinite (s ^^ t)
  | .infinite s, .finite t mag _ => if mag = 0 then .nan else .infinite (s ^^ t)
  | .finite s mag _, .infinite t => if mag = 0 then .nan else .infinite (s ^^ t)
  | .finite s mag _, .finite t mag' _ => ofRatio (s ^^ t) (mag * mag') (1 <<< 149)

instance : Mul Binary32 := ⟨mul⟩

theorem add_def (x y : Binary32) : x + y = x.add y := rfl
theorem sub_def (x y : Binary32) : x - y = x + -y := rfl
theorem mul_def (x y : Binary32) : x * y = x.mul y := rfl

end Binary32
end LowPass
