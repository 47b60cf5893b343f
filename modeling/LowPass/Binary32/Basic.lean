/-
The numbers of the filter: IEEE 754 binary32.

A finite value is kept as its sign and its magnitude, counted in units of the
smallest subnormal, 2⁻¹⁴⁹. On that scale every finite value is an integer
(`scaled`), a sum is exact, and a product is an exact ratio, so a single
rounding (`LowPass.Binary32.Round`) serves every operation and reading decimal
text too. The two zeros are apart; a NaN carries nothing, so there is one.
-/

namespace LowPass

/-- A count of smallest subnormals that binary32 can hold: at most 24
significant bits, shifted by at most 253 places. -/
def Representable (mag : Nat) : Prop :=
  ∃ significand shift, significand < 0x1000000 ∧ shift ≤ 253 ∧ mag = significand <<< shift

theorem Representable.of_lt {mag : Nat} (h : mag < 0x1000000) : Representable mag :=
  ⟨mag, 0, h, by decide, by simp⟩

/-- The first magnitude out of reach. -/
def magLimit : Nat := 0x1000000 <<< 253

theorem Representable.lt {mag : Nat} (h : Representable mag) : mag < magLimit := by
  obtain ⟨m, k, hm, hk, rfl⟩ := h
  simp only [magLimit, Nat.shiftLeft_eq]
  exact Nat.lt_of_lt_of_le (Nat.mul_lt_mul_of_pos_right hm (Nat.two_pow_pos k))
    (Nat.mul_le_mul_left _ (Nat.pow_le_pow_right (by decide) hk))

/-- A representable magnitude that is not small has a significand with its
leading bit set. -/
theorem Representable.lt_or_normal {mag : Nat} (h : Representable mag) :
    mag < 0x1000000 ∨
      ∃ m k, 0x800000 ≤ m ∧ m < 0x1000000 ∧ k ≤ 253 ∧ mag = m <<< k := by
  obtain ⟨m, k, hm, hk, rfl⟩ := h
  induction k generalizing m with
  | zero => exact .inl hm
  | succ k ih =>
    rcases Nat.lt_or_ge m 0x800000 with hlt | hge
    · have hshift : m <<< (k + 1) = (2 * m) <<< k := by
        simp only [Nat.shiftLeft_eq, Nat.pow_succ]
        rw [Nat.mul_comm 2 m, Nat.mul_assoc, Nat.mul_comm 2]
      rw [hshift]
      exact ih (2 * m) (by omega) (by omega)
    · exact .inr ⟨m, k + 1, hge, hm, hk, rfl⟩

/-- A binary32 value. -/
inductive Binary32 where
  | nan
  | infinite (negative : Bool)
  | finite (negative : Bool) (mag : Nat) (fits : Representable mag)
  deriving DecidableEq

namespace Binary32

/-- The zero of a sign. -/
def zero (negative : Bool) : Binary32 := .finite negative 0 (.of_lt (by decide))

instance : Inhabited Binary32 := ⟨zero false⟩

/-- The value of a finite number in units of 2⁻¹⁴⁹; both zeros give `0`, and so
do the values that are no number. -/
def scaled : Binary32 → Int
  | .finite negative mag _ => if negative then -(mag : Int) else mag
  | _ => 0

def isFinite : Binary32 → Bool
  | .finite .. => true
  | _ => false

/-- The other sign; a NaN has none. -/
def neg : Binary32 → Binary32
  | .nan => .nan
  | .infinite negative => .infinite (!negative)
  | .finite negative mag fits => .finite (!negative) mag fits

instance : Neg Binary32 := ⟨neg⟩

theorem neg_def (x : Binary32) : -x = x.neg := rfl

@[simp] theorem scaled_zero (negative : Bool) : (zero negative).scaled = 0 := by
  cases negative <;> rfl

@[simp] theorem scaled_neg (x : Binary32) : (-x).scaled = -x.scaled := by
  cases x with
  | nan => rfl
  | infinite => rfl
  | finite negative mag fits => cases negative <;> simp [neg_def, neg, scaled]

@[simp] theorem isFinite_neg (x : Binary32) : (-x).isFinite = x.isFinite := by cases x <;> rfl

@[simp] theorem neg_neg (x : Binary32) : - -x = x := by cases x <;> simp [neg_def, neg]

end Binary32
end LowPass
