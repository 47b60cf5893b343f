/-
Rounding an exact ratio to binary32, to nearest and ties to even.

Below 2²⁴ units every integer is representable; above, the unit in the last
place doubles with every binade. `gap` is how many places that unit has moved,
and the magnitude is the nearest multiple of it (`roundMag`). Rounding up to the
next binade needs no second case: 2²⁴ times a unit is 2²³ times the next one.
`roundMag_fits` says that what is within range is representable.
-/
import LowPass.Rounding
import LowPass.Binary32.Basic

namespace LowPass
namespace Binary32

/-- How many doublings the unit in the last place has gone through at a
magnitude: none for the subnormals and the first normal binade. -/
def gap (mag : Nat) : Nat := mag.log2 - 23

/-- `num / den`, in units of 2⁻¹⁴⁹, rounded to 24 significant bits. -/
def roundMag (num den : Nat) : Nat :=
  let places := gap (num / den)
  nearestEven num (den <<< places) <<< places

theorem gap_of_lt {mag : Nat} (h : mag < 0x1000000) : gap mag = 0 := by
  rcases Nat.eq_zero_or_pos mag with rfl | hpos
  · rfl
  · have hlog : mag.log2 < 24 := (Nat.log2_lt (by omega)).2 h
    simp only [gap]
    omega

/-- With its leading bit set, a significand tells how far it is shifted. -/
theorem gap_shiftLeft {m : Nat} (k : Nat) (hge : 0x800000 ≤ m) (hlt : m < 0x1000000) :
    gap (m <<< k) = k := by
  have hpos : 0 < m * 2 ^ k := Nat.mul_pos (by omega) (Nat.two_pow_pos k)
  have hlow : 23 + k ≤ (m * 2 ^ k).log2 := by
    rw [Nat.le_log2 (by omega), Nat.pow_add]
    exact Nat.mul_le_mul_right _ hge
  have hhigh : (m * 2 ^ k).log2 < 24 + k := by
    rw [Nat.log2_lt (by omega), Nat.pow_add]
    exact Nat.mul_lt_mul_of_pos_right hlt (Nat.two_pow_pos k)
  simp only [gap, Nat.shiftLeft_eq]
  omega

theorem shiftRight_gap_lt (mag : Nat) : mag >>> gap mag < 0x1000000 := by
  rw [Nat.shiftRight_eq_div_pow, Nat.div_lt_iff_lt_mul (Nat.two_pow_pos _)]
  have h : 0x1000000 * 2 ^ gap mag = 2 ^ (24 + gap mag) := (Nat.pow_add 2 24 _).symm
  rw [h]
  apply Nat.lt_of_lt_of_le Nat.lt_log2_self
  apply Nat.pow_le_pow_right (by decide)
  simp only [gap]; omega

theorem le_shiftRight_gap {mag : Nat} (h : gap mag ≠ 0) : 0x800000 ≤ mag >>> gap mag := by
  have hlog : 23 < mag.log2 := by simp only [gap] at h; omega
  have hne : mag ≠ 0 := by rintro rfl; simp at hlog
  rw [Nat.shiftRight_eq_div_pow, Nat.le_div_iff_mul_le (Nat.two_pow_pos _)]
  have hpow : 0x800000 * 2 ^ gap mag = 2 ^ (23 + gap mag) := (Nat.pow_add 2 23 _).symm
  have hexp : 23 + gap mag = mag.log2 := by simp only [gap]; omega
  rw [hpow, hexp]
  exact Nat.log2_self_le hne

/-- A magnitude below the limit that rounding gives is representable. -/
theorem roundMag_fits {num den : Nat} (h : roundMag num den < magLimit) :
    Representable (roundMag num den) := by
  simp only [roundMag, magLimit] at h ⊢
  generalize hk : gap (num / den) = k at h ⊢
  generalize hm : nearestEven num (den <<< k) = m at h ⊢
  have hdiv : num / (den <<< k) = (num / den) >>> k := by
    rw [Nat.shiftLeft_eq, Nat.shiftRight_eq_div_pow, Nat.div_div_eq_div_mul]
  have hq : num / (den <<< k) < 0x1000000 := by rw [hdiv, ← hk]; exact shiftRight_gap_lt _
  have hle : m ≤ 0x1000000 := by
    rcases nearestEven_eq_or num (den <<< k) with h | h <;> omega
  have hlow : k = 0 ∨ 0x800000 ≤ m := by
    rcases Nat.eq_zero_or_pos k with h0 | h0
    · exact .inl h0
    · have : 0x800000 ≤ (num / den) >>> k := by
        rw [← hk]; exact le_shiftRight_gap (by omega)
      rcases nearestEven_eq_or num (den <<< k) with h | h <;> omega
  simp only [Nat.shiftLeft_eq] at h
  have small : ∀ {a b : Nat}, 2 ^ a * 2 ^ b < 2 ^ 24 * 2 ^ 253 → a + b < 277 := by
    intro a b hlt
    simp only [← Nat.pow_add] at hlt
    have := (Nat.pow_lt_pow_iff_right (by decide)).1 hlt
    omega
  rcases Nat.lt_or_ge m 0x1000000 with hlt | hge
  · refine ⟨m, k, hlt, ?_, rfl⟩
    rcases hlow with h0 | h23
    · omega
    · have hm23 : 2 ^ 23 ≤ m := h23
      have := small (Nat.lt_of_le_of_lt (Nat.mul_le_mul_right _ hm23) h)
      omega
  · obtain rfl : m = 0x1000000 := by omega
    refine ⟨0x800000, k + 1, by decide, ?_, by simp only [Nat.shiftLeft_eq, Nat.pow_succ]; omega⟩
    have := small (a := 24) (b := k) h
    omega

/-- The binary32 value nearest to `± num / den` units: beyond the range an
infinity, and a zero keeps the sign. -/
def ofRatio (negative : Bool) (num den : Nat) : Binary32 :=
  if h : roundMag num den < magLimit then .finite negative (roundMag num den) (roundMag_fits h)
  else .infinite negative

/-- Representable magnitudes are kept. -/
theorem roundMag_of_fits {mag : Nat} (h : Representable mag) : roundMag mag 1 = mag := by
  obtain ⟨m, k, hm, hk, rfl⟩ := h
  simp only [roundMag, Nat.div_one, Nat.shiftLeft_eq, Nat.one_mul]
  rcases Nat.eq_zero_or_pos m with rfl | hpos
  · simp [nearestEven]
  · have hle : gap (m * 2 ^ k) ≤ k := by
      have hlt : m * 2 ^ k < 2 ^ (24 + k) := by
        rw [Nat.pow_add]; exact Nat.mul_lt_mul_of_pos_right hm (Nat.two_pow_pos k)
      have hne : m * 2 ^ k ≠ 0 := Nat.mul_ne_zero (by omega) (Nat.ne_of_gt (Nat.two_pow_pos k))
      have := (Nat.log2_lt hne).2 hlt
      simp only [gap]; omega
    have hsplit : m * 2 ^ k = (m * 2 ^ (k - gap (m * 2 ^ k))) * 2 ^ gap (m * 2 ^ k) := by
      rw [Nat.mul_assoc, ← Nat.pow_add]; congr 2; omega
    generalize gap (m * 2 ^ k) = g at hsplit ⊢
    rw [hsplit, nearestEven_mul_right _ (Nat.two_pow_pos g)]

end Binary32
end LowPass
