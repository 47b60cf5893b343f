/-
Six decimal places against 24 binary ones. A magnitude is rounded to millionths
and these are rounded to a magnitude again (`ofMillionths`).

The second rounding finds the magnitude nearest to the millionths, and the old
one is not more than half a millionth away from them, so the new one is within a
millionth of the old (`ofMillionths_near`). From 16 on magnitudes are more than a
millionth apart: the new one is the old one (`ofMillionths_millionths`). Up to 16
they are less than a millionth apart: the new one has the same millionths
(`millionths_ofMillionths`). So the millionths never change (`millionths_reread`).
-/
import LowPass.Decimal.Fixed
import LowPass.Proofs.Binary32.Spacing

namespace LowPass
namespace Fixed

open Binary32

/-- The magnitude nearest to so many millionths. -/
def ofMillionths (count : Nat) : Nat := roundMag (count * 2 ^ 149) 1000000

theorem millionths_eq (mag : Nat) : millionths mag = nearestEven (mag * 1000000) (2 ^ 149) := by
  rw [millionths, Nat.shiftLeft_eq, Nat.one_mul]

theorem millionths_near (mag : Nat) :
    2 * |((millionths mag * 2 ^ 149 : Nat) : Int) - (1000000 * mag : Nat)| ≤ 2 ^ 149 := by
  have hup := @nearestEven_le (mag * 1000000) _ (Nat.two_pow_pos 149)
  have hdown := @le_nearestEven (mag * 1000000) _ (Nat.two_pow_pos 149)
  rw [← millionths_eq, Nat.mul_comm (2 ^ 149), Nat.mul_comm mag] at hup hdown
  generalize millionths mag * 2 ^ 149 = n at hup hdown ⊢
  simp only [Int.abs_eq_natAbs]
  omega

/-- The new magnitude is as near to the millionths as any. -/
theorem ofMillionths_closest {mag : Nat} (h : Representable mag) (count : Nat) :
    |((1000000 * ofMillionths count : Nat) : Int) - (count * 2 ^ 149 : Nat)| ≤
      |((1000000 * mag : Nat) : Int) - (count * 2 ^ 149 : Nat)| :=
  roundMag_closest (by decide) h

/-- **Within a millionth** the new magnitude is the old one. -/
theorem ofMillionths_near {mag : Nat} (h : Representable mag) :
    1000000 * |(ofMillionths (millionths mag) : Int) - mag| ≤ 2 ^ 149 := by
  have hold := millionths_near mag
  have hnew := ofMillionths_closest h (millionths mag)
  generalize ofMillionths (millionths mag) = r at hnew ⊢
  generalize millionths mag * 2 ^ 149 = n at hold hnew
  rw [abs_sub_comm] at hold
  push_cast at hold hnew
  calc 1000000 * |(r : Int) - mag| = |1000000 * (r : Int) - 1000000 * mag| := by
        rw [← mul_sub, abs_mul, Nat.abs_ofNat]
    _ ≤ |1000000 * (r : Int) - n| + |n - 1000000 * (mag : Int)| := abs_sub_le _ _ _
    _ ≤ 2 ^ 149 := by
        rw [abs_sub_comm (n : Int)]
        linarith

/-! ## From 16 on -/

theorem representable_sixteen : Representable (2 ^ 153) := ⟨16, 149, by decide, by decide, rfl⟩

theorem le_millionths {mag : Nat} (h : 2 ^ 153 ≤ mag) : 16000000 ≤ millionths mag := by
  rw [millionths_eq]
  apply le_nearestEven_of_le (Nat.two_pow_pos 149)
  omega

theorem millionths_le {mag : Nat} (h : mag ≤ 2 ^ 153) : millionths mag ≤ 16000000 := by
  rw [millionths_eq]
  apply nearestEven_le_of_le (Nat.two_pow_pos 149)
  omega

theorem ofMillionths_le {count : Nat} (h : count ≤ 16000000) : ofMillionths count ≤ 2 ^ 153 := by
  apply roundMag_le_of_le (by decide) representable_sixteen
  omega

theorem le_gap {mag : Nat} (h : 2 ^ 153 ≤ mag) : 130 ≤ gap mag := by
  by_contra hgap
  have := gap_le_iff.1 (show gap mag ≤ 129 by omega)
  omega

/-- **What is at least 16 is found again.** -/
theorem ofMillionths_millionths {mag : Nat} (h : Representable mag) (hlarge : 2 ^ 153 ≤ mag) :
    ofMillionths (millionths mag) = mag := by
  have hnear := ofMillionths_near h
  have hcount : 2 ^ 153 ≤ millionths mag * 2 ^ 149 / 1000000 := by
    rw [Nat.le_div_iff_mul_le (by decide)]
    have := Nat.mul_le_mul_right (2 ^ 149) (le_millionths hlarge)
    omega
  -- Both are multiples of 2¹³⁰ units, which is more than a millionth.
  obtain ⟨m, hm⟩ : 2 ^ 130 ∣ mag := Nat.dvd_trans (pow_dvd_pow 2 (le_gap hlarge)) (two_pow_gap_dvd h)
  obtain ⟨n, hn⟩ : 2 ^ 130 ∣ ofMillionths (millionths mag) :=
    Nat.dvd_trans (pow_dvd_pow 2 (le_gap hcount)) two_pow_gap_dvd_roundMag
  have hapart : |(n : Int) - m| < 1 := by
    rw [hn, hm] at hnear
    push_cast at hnear
    rw [← mul_sub, abs_mul, abs_of_pos (by norm_num)] at hnear
    by_contra hne
    linarith
  rw [hn, hm]
  have := Int.abs_lt_one_iff.1 hapart
  congr 1
  omega

/-! ## Up to 16 -/

/-- So many millionths are not half a millionth away from their magnitude. -/
theorem ofMillionths_near_of_le {count : Nat} (h : count ≤ 16000000) :
    2 * |((1000000 * ofMillionths count : Nat) : Int) - (count * 2 ^ 149 : Nat)| <
      (2 ^ 149 : Nat) := by
  rcases Nat.eq_or_lt_of_le h with rfl | hlt
  · have hexact := ofMillionths_closest representable_sixteen 16000000
    have hsixteen : ((1000000 * 2 ^ 153 : Nat) : Int) - (16000000 * 2 ^ 149 : Nat) = 0 := by
      norm_num
    rw [hsixteen, abs_zero] at hexact
    calc 2 * |((1000000 * ofMillionths 16000000 : Nat) : Int) - (16000000 * 2 ^ 149 : Nat)| ≤ 0 := by
          linarith
      _ < (2 ^ 149 : Nat) := by norm_num
  · have herror := @roundMag_error_unit 1000000 (by decide) (count * 2 ^ 149)
    have hgap : gap (count * 2 ^ 149 / 1000000) ≤ 129 := by
      rw [gap_le_iff, Nat.div_lt_iff_lt_mul (by decide)]
      omega
    have hunit : 1000000 * 2 ^ gap (count * 2 ^ 149 / 1000000) < 2 ^ 149 :=
      calc 1000000 * 2 ^ gap (count * 2 ^ 149 / 1000000) ≤ 1000000 * 2 ^ 129 :=
            Nat.mul_le_mul_left _ (Nat.pow_le_pow_right (by decide) hgap)
        _ < 2 ^ 149 := by norm_num
    exact lt_of_le_of_lt herror (by exact_mod_cast hunit)

/-- **Up to 16 no millionth is lost.** -/
theorem millionths_ofMillionths {count : Nat} (h : count ≤ 16000000) :
    millionths (ofMillionths count) = count := by
  rw [millionths_eq]
  apply nearestEven_eq_of_lt (Nat.two_pow_pos 149)
  rw [abs_sub_comm, Nat.mul_comm (2 ^ 149), Nat.mul_comm (ofMillionths count)]
  exact ofMillionths_near_of_le h

/-! ## Any magnitude -/

theorem ofMillionths_lt {mag : Nat} (h : Representable mag) :
    ofMillionths (millionths mag) < magLimit := by
  rcases Nat.le_total (2 ^ 153) mag with hlarge | hsmall
  · rw [ofMillionths_millionths h hlarge]
    exact h.lt
  · exact Nat.lt_of_le_of_lt (ofMillionths_le (millionths_le hsmall)) representable_sixteen.lt

theorem representable_ofMillionths {mag : Nat} (h : Representable mag) :
    Representable (ofMillionths (millionths mag)) := roundMag_fits (ofMillionths_lt h)

/-- **The millionths are those of the new magnitude too.** -/
theorem millionths_reread {mag : Nat} (h : Representable mag) :
    millionths (ofMillionths (millionths mag)) = millionths mag := by
  rcases Nat.le_total (2 ^ 153) mag with hlarge | hsmall
  · rw [ofMillionths_millionths h hlarge]
  · exact millionths_ofMillionths (millionths_le hsmall)

end Fixed
end LowPass
