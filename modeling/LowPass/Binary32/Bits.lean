/-
The 32-bit form of a binary32 value: sign, eight exponent bits, 23 fraction
bits. The exponent field counts the doublings of the unit from one on, and a
subnormal has none, so for a finite magnitude the two lower fields together are
`gap * 2²³` plus the significand, leading bit included. Reading what was written
gives the value back (`ofBits_toBits`).
-/
import LowPass.Binary32.Round

namespace LowPass
namespace Binary32

/-- The value of a bit pattern; every NaN pattern is the one NaN. -/
def ofBits (bits : UInt32) : Binary32 :=
  let negative := decide (0x80000000 ≤ bits.toNat)
  let exponent := bits.toNat / 0x800000 % 0x100
  let fraction := bits.toNat % 0x800000
  if h : exponent = 255 then
    if fraction = 0 then .infinite negative else .nan
  else if exponent = 0 then
    .finite negative fraction (.of_lt (by omega))
  else
    .finite negative ((0x800000 + fraction) <<< (exponent - 1))
      ⟨0x800000 + fraction, exponent - 1, by omega, by omega, rfl⟩

/-- The bit pattern of a value; for a NaN the quiet one without a payload. -/
def toBits : Binary32 → UInt32
  | .nan => 0x7fc00000
  | .infinite negative => if negative then 0xff800000 else 0x7f800000
  | .finite negative mag _ =>
    .ofNat ((if negative then 0x80000000 else 0) + gap mag * 0x800000 + mag >>> gap mag)

theorem ofBits_eq_finite {bits : UInt32} {negative : Bool} {mag : Nat} (fits : Representable mag)
    (hsign : decide (0x80000000 ≤ bits.toNat) = negative)
    (hrange : bits.toNat / 0x800000 % 0x100 ≠ 255)
    (hmag : mag = if bits.toNat / 0x800000 % 0x100 = 0 then bits.toNat % 0x800000
      else (0x800000 + bits.toNat % 0x800000) <<< (bits.toNat / 0x800000 % 0x100 - 1)) :
    ofBits bits = .finite negative mag fits := by
  subst hsign
  simp only [ofBits, dif_neg hrange]
  split <;> rename_i h <;> simp only [h, if_true, if_false] at hmag <;> subst hmag <;> rfl

/-- The fields of a word that is put together from a sign, a number of places
and a significand: the leading bit of the significand counts as a place. -/
theorem fields_ofNat (negative : Bool) {places significand : Nat} (hp : places ≤ 253)
    (hs : significand < 0x1000000) :
    let word := UInt32.ofNat ((if negative then 0x80000000 else 0) + places * 0x800000 + significand)
    decide (0x80000000 ≤ word.toNat) = negative ∧
      word.toNat / 0x800000 % 0x100 = places + significand / 0x800000 ∧
      word.toNat % 0x800000 = significand % 0x800000 := by
  intro word
  have hword : word.toNat =
      (if negative then 0x80000000 else 0) + places * 0x800000 + significand := by
    simp only [word, UInt32.toNat_ofNat']
    apply Nat.mod_eq_of_lt
    split <;> omega
  cases negative <;> simp at hword ⊢ <;> omega

/-- The bits of a value are those of no other. -/
theorem ofBits_toBits (x : Binary32) : ofBits x.toBits = x := by
  cases x with
  | nan => decide
  | infinite negative => cases negative <;> decide
  | finite negative mag fits =>
    rcases fits.lt_or_normal with hlt | ⟨m, k, hge, hlt, hk, rfl⟩
    · obtain ⟨hsign, hexp, hfrac⟩ := fields_ofNat negative (Nat.zero_le 253) hlt
      simp only [toBits, gap_of_lt hlt, Nat.shiftRight_zero]
      refine ofBits_eq_finite fits hsign (by omega) ?_
      rw [hexp, hfrac]
      rcases Nat.lt_or_ge mag 0x800000 with hsmall | hge
      · rw [if_pos (by omega)]
        omega
      · have hone : 0 + mag / 0x800000 - 1 = 0 := by omega
        rw [if_neg (by omega), hone, Nat.shiftLeft_zero]
        omega
    · obtain ⟨hsign, hexp, hfrac⟩ := fields_ofNat negative hk hlt
      simp only [toBits, gap_shiftLeft k hge hlt, Nat.shiftLeft_shiftRight]
      refine ofBits_eq_finite fits hsign (by omega) ?_
      have hm : 0x800000 + m % 0x800000 = m := by omega
      have hk' : k + m / 0x800000 - 1 = k := by omega
      rw [hexp, hfrac, if_neg (by omega), hm, hk']

end Binary32
end LowPass
