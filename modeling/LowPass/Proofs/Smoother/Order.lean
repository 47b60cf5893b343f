/-
A filter keeps the order of the samples that it may get next.

Rounding keeps the order (`nearest_mono`), and so does what is rounded out of range, since it
goes to the end of its side: on a line where the infinities stand at the limit of the finite
values (`height`), a sum and a product are their exact results, rounded and then clipped
(`height_add`, `height_mul`). That makes each operation of a step monotone
(`add_le_add_left`, `mul_le_mul_right`), whatever overflows, and a step in its sample
(`step_le_step`).

A step is not monotone in the output that it starts from, as the example after it shows: what
the larger output is ahead by can be less than what its difference loses by rounding.
-/
import LowPass.Binary32.Bits
import LowPass.Proofs.Smoother.History
import LowPass.Proofs.Smoother.Mirror

namespace LowPass
namespace Binary32

/-! ## The order -/

/-- The place of a value among the others: an infinity stands at the limit of the finite
values, which none of them reaches. -/
def height : Binary32 → Int
  | .infinite negative => if negative then -magLimit else magLimit
  | x => x.scaled

/-- The order of numbers. The zeros are equal in it, and NaN is not compared. -/
instance : LE Binary32 := ⟨fun x y => x ≠ .nan ∧ y ≠ .nan ∧ x.height ≤ y.height⟩

theorem le_def {x y : Binary32} : x ≤ y ↔ x ≠ .nan ∧ y ≠ .nan ∧ x.height ≤ y.height := .rfl

instance (x y : Binary32) : Decidable (x ≤ y) := decidable_of_iff _ le_def.symm

example : (-largest ≤ .infinite false ∧ zero false ≤ zero true) ∧ ¬ (.nan : Binary32) ≤ .nan := by
  decide

theorem height_of_isFinite {x : Binary32} (hx : x.isFinite = true) : x.height = x.scaled := by
  cases x with
  | finite => rfl
  | _ => cases hx

theorem natAbs_scaled_lt (x : Binary32) : x.scaled.natAbs < magLimit := (representable_scaled x).lt

theorem natAbs_height_le (x : Binary32) : x.height.natAbs ≤ magLimit := by
  cases x with
  | nan => exact Nat.zero_le _
  | infinite negative => cases negative <;> simp [height]
  | finite negative mag fits => exact Nat.le_of_lt (natAbs_scaled_lt (.finite negative mag fits))

theorem lowest_le {y : Binary32} (hy : y ≠ .nan) : .infinite true ≤ y := by
  have hlimit := natAbs_height_le y
  have hlow : (infinite true).height = -magLimit := rfl
  exact ⟨nofun, hy, by omega⟩

theorem le_highest {x : Binary32} (hx : x ≠ .nan) : x ≤ .infinite false := by
  have hlimit := natAbs_height_le x
  have hhigh : (infinite false).height = magLimit := rfl
  exact ⟨hx, nofun, by omega⟩

theorem eq_highest_of_le {y : Binary32} (h : .infinite false ≤ y) : y = .infinite false := by
  obtain ⟨-, hy, hle⟩ := h
  cases y with
  | nan => exact absurd rfl hy
  | infinite negative =>
    cases negative with
    | false => rfl
    | true => exact absurd hle (by decide)
  | finite negative mag fits =>
    have hlimit := natAbs_scaled_lt (.finite negative mag fits)
    have hle : (magLimit : Int) ≤ (finite negative mag fits).scaled := hle
    omega

/-- What is ordered is so by an infinity at its end, or as exact values are. -/
theorem le_cases {x y : Binary32} (h : x ≤ y) :
    (x = .infinite true ∧ y ≠ .nan) ∨ (x ≠ .nan ∧ y = .infinite false) ∨
      (x.isFinite = true ∧ y.isFinite = true ∧ x.scaled ≤ y.scaled) := by
  have ⟨hx, hy, hle⟩ := h
  cases x with
  | nan => exact absurd rfl hx
  | infinite negative =>
    cases negative with
    | true => exact .inl ⟨rfl, hy⟩
    | false => exact .inr (.inl ⟨hx, eq_highest_of_le h⟩)
  | finite s mag fits =>
    cases y with
    | nan => exact absurd rfl hy
    | infinite negative =>
      cases negative with
      | true =>
        have hlimit := natAbs_scaled_lt (.finite s mag fits)
        have hle : (finite s mag fits).scaled ≤ -(magLimit : Int) := hle
        omega
      | false => exact .inr (.inl ⟨hx, rfl⟩)
    | finite t mag' fits' => exact .inr (.inr ⟨rfl, rfl, hle⟩)

/-! ## Rounding -/

theorem nearest_mono {num num' : Int} {den : Nat} (hd : 0 < den) (h : num ≤ num') :
    nearest num den ≤ nearest num' den := by
  rcases le_or_gt 0 num with hpos | hneg
  · rw [nearest_of_nonneg hpos, nearest_of_nonneg (hpos.trans h), Int.ofNat_le]
    exact roundMag_mono hd (by omega)
  · rcases le_or_gt 0 num' with hpos' | hneg'
    · have hlow := nearest_nonneg (show 0 ≤ -num by omega) den
      have hhigh := nearest_nonneg hpos' den
      rw [nearest_neg] at hlow
      omega
    · have hmag : roundMag num'.natAbs den ≤ roundMag num.natAbs den := roundMag_mono hd (by omega)
      rw [nearest, if_pos hneg, nearest, if_pos hneg']
      omega

/-- The nearest place on the line of all values. -/
def clip (n : Int) : Int := max (-magLimit) (min magLimit n)

theorem clip_mono {m n : Int} (h : m ≤ n) : clip m ≤ clip n := by
  unfold clip
  omega

/-- **Rounding, in range or out of it.** A ratio with the right sign goes to its nearest value,
or to the end of its side. -/
theorem height_ofRatio {num : Int} {den : Nat} {negative : Bool}
    (hsign : num = 0 ∨ negative = decide (num < 0)) :
    (ofRatio negative num.natAbs den).height = clip (nearest num den) := by
  by_cases hrange : (nearest num den).natAbs < magLimit
  · obtain ⟨hfinite, hscaled⟩ := scaled_ofRatio hsign hrange
    rw [height_of_isFinite hfinite, hscaled, clip]
    omega
  · have hinfinite : ofRatio negative num.natAbs den = .infinite negative := by
      rw [natAbs_nearest] at hrange
      exact dif_neg hrange
    rw [hinfinite, clip]
    rcases hsign with rfl | rfl
    · exact absurd (show (nearest 0 den).natAbs < magLimit by rw [nearest_zero]; decide) hrange
    · rcases lt_or_ge num 0 with hneg | hpos
      · have hside := nearest_nonneg (show 0 ≤ -num by omega) den
        rw [nearest_neg] at hside
        simp only [height, hneg, decide_true, if_true]
        omega
      · have hside := nearest_nonneg hpos den
        simp only [height, not_lt.2 hpos, decide_false, Bool.false_eq_true, if_false]
        omega

theorem ofRatio_ne_nan (negative : Bool) (num den : Nat) : ofRatio negative num den ≠ .nan := by
  unfold ofRatio
  split
  · rintro ⟨⟩
  · rintro ⟨⟩

/-! ## Sums and products -/

protected theorem add_comm (x y : Binary32) : x + y = y + x := by
  rw [add_def, add_def]
  cases x with
  | nan => cases y <;> rfl
  | infinite s =>
    cases y with
    | infinite t => cases s <;> cases t <;> rfl
    | _ => rfl
  | finite s mag fits =>
    cases y with
    | finite t mag' fits' => simp only [add, Int.add_comm, Bool.and_comm]
    | _ => rfl

section
variable {w : Binary32} (hw : w.isFinite = true)
include hw

theorem height_add {x : Binary32} (hx : x.isFinite = true) :
    (w + x).height = clip (nearest (w.scaled + x.scaled) 1) := by
  rcases add_cases hw hx with ⟨hsum, sign, hadd⟩ | ⟨-, hadd⟩
  · rw [hadd, hsum, nearest_zero, height_of_isFinite (by rfl), scaled_zero]
    decide
  · rw [hadd]
    exact height_ofRatio (.inr rfl)

theorem add_ne_nan {x : Binary32} (hx : x ≠ .nan) : w + x ≠ .nan := by
  cases x with
  | nan => exact absurd rfl hx
  | infinite negative =>
    rw [add_infinite hw]
    exact nofun
  | finite s mag fits =>
    rcases add_cases (y := .finite s mag fits) hw rfl with ⟨-, sign, hadd⟩ | ⟨-, hadd⟩ <;> rw [hadd]
    · exact nofun
    · exact ofRatio_ne_nan _ _ _

/-- **A sum with a finite value is monotone.** -/
protected theorem add_le_add_left {x y : Binary32} (h : x ≤ y) : w + x ≤ w + y := by
  rcases le_cases h with ⟨rfl, hy⟩ | ⟨hx, rfl⟩ | ⟨hx, hy, hle⟩
  · rw [add_infinite hw]
    exact lowest_le (add_ne_nan hw hy)
  · rw [add_infinite hw]
    exact le_highest (add_ne_nan hw hx)
  · refine ⟨add_ne_nan hw h.1, add_ne_nan hw h.2.1, ?_⟩
    rw [height_add hw hx, height_add hw hy]
    exact clip_mono (nearest_mono Nat.one_pos (Int.add_le_add_left hle _))

protected theorem sub_le_sub_right {x y : Binary32} (h : x ≤ y) : x - w ≤ y - w := by
  rw [sub_def, sub_def, Binary32.add_comm x, Binary32.add_comm y]
  exact Binary32.add_le_add_left (by rwa [isFinite_neg]) h

end

section
variable {w : Binary32} (hw : 0 < w.scaled)
include hw

theorem exists_positive : ∃ mag fits, mag ≠ 0 ∧ w = .finite false mag fits := by
  cases w with
  | finite negative mag fits =>
    cases negative with
    | false => exact ⟨mag, fits, by rintro rfl; exact absurd hw (by simp [scaled]), rfl⟩
    | true => exact absurd hw (by simp [scaled])
  | _ => exact absurd hw (by simp [scaled])

theorem infinite_mul (negative : Bool) : .infinite negative * w = .infinite negative := by
  obtain ⟨mag, fits, hmag, rfl⟩ := exists_positive hw
  rw [mul_def, mul, if_neg hmag, Bool.xor_false]

theorem mul_ne_nan {x : Binary32} (hx : x ≠ .nan) : x * w ≠ .nan := by
  obtain ⟨mag, fits, -, rfl⟩ := exists_positive hw
  cases x with
  | nan => exact absurd rfl hx
  | infinite negative =>
    rw [infinite_mul hw]
    exact nofun
  | finite => exact ofRatio_ne_nan _ _ _

theorem height_mul {x : Binary32} (hx : x.isFinite = true) :
    (x * w).height = clip (nearest (x.scaled * w.scaled) (2 ^ 149)) := by
  obtain ⟨mag, fits, -, rfl⟩ := exists_positive hw
  obtain ⟨sign, hsign, hmul⟩ := mul_eq_ofRatio (y := .finite false mag fits) hx rfl
  rw [hmul]
  exact height_ofRatio hsign

/-- **A product with a positive value is monotone.** -/
protected theorem mul_le_mul_right {x y : Binary32} (h : x ≤ y) : x * w ≤ y * w := by
  rcases le_cases h with ⟨rfl, hy⟩ | ⟨hx, rfl⟩ | ⟨hx, hy, hle⟩
  · rw [infinite_mul hw]
    exact lowest_le (mul_ne_nan hw hy)
  · rw [infinite_mul hw]
    exact le_highest (mul_ne_nan hw hx)
  · refine ⟨mul_ne_nan hw h.1, mul_ne_nan hw h.2.1, ?_⟩
    rw [height_mul hw hx, height_mul hw hy]
    exact clip_mono (nearest_mono (Nat.two_pow_pos 149)
      (Int.mul_le_mul_of_nonneg_right hle (Int.le_of_lt hw)))

end

end Binary32

namespace Smoother

open Binary32

theorem weight_pos : 0 < weight.scaled := by rw [scaled_weight]; positivity

theorem step_le_step {s : Smoother} (hs : s.output.isFinite = true) {a b : Binary32} (h : a ≤ b) :
    (s.step a).output ≤ (s.step b).output := by
  have hdiff : a - s.output ≤ b - s.output := Binary32.sub_le_sub_right hs h
  have hprod : (a - s.output) * weight ≤ (b - s.output) * weight :=
    Binary32.mul_le_mul_right weight_pos hdiff
  exact Binary32.add_le_add_left hs hprod

/-- From −12 and from −11.75 towards 2²⁶: the larger comes out smaller. -/
example :
    let low : Smoother := ⟨.ofBits 0xc1400000⟩
    let high : Smoother := ⟨.ofBits 0xc13c0000⟩
    let x := Binary32.ofBits 0x4c800000
    low.output ≤ high.output ∧ ¬ (low.step x).output ≤ (high.step x).output := by
  decide +kernel

theorem serveAll_concat_sample (s : Smoother) (history : List Request) (x : Binary32) :
    s.serveAll (history ++ [Request.sample x]) =
      s.serveAll history ++
        [(.value ((s.after history).step x).output, ((s.after history).step x).output)] := by
  rw [serveAll_append]
  rfl

/-- **The output follows the newest sample.** From any finite output, of two samples the
larger has the larger output, and neither is NaN, even where a sample or an output is
infinite. So of two courses of requests that differ only in the last sample, all answers
before it are the same, and those to it are in the order of the two samples. -/
theorem newest_in_order {a b : Binary32} (h : a ≤ b) :
    (∀ s : Smoother, s.output.isFinite = true →
      (s.step a).output ≠ .nan ∧ (s.step b).output ≠ .nan ∧
        (s.step a).output ≤ (s.step b).output) ∧
      ∀ history : List Request, (fresh.after history).output.isFinite = true →
        ∃ y z : Binary32, y ≠ .nan ∧ z ≠ .nan ∧ y ≤ z ∧
          fresh.serveAll (history ++ [Request.sample a]) =
            fresh.serveAll history ++ [(Reply.value y, y)] ∧
          fresh.serveAll (history ++ [Request.sample b]) =
            fresh.serveAll history ++ [(Reply.value z, z)] := by
  have hstep : ∀ s : Smoother, s.output.isFinite = true →
      (s.step a).output ≠ .nan ∧ (s.step b).output ≠ .nan ∧
        (s.step a).output ≤ (s.step b).output := by
    intro s hs
    have hle := step_le_step hs h
    exact ⟨hle.1, hle.2.1, hle⟩
  refine ⟨hstep, fun history hhistory => ?_⟩
  obtain ⟨ha, hb, hle⟩ := hstep _ hhistory
  exact ⟨_, _, ha, hb, hle, serveAll_concat_sample .., serveAll_concat_sample ..⟩

/-- From the greatest output, the least sample is too far away and zero is not. -/
theorem newest_in_order_overflow :
    let s : Smoother := ⟨largest⟩
    let history := [Request.sample (.infinite false), .reset, .samples [largest, -.zero false]]
    s.output.isFinite = true ∧ -largest ≤ .zero true ∧
      (fresh.after history).output.isFinite = true ∧
      (s.step (-largest)).output = .infinite true ∧ (s.step (.zero true)).output.isFinite = true ∧
      (s.step (-largest)).output ≤ (s.step (.zero true)).output ∧
      ∃ y z : Binary32, y ≠ .nan ∧ z ≠ .nan ∧ y ≤ z ∧
        fresh.serveAll (history ++ [Request.sample (-largest)]) =
          fresh.serveAll history ++ [(Reply.value y, y)] ∧
        fresh.serveAll (history ++ [Request.sample (.zero true)]) =
          fresh.serveAll history ++ [(Reply.value z, z)] := by
  intro s history
  have hle : -largest ≤ .zero true := by decide
  have hfinite : (fresh.after history).output.isFinite = true := by decide +kernel
  obtain ⟨hstep, hserved⟩ := newest_in_order hle
  exact ⟨rfl, hle, hfinite, by decide +kernel, by decide +kernel, (hstep s rfl).2.2,
    hserved history hfinite⟩

end Smoother
end LowPass
