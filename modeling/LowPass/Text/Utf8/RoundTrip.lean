/-
UTF-8 there and back. Reading what was written gives the characters back, and
bytes that can be read are those that writing gives: every text has one
well-formed spelling, so nothing overlong, no surrogate and nothing past
U+10FFFF is let through (`decode?_eq_some_iff`).

Both directions go form by form. `head_encodeChar` reads the form of one
character; `encodeChar_of_head` finds the character of a form that was read.
-/
import LowPass.Text.Utf8

namespace LowPass
namespace Utf8

theorem toNat_ofNat_byte {x : Nat} (h : x < 256) : (UInt8.ofNat x).toNat = x := by
  rw [UInt8.toNat_ofNat']
  exact Nat.mod_eq_of_lt h

theorem follow_ofNat {n : Nat} {low high : UInt8} {x : Nat} (code : Nat) (bs : Bytes)
    (hx : x < 256) (hlow : low.toNat ≤ x) (hhigh : x ≤ high.toNat) :
    follow (n + 1) low high code (.ofNat x :: bs) = follow n 0x80 0xBF (code * 64 + x % 64) bs := by
  simp only [follow, UInt8.le_iff_toNat_le, toNat_ofNat_byte hx]
  exact if_pos ⟨hlow, hhigh⟩

theorem follow_continuation {n x : Nat} (code : Nat) (bs : Bytes) (hx : 0x80 ≤ x ∧ x ≤ 0xBF) :
    follow (n + 1) 0x80 0xBF code (.ofNat x :: bs) = follow n 0x80 0xBF (code * 64 + x % 64) bs :=
  follow_ofNat code bs (by omega) hx.1 hx.2

theorem head_ofNat {x : Nat} {lead : Lead} (bs : Bytes) (hx : x < 256) (hlong : 0x80 ≤ x)
    (hlead : Lead.of? (.ofNat x) = some lead) :
    head (.ofNat x) bs =
      follow lead.following lead.low lead.high (x % (0x40 >>> lead.following)) bs := by
  simp only [head, UInt8.lt_iff_toNat_lt, toNat_ofNat_byte hx, hlead]
  exact if_neg (by simp; omega)

theorem lead_ofNat {x : Nat} (hx : x < 256) :
    Lead.of? (.ofNat x) =
      if 0xC2 ≤ x ∧ x ≤ 0xDF then some ⟨1, 0x80, 0xBF⟩
      else if x = 0xE0 then some ⟨2, 0xA0, 0xBF⟩
      else if x = 0xED then some ⟨2, 0x80, 0x9F⟩
      else if 0xE1 ≤ x ∧ x ≤ 0xEF then some ⟨2, 0x80, 0xBF⟩
      else if x = 0xF0 then some ⟨3, 0x90, 0xBF⟩
      else if 0xF1 ≤ x ∧ x ≤ 0xF3 then some ⟨3, 0x80, 0xBF⟩
      else if x = 0xF4 then some ⟨3, 0x80, 0x8F⟩
      else none := by
  simp only [Lead.of?, UInt8.le_iff_toNat_le, ← UInt8.toNat_inj, toNat_ofNat_byte hx]
  rfl

/-- The form of a character is read as that character, and no further. -/
theorem head_encodeChar (c : Char) (bs : Bytes) :
    ∃ b rest, String.utf8EncodeChar c = b :: rest ∧ head b (rest ++ bs) = (some c.toNat, bs) := by
  have hv : c.toNat < 0xD800 ∨ (0xDFFF < c.toNat ∧ c.toNat < 0x110000) := c.valid
  have hc : c.toNat = c.val.toNat := rfl
  simp only [String.utf8EncodeChar, ← hc]
  generalize c.toNat = v at hv ⊢
  split
  · refine ⟨_, _, rfl, ?_⟩
    have hx : v < 256 := by omega
    simp only [head, UInt8.lt_iff_toNat_lt, toNat_ofNat_byte hx]
    rw [if_pos (by simp; omega)]
    rfl
  · split
    · refine ⟨_, _, rfl, ?_⟩
      have hlead : Lead.of? (.ofNat (v / 64 % 32 + 192)) = some ⟨1, 0x80, 0xBF⟩ := by
        rw [lead_ofNat (by omega), if_pos (by omega)]
      rw [head_ofNat _ (by omega) (by omega) hlead]
      simp only [List.cons_append, List.nil_append, Nat.shiftRight_eq_div_pow]
      rw [follow_continuation _ _ (by omega)]
      simp only [follow, Prod.mk.injEq, Option.some.injEq, and_true]
      omega
    · split
      · refine ⟨_, _, rfl, ?_⟩
        obtain ⟨low, high, hlead, hlow, hhigh⟩ : ∃ low high,
            Lead.of? (.ofNat (v / 4096 % 16 + 224)) = some ⟨2, low, high⟩ ∧
            low.toNat ≤ v / 64 % 64 + 128 ∧ v / 64 % 64 + 128 ≤ high.toNat := by
          rw [lead_ofNat (by omega), if_neg (by omega)]
          split
          · exact ⟨_, _, rfl, by simp; omega, by simp; omega⟩
          · split
            · exact ⟨_, _, rfl, by simp, by simp; omega⟩
            · rw [if_pos (by omega)]
              exact ⟨_, _, rfl, by simp, by simp; omega⟩
        rw [head_ofNat _ (by omega) (by omega) hlead]
        simp only [List.cons_append, List.nil_append, Nat.shiftRight_eq_div_pow]
        rw [follow_ofNat _ _ (by omega) hlow hhigh, follow_continuation _ _ (by omega)]
        simp only [follow, Prod.mk.injEq, Option.some.injEq, and_true]
        omega
      · refine ⟨_, _, rfl, ?_⟩
        obtain ⟨low, high, hlead, hlow, hhigh⟩ : ∃ low high,
            Lead.of? (.ofNat (v / 262144 % 8 + 240)) = some ⟨3, low, high⟩ ∧
            low.toNat ≤ v / 4096 % 64 + 128 ∧ v / 4096 % 64 + 128 ≤ high.toNat := by
          rw [lead_ofNat (by omega), if_neg (by omega), if_neg (by omega), if_neg (by omega),
            if_neg (by omega)]
          split
          · exact ⟨_, _, rfl, by simp; omega, by simp; omega⟩
          · split
            · exact ⟨_, _, rfl, by simp, by simp; omega⟩
            · rw [if_pos (by omega)]
              exact ⟨_, _, rfl, by simp, by simp; omega⟩
        rw [head_ofNat _ (by omega) (by omega) hlead]
        simp only [List.cons_append, List.nil_append, Nat.shiftRight_eq_div_pow]
        rw [follow_ofNat _ _ (by omega) hlow hhigh, follow_continuation _ _ (by omega),
          follow_continuation _ _ (by omega)]
        simp only [follow, Prod.mk.injEq, Option.some.injEq, and_true]
        omega

theorem exists_char (v : Nat) (h : v.isValidChar) : ∃ c : Char, c.toNat = v :=
  ⟨Char.ofNatAux v h, rfl⟩

theorem follow_succ_eq_some {n : Nat} {low high : UInt8} {code r : Nat} {bs later : Bytes}
    (h : follow (n + 1) low high code bs = (some r, later)) :
    ∃ x more, bs = .ofNat x :: more ∧ (low.toNat ≤ x ∧ x ≤ high.toNat) ∧
      follow n 0x80 0xBF (code * 64 + x % 64) more = (some r, later) := by
  cases bs with
  | nil => simp [follow] at h
  | cons b bs =>
    simp only [follow] at h
    split at h
    · rename_i hb
      exact ⟨b.toNat, bs, by simp, by simpa only [UInt8.le_iff_toNat_le] using hb, h⟩
    · simp at h

theorem follow_zero_eq_some {low high : UInt8} {code r : Nat} {bs later : Bytes}
    (h : follow 0 low high code bs = (some r, later)) : r = code ∧ bs = later := by
  simpa [follow, eq_comm] using h

theorem encodeChar_two {c : Char} {x y : Nat} (hx : 0xC2 ≤ x ∧ x ≤ 0xDF)
    (hy : 0x80 ≤ y ∧ y ≤ 0xBF) (hc : c.toNat = x % 32 * 64 + y % 64) :
    String.utf8EncodeChar c = [.ofNat x, .ofNat y] := by
  have hv : c.toNat = c.val.toNat := rfl
  have h0 : (x % 32 * 64 + y % 64) / 64 % 32 + 192 = x := by omega
  have h1 : (x % 32 * 64 + y % 64) % 64 + 128 = y := by omega
  simp only [String.utf8EncodeChar, ← hv, hc, h0, h1]
  rw [if_neg (by omega), if_pos (by omega)]

theorem encodeChar_three {c : Char} {x y z : Nat} (hx : 0xE0 ≤ x ∧ x ≤ 0xEF)
    (hy : 0x80 ≤ y ∧ y ≤ 0xBF) (hz : 0x80 ≤ z ∧ z ≤ 0xBF) (hxy : x = 0xE0 → 0xA0 ≤ y)
    (hc : c.toNat = (x % 16 * 64 + y % 64) * 64 + z % 64) :
    String.utf8EncodeChar c = [.ofNat x, .ofNat y, .ofNat z] := by
  have hv : c.toNat = c.val.toNat := rfl
  have h0 : ((x % 16 * 64 + y % 64) * 64 + z % 64) / 4096 % 16 + 224 = x := by omega
  have h1 : ((x % 16 * 64 + y % 64) * 64 + z % 64) / 64 % 64 + 128 = y := by omega
  have h2 : ((x % 16 * 64 + y % 64) * 64 + z % 64) % 64 + 128 = z := by omega
  simp only [String.utf8EncodeChar, ← hv, hc, h0, h1, h2]
  rw [if_neg (by omega), if_neg (by omega), if_pos (by omega)]

theorem encodeChar_four {c : Char} {x y z w : Nat} (hx : 0xF0 ≤ x ∧ x ≤ 0xF4)
    (hy : 0x80 ≤ y ∧ y ≤ 0xBF) (hz : 0x80 ≤ z ∧ z ≤ 0xBF) (hw : 0x80 ≤ w ∧ w ≤ 0xBF)
    (hxy : x = 0xF0 → 0x90 ≤ y)
    (hc : c.toNat = ((x % 8 * 64 + y % 64) * 64 + z % 64) * 64 + w % 64) :
    String.utf8EncodeChar c = [.ofNat x, .ofNat y, .ofNat z, .ofNat w] := by
  have hv : c.toNat = c.val.toNat := rfl
  have h0 : (((x % 8 * 64 + y % 64) * 64 + z % 64) * 64 + w % 64) / 262144 % 8 + 240 = x := by
    omega
  have h1 : (((x % 8 * 64 + y % 64) * 64 + z % 64) * 64 + w % 64) / 4096 % 64 + 128 = y := by
    omega
  have h2 : (((x % 8 * 64 + y % 64) * 64 + z % 64) * 64 + w % 64) / 64 % 64 + 128 = z := by omega
  have h3 : (((x % 8 * 64 + y % 64) * 64 + z % 64) * 64 + w % 64) % 64 + 128 = w := by omega
  simp only [String.utf8EncodeChar, ← hv, hc, h0, h1, h2, h3]
  rw [if_neg (by omega), if_neg (by omega), if_neg (by omega)]

theorem encodeChar_of_follow_one {x code : Nat} {bs later : Bytes} (hx : 0xC2 ≤ x ∧ x ≤ 0xDF)
    (h : follow 1 0x80 0xBF (x % 32) bs = (some code, later)) :
    ∃ c : Char, c.toNat = code ∧ .ofNat x :: bs = String.utf8EncodeChar c ++ later := by
  obtain ⟨y, bs, rfl, hy, h⟩ := follow_succ_eq_some h
  obtain ⟨rfl, rfl⟩ := follow_zero_eq_some h
  simp at hy
  obtain ⟨c, hc⟩ := exists_char (x % 32 * 64 + y % 64) (by left; omega)
  exact ⟨c, hc, by rw [encodeChar_two hx hy hc]; rfl⟩

/-- The bounds of the second of three bytes keep out what two could spell, and
the surrogates. -/
theorem encodeChar_of_follow_two {x code : Nat} {low high : UInt8} {bs later : Bytes}
    (hx : 0xE0 ≤ x ∧ x ≤ 0xEF) (hlow : 0x80 ≤ low.toNat) (hhigh : high.toNat ≤ 0xBF)
    (hshort : x = 0xE0 → 0xA0 ≤ low.toNat) (hsurrogate : x = 0xED → high.toNat ≤ 0x9F)
    (h : follow 2 low high (x % 16) bs = (some code, later)) :
    ∃ c : Char, c.toNat = code ∧ .ofNat x :: bs = String.utf8EncodeChar c ++ later := by
  obtain ⟨y, bs, rfl, hy, h⟩ := follow_succ_eq_some h
  obtain ⟨z, bs, rfl, hz, h⟩ := follow_succ_eq_some h
  obtain ⟨rfl, rfl⟩ := follow_zero_eq_some h
  simp at hz
  obtain ⟨c, hc⟩ := exists_char ((x % 16 * 64 + y % 64) * 64 + z % 64)
    (by simp only [Nat.isValidChar]; omega)
  have hbytes := encodeChar_three hx (by omega) hz (fun e => Nat.le_trans (hshort e) hy.1) hc
  exact ⟨c, hc, by rw [hbytes]; rfl⟩

/-- The bounds of the second of four bytes keep out what three could spell, and
what is past U+10FFFF. -/
theorem encodeChar_of_follow_three {x code : Nat} {low high : UInt8} {bs later : Bytes}
    (hx : 0xF0 ≤ x ∧ x ≤ 0xF4) (hlow : 0x80 ≤ low.toNat) (hhigh : high.toNat ≤ 0xBF)
    (hshort : x = 0xF0 → 0x90 ≤ low.toNat) (hlast : x = 0xF4 → high.toNat ≤ 0x8F)
    (h : follow 3 low high (x % 8) bs = (some code, later)) :
    ∃ c : Char, c.toNat = code ∧ .ofNat x :: bs = String.utf8EncodeChar c ++ later := by
  obtain ⟨y, bs, rfl, hy, h⟩ := follow_succ_eq_some h
  obtain ⟨z, bs, rfl, hz, h⟩ := follow_succ_eq_some h
  obtain ⟨w, bs, rfl, hw, h⟩ := follow_succ_eq_some h
  obtain ⟨rfl, rfl⟩ := follow_zero_eq_some h
  simp at hz hw
  obtain ⟨c, hc⟩ := exists_char (((x % 8 * 64 + y % 64) * 64 + z % 64) * 64 + w % 64)
    (by simp only [Nat.isValidChar]; omega)
  have hbytes := encodeChar_four hx (by omega) hz hw (fun e => Nat.le_trans (hshort e) hy.1) hc
  exact ⟨c, hc, by rw [hbytes]; rfl⟩

theorem encodeChar_of_lead {x code : Nat} {lead : Lead} {bs later : Bytes} (hx : x < 256)
    (hlead : Lead.of? (.ofNat x) = some lead)
    (h : follow lead.following lead.low lead.high (x % (0x40 >>> lead.following)) bs =
      (some code, later)) :
    ∃ c : Char, c.toNat = code ∧ .ofNat x :: bs = String.utf8EncodeChar c ++ later := by
  rw [lead_ofNat hx] at hlead
  split at hlead
  · rename_i hx
    cases hlead
    exact encodeChar_of_follow_one hx h
  · split at hlead
    · cases hlead
      exact encodeChar_of_follow_two (by omega) (by simp) (by simp) (by simp) (by omega) h
    · split at hlead
      · cases hlead
        exact encodeChar_of_follow_two (by omega) (by simp) (by simp) (by omega) (by simp) h
      · split at hlead
        · cases hlead
          exact encodeChar_of_follow_two (by omega) (by simp) (by simp) (by omega) (by omega) h
        · split at hlead
          · cases hlead
            exact encodeChar_of_follow_three (by omega) (by simp) (by simp) (by simp) (by omega) h
          · split at hlead
            · cases hlead
              exact encodeChar_of_follow_three (by omega) (by simp) (by simp) (by omega) (by omega)
                h
            · split at hlead <;> cases hlead
              exact encodeChar_of_follow_three (by omega) (by simp) (by simp) (by omega) (by simp) h

theorem encodeChar_of_head_ofNat {x code : Nat} {bs later : Bytes} (hx : x < 256)
    (h : head (.ofNat x) bs = (some code, later)) :
    ∃ c : Char, c.toNat = code ∧ .ofNat x :: bs = String.utf8EncodeChar c ++ later := by
  rcases Nat.lt_or_ge x 0x80 with hs | hl
  · have hlt : UInt8.ofNat x < 0x80 := by
      rw [UInt8.lt_iff_toNat_lt, toNat_ofNat_byte hx]
      exact hs
    simp only [head, if_pos hlt, toNat_ofNat_byte hx, Prod.mk.injEq, Option.some.injEq] at h
    obtain ⟨rfl, rfl⟩ := h
    obtain ⟨c, hc⟩ := exists_char x (by left; omega)
    have hv : c.toNat = c.val.toNat := rfl
    refine ⟨c, hc, ?_⟩
    simp only [String.utf8EncodeChar, ← hv, hc]
    rw [if_pos (by omega)]
    rfl
  · have hlong : ¬ UInt8.ofNat x < 0x80 := by
      rw [UInt8.lt_iff_toNat_lt, toNat_ofNat_byte hx]
      exact Nat.not_lt.2 hl
    cases hlead : Lead.of? (.ofNat x) with
    | none => simp [head, hlong, hlead] at h
    | some lead =>
      rw [head_ofNat bs hx hl hlead] at h
      exact encodeChar_of_lead hx hlead h

theorem encodeChar_of_head {b : UInt8} {bs later : Bytes} {code : Nat}
    (h : head b bs = (some code, later)) :
    ∃ c : Char, c.toNat = code ∧ b :: bs = String.utf8EncodeChar c ++ later := by
  have hb : b = .ofNat b.toNat := by simp
  rw [hb] at h ⊢
  exact encodeChar_of_head_ofNat b.toNat_lt h

/-- Reading what was written. -/
theorem decode?_encode (cs : List Char) : decode? (encode cs) = some cs := by
  induction cs with
  | nil => simp [encode, decode?]
  | cons c cs ih =>
    obtain ⟨b, rest, hb, hhead⟩ := head_encodeChar c (encode cs)
    have hcons : encode (c :: cs) = b :: (rest ++ encode cs) := by
      simp [encode, hb]
    rw [hcons, decode?, hhead]
    simp [ih]

/-- What can be read was written so. -/
theorem eq_encode_of_decode? {bs : Bytes} {cs : List Char} (h : decode? bs = some cs) :
    bs = encode cs := by
  fun_induction decode? bs generalizing cs with
  | case1 => cases h; rfl
  | case2 => cases h
  | case3 b bs code hc ih =>
    obtain ⟨ds, hd, rfl⟩ := Option.map_eq_some_iff.1 h
    obtain ⟨c, rfl, hbs⟩ := encodeChar_of_head (Prod.ext hc rfl)
    have htail := ih hd
    simp only [encode, List.flatMap_cons, Char.ofNat_toNat] at htail ⊢
    rw [hbs, ← htail]

theorem decode?_eq_some_iff {bs : Bytes} {cs : List Char} :
    decode? bs = some cs ↔ bs = encode cs :=
  ⟨eq_encode_of_decode?, fun h => h ▸ decode?_encode cs⟩

end Utf8

theorem Bytes.text?_ofText (s : String) : (Bytes.ofText s).text? = some s := by
  rw [text?, ofText, Utf8.decode?_encode, Option.map_some, String.ofList_toList]

theorem Bytes.text?_eq_some_iff {bs : Bytes} {s : String} :
    bs.text? = some s ↔ bs = .ofText s := by
  constructor
  · intro h
    obtain ⟨cs, hcs, rfl⟩ := Option.map_eq_some_iff.1 h
    rw [ofText, String.toList_ofList]
    exact Utf8.eq_encode_of_decode? hcs
  · rintro rfl
    exact text?_ofText s

theorem Bytes.lossyText_ofText (s : String) : (Bytes.ofText s).lossyText = s := by
  rw [lossyText, ofText, Utf8.decodeLossily_of_decode? (Utf8.decode?_encode s.toList), String.ofList_toList]

end LowPass
