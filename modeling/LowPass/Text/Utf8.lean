/-
UTF-8: the bytes of a text, and the text of bytes.

A first byte announces how many bytes follow it and which of them can come
first (`Lead.of?`); those bounds keep out overlong forms, surrogates and code
points past U+10FFFF. `head` reads one character, or the longest part that
could still have become one. `decode?` refuses any such part; `decodeLossily`
shows each as one U+FFFD.
-/

namespace LowPass

abbrev Bytes := List UInt8

namespace Utf8

/-- What the first byte of a longer form announces: how many bytes follow, and
between which bounds the next one lies. The others are any continuation. -/
structure Lead where
  following : Nat
  low : UInt8
  high : UInt8

def Lead.of? (b : UInt8) : Option Lead :=
  if 0xC2 ≤ b ∧ b ≤ 0xDF then some ⟨1, 0x80, 0xBF⟩
  else if b = 0xE0 then some ⟨2, 0xA0, 0xBF⟩
  else if b = 0xED then some ⟨2, 0x80, 0x9F⟩
  else if 0xE1 ≤ b ∧ b ≤ 0xEF then some ⟨2, 0x80, 0xBF⟩
  else if b = 0xF0 then some ⟨3, 0x90, 0xBF⟩
  else if 0xF1 ≤ b ∧ b ≤ 0xF3 then some ⟨3, 0x80, 0xBF⟩
  else if b = 0xF4 then some ⟨3, 0x80, 0x8F⟩
  else none

/-- Adds the bytes that follow to a code point, six bits each. Without one of
them there is no code point; the byte that does not fit is left. -/
def follow : Nat → UInt8 → UInt8 → Nat → Bytes → Option Nat × Bytes
  | 0, _, _, code, bs => (some code, bs)
  | _ + 1, _, _, _, [] => (none, [])
  | n + 1, low, high, code, b :: bs =>
    if low ≤ b ∧ b ≤ high then follow n 0x80 0xBF (code * 64 + b.toNat % 64) bs
    else (none, b :: bs)

/-- The code point that a first byte and what follows begin with, if they are
well formed, and what is left after the well-formed or ill-formed part. -/
def head (b : UInt8) (bs : Bytes) : Option Nat × Bytes :=
  if b < 0x80 then (some b.toNat, bs)
  else match Lead.of? b with
    | none => (none, bs)
    | some lead =>
      follow lead.following lead.low lead.high (b.toNat % (0x40 >>> lead.following)) bs

theorem length_follow (n : Nat) (low high : UInt8) (code : Nat) (bs : Bytes) :
    (follow n low high code bs).2.length ≤ bs.length := by
  fun_induction follow n low high code bs with
  | case1 => exact Nat.le_refl _
  | case2 => exact Nat.le_refl _
  | case3 => exact Nat.le_succ_of_le ‹_›
  | case4 => exact Nat.le_refl _

theorem length_head (b : UInt8) (bs : Bytes) : (head b bs).2.length ≤ bs.length := by
  simp only [head]
  split
  · exact Nat.le_refl _
  · split
    · exact Nat.le_refl _
    · exact length_follow ..

/-- The characters of well-formed bytes. -/
def decode? : Bytes → Option (List Char)
  | [] => some []
  | b :: bs =>
    match (head b bs).1 with
    | none => none
    | some code => (decode? (head b bs).2).map (Char.ofNat code :: ·)
termination_by bs => bs.length
decreasing_by have := length_head b bs; simp only [List.length_cons]; omega

theorem length_le_of_decode? {bs : Bytes} {cs : List Char} (h : decode? bs = some cs) :
    cs.length ≤ bs.length := by
  fun_induction decode? bs generalizing cs with
  | case1 => cases h; exact Nat.le_refl _
  | case2 => cases h
  | case3 b bs code hc ih =>
    obtain ⟨ds, hd, rfl⟩ := Option.map_eq_some_iff.1 h
    exact Nat.succ_le_succ (Nat.le_trans (ih hd) (length_head b bs))

/-- The characters of any bytes, each ill-formed part shown as U+FFFD. -/
def decodeLossily : Bytes → List Char
  | [] => []
  | b :: bs => Char.ofNat ((head b bs).1.getD 0xFFFD) :: decodeLossily (head b bs).2
termination_by bs => bs.length
decreasing_by have := length_head b bs; simp only [List.length_cons]; omega

/-- Well-formed bytes have no part that is shown so. -/
theorem decodeLossily_of_decode? {bs : Bytes} {cs : List Char} (h : decode? bs = some cs) :
    decodeLossily bs = cs := by
  fun_induction decode? bs generalizing cs with
  | case1 =>
    cases h
    rw [decodeLossily]
  | case2 => cases h
  | case3 b bs code hc ih =>
    obtain ⟨ds, hd, rfl⟩ := Option.map_eq_some_iff.1 h
    rw [decodeLossily, hc, ih hd]
    rfl

/-- The bytes of characters. -/
def encode (cs : List Char) : Bytes := cs.flatMap String.utf8EncodeChar

end Utf8

/-- The text of well-formed bytes. -/
def Bytes.text? (bs : Bytes) : Option String := (Utf8.decode? bs).map String.ofList

/-- The text of any bytes, ill-formed parts shown as U+FFFD. -/
def Bytes.lossyText (bs : Bytes) : String := .ofList (Utf8.decodeLossily bs)

/-- The bytes of a text. -/
def Bytes.ofText (s : String) : Bytes := Utf8.encode s.toList

end LowPass
