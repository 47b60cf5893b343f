/-
How input arrives. A reader asks again and again, and each time some bytes come,
in whatever portions, or an error; after the last arrival the input is at its
end. An interruption is no failure: the reader asks again.

`readLine` takes one line. It and what is left make up all that was to come
(`content_readLine`); a line that an error cuts is lost with it.
-/
import LowPass.IoError
import LowPass.Text.Utf8

namespace LowPass

/-- What comes when input is asked for: at least one byte, or an error. -/
inductive Arrival where
  | bytes (first : UInt8) (more : Bytes)
  | error (e : IoError)
  deriving DecidableEq

namespace Arrival

/-- Bytes that arrive together, before others. -/
def together : Bytes → List Arrival → List Arrival
  | [], later => later
  | b :: bs, later => .bytes b bs :: later

/-- The bytes of all arrivals. -/
def content : List Arrival → Bytes
  | [] => []
  | .bytes b bs :: later => b :: bs ++ content later
  | .error _ :: later => content later

/-- Bytes that arrive in portions of a size. Portions of no bytes bring none. -/
def portions (size : Nat) (bs : Bytes) : List Arrival :=
  match size, bs with
  | 0, _ => []
  | _, [] => []
  | size + 1, b :: bs => .bytes b (bs.take size) :: portions (size + 1) (bs.drop size)
termination_by bs.length
decreasing_by simp only [List.length_cons, List.length_drop]; omega

@[simp] theorem content_together (bs : Bytes) (later : List Arrival) :
    content (together bs later) = bs ++ content later := by
  cases bs <;> rfl

theorem content_portions {size : Nat} (h : size ≠ 0) (bs : Bytes) :
    content (portions size bs) = bs := by
  fun_induction portions size bs with
  | case1 => contradiction
  | case2 => rfl
  | case3 size b bs ih => simp [content, ih]

end Arrival

/-- The byte that ends a line. -/
def newline : UInt8 := 10

/-- Cuts after the first newline, if there is one. -/
def cutLine? : Bytes → Option (Bytes × Bytes)
  | [] => none
  | b :: bs =>
    if b = newline then some ([b], bs)
    else (cutLine? bs).map fun (line, later) => (b :: line, later)

theorem append_of_cutLine? {bs line later : Bytes} (h : cutLine? bs = some (line, later)) :
    line ++ later = bs := by
  induction bs generalizing line with
  | nil => simp [cutLine?] at h
  | cons b bs ih =>
    simp only [cutLine?] at h
    split at h
    · simp only [Option.some.injEq, Prod.mk.injEq] at h
      rw [← h.1, ← h.2]
      rfl
    · simp only [Option.map_eq_some_iff, Prod.exists, Prod.mk.injEq] at h
      obtain ⟨l, r, hlr, rfl, rfl⟩ := h
      simp [ih hlr]

/-- What reading a line comes to. -/
inductive LineRead where
  /-- a line with its newline, which only the last may lack; at the end, nothing -/
  | line (text : Bytes) (later : List Arrival)
  | failed (e : IoError) (later : List Arrival)

namespace LineRead

/-- Puts bytes in front of a line; a failure loses them. -/
def prepend (bs : Bytes) : LineRead → LineRead
  | .line text later => .line (bs ++ text) later
  | .failed e later => .failed e later

/-- What is left to arrive. -/
def later : LineRead → List Arrival
  | .line _ later => later
  | .failed _ later => later

end LineRead

/-- Reads to the next newline or to the end. -/
def readLine : List Arrival → LineRead
  | [] => .line [] []
  | .error e :: later => if e.kind = .interrupted then readLine later else .failed e later
  | .bytes b bs :: later =>
    match cutLine? (b :: bs) with
    | some (line, rest) => .line line (Arrival.together rest later)
    | none => (readLine later).prepend (b :: bs)

/-- A line and what is left are all that was to come. -/
theorem content_readLine {as later : List Arrival} {text : Bytes}
    (h : readLine as = .line text later) : text ++ Arrival.content later = Arrival.content as := by
  induction as generalizing text with
  | nil => cases h; rfl
  | cons a as ih =>
    cases a with
    | error e =>
      simp only [readLine] at h
      split at h
      · exact ih h
      · cases h
    | bytes b bs =>
      simp only [readLine] at h
      split at h
      · rename_i line rest hcut
        cases h
        rw [Arrival.content_together, ← List.append_assoc, append_of_cutLine? hcut]
        rfl
      · cases hr : readLine as with
        | failed e l => rw [hr] at h; cases h
        | line t l =>
          rw [hr] at h
          cases h
          rw [List.append_assoc, ih hr]
          rfl

theorem length_content_readLine {as later : List Arrival} {b : UInt8} {bs : Bytes}
    (h : readLine as = .line (b :: bs) later) :
    (Arrival.content later).length < (Arrival.content as).length := by
  rw [← content_readLine h, List.length_append, List.length_cons]
  omega

end LowPass
