import Mathlib.Data.List.Basic

/-!
# C strings and sscanf

Byte strings, what a C function sees of them, and `sscanf` for formats made of text, white space
and `%s`. A `%s` without a width skips white space and reads up to the next white space or the
end: literal text behind it in the format is never met by the input it has left.
-/
namespace JamSched

abbrev Bytes := List UInt8

/-- The bytes of a text of ASCII characters. -/
def ascii (text : List Char) : Bytes := text.map fun c => UInt8.ofNat c.toNat

/-- What is left of a byte string that is passed as a C string: `strlen` stops at the first NUL. -/
def cStr (s : Bytes) : Bytes := s.takeWhile (· ≠ 0)

/-- `isspace` of the C locale. -/
def isSpace (c : UInt8) : Bool := c = 32 || (9 ≤ c && c ≤ 13)

/-- One piece of a format. -/
inductive Directive where
  | lit (c : UInt8)
  | space
  /-- `%s` -/
  | string
  deriving DecidableEq, Repr

/-- A format without other conversions than `%s`. -/
def parseFormat : Bytes → List Directive
  | [] => []
  | 37 :: 115 :: fmt => .string :: parseFormat fmt
  | c :: fmt => (if isSpace c then .space else .lit c) :: parseFormat fmt

/-- The strings that the `%s` of the format store, up to the first directive that fails. -/
def sscanf : List Directive → Bytes → List Bytes
  | [], _ => []
  | .space :: fmt, input => sscanf fmt (input.dropWhile isSpace)
  | .lit _ :: _, [] => []
  | .lit c :: fmt, x :: input => if x = c then sscanf fmt input else []
  | .string :: fmt, input =>
    let input := input.dropWhile isSpace
    match input.takeWhile (!isSpace ·) with
    | [] => []
    | c :: word => (c :: word) :: sscanf fmt (input.dropWhile (!isSpace ·))

/-- The word that `%s` reads next. -/
def scanWord (input : Bytes) : Bytes := (input.dropWhile isSpace).takeWhile (!isSpace ·)

/-- `sscanf` stores a string with its NUL in a buffer of `n` bytes that are zero and one more byte;
`none` when it writes behind the buffer. -/
def storeString (n : Nat) (word : Bytes) : Option Bytes :=
  if word.length ≤ n then some (word ++ List.replicate (n - word.length) 0) else none

/-- The literal text before the first conversion is skipped. -/
theorem sscanf_lit (text : Bytes) (fmt : List Directive) (input : Bytes) :
    sscanf (text.map .lit ++ fmt) (text ++ input) = sscanf fmt input := by
  induction text with
  | nil => rfl
  | cons c text ih => simpa [sscanf] using ih

/-- Behind a word that `%s` has read there is white space or the end. -/
theorem sscanf_lit_dropWhile {c : UInt8} (hc : isSpace c = false) (fmt : List Directive)
    (input : Bytes) : sscanf (.lit c :: fmt) (input.dropWhile (!isSpace ·)) = [] := by
  induction input with
  | nil => rfl
  | cons x input ih =>
    cases hx : isSpace x
    · simpa [List.dropWhile_cons, hx] using ih
    · have hne : x ≠ c := by
        rintro rfl
        rw [hx] at hc
        cases hc
      simp [hx, sscanf, hne]

/-- A `%s` with literal text behind it is the last conversion that succeeds. -/
theorem sscanf_string_lit {c : UInt8} (hc : isSpace c = false) (fmt : List Directive)
    (input : Bytes) :
    sscanf (.string :: .lit c :: fmt) input =
      if scanWord input = [] then [] else [scanWord input] := by
  unfold sscanf scanWord
  dsimp only
  split
  · next h => simp [h]
  · next d word h => simp [h, sscanf_lit_dropWhile hc]

theorem cStr_append {s : Bytes} (h : 0 ∉ s) (t : Bytes) : cStr (s ++ t) = s ++ cStr t := by
  induction s with
  | nil => rfl
  | cons c s ih =>
    rw [List.mem_cons, not_or] at h
    have hc : c ≠ 0 := Ne.symm h.1
    simpa [cStr, hc] using ih h.2

/-- A C string without NUL is the whole byte string. -/
theorem cStr_eq_self {s : Bytes} (h : 0 ∉ s) : cStr s = s := by
  simpa [cStr] using cStr_append h []

theorem cStr_cStr (s : Bytes) : cStr (cStr s) = cStr s := by
  induction s with
  | nil => rfl
  | cons c s ih =>
    by_cases hc : c = 0
    · simp [cStr, hc]
    · simpa [cStr, hc] using ih

/-- A NUL cuts the string off in front of it. -/
theorem cStr_cut {s : Bytes} (h : 0 ∈ s) (t : Bytes) :
    ∃ k < s.length, cStr (s ++ t) = s.take k := by
  induction s with
  | nil => cases h
  | cons c s ih =>
    by_cases hc : c = 0
    · exact ⟨0, by simp, by simp [cStr, hc]⟩
    · have hs : 0 ∈ s := by simpa [Ne.symm hc] using h
      obtain ⟨k, hk, heq⟩ := ih hs
      refine ⟨k + 1, by simpa using hk, ?_⟩
      simpa [cStr, hc] using heq

end JamSched
