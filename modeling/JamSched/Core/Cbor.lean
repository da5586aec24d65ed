import JamSched.Core.CString
import Mathlib.Algebra.Group.Nat.Defs
import Mathlib.Tactic.SplitIfs

/-!
# Text strings in CBOR

The encoding of a text string: a header of 1, 2, 3, 5 or 9 bytes that tells the length, then the
bytes. The decoder is the reverse for one text string of definite length and accepts no other
input.
-/
namespace JamSched.Cbor

/-- The `k` low bytes of a number, the highest first. -/
def bigEndian : (k n : Nat) → Bytes
  | 0, _ => []
  | k + 1, n => bigEndian k (n / 256) ++ [UInt8.ofNat n]

/-- The header of a text string of `n` bytes. -/
def textHeader (n : Nat) : Bytes :=
  if n < 24 then [UInt8.ofNat (96 + n)]
  else if n < 2 ^ 8 then 120 :: bigEndian 1 n
  else if n < 2 ^ 16 then 121 :: bigEndian 2 n
  else if n < 2 ^ 32 then 122 :: bigEndian 4 n
  else 123 :: bigEndian 8 n

/-- `to_cbor` of a string. -/
def toCbor (text : Bytes) : Bytes := textHeader text.length ++ text

/-- The number that the bytes stand for. -/
def ofBigEndian (bs : Bytes) : Nat := bs.foldl (fun n b => 256 * n + b.toNat) 0

/-- Read a number of `k` bytes. -/
def readNumber (k : Nat) (bs : Bytes) : Option (Nat × Bytes) :=
  if k ≤ bs.length then some (ofBigEndian (bs.take k), bs.drop k) else none

/-- Read the header of a text string. -/
def readHeader : Bytes → Option (Nat × Bytes)
  | [] => none
  | b :: bs =>
    if 96 ≤ b.toNat ∧ b.toNat < 120 then some (b.toNat - 96, bs)
    else match b.toNat with
      | 120 => readNumber 1 bs
      | 121 => readNumber 2 bs
      | 122 => readNumber 4 bs
      | 123 => readNumber 8 bs
      | _ => none

/-- `from_cbor` and `get<std::string>`, or `none` when one of them throws. -/
def fromCbor (bs : Bytes) : Option Bytes :=
  readHeader bs >>= fun r => if r.2.length = r.1 then some r.2 else none

theorem length_bigEndian (k n : Nat) : (bigEndian k n).length = k := by
  induction k generalizing n with
  | zero => rfl
  | succ k ih => simp [bigEndian, ih]

theorem ofBigEndian_bigEndian {k n : Nat} (h : n < 256 ^ k) : ofBigEndian (bigEndian k n) = n := by
  induction k generalizing n with
  | zero =>
    obtain rfl : n = 0 := by simpa using h
    rfl
  | succ k ih =>
    have hdiv : n / 256 < 256 ^ k := by
      rw [Nat.pow_succ] at h
      exact Nat.div_lt_of_lt_mul (by omega)
    have hhigh := ih hdiv
    rw [ofBigEndian] at hhigh ⊢
    rw [bigEndian, List.foldl_append, hhigh, List.foldl_cons, List.foldl_nil,
      UInt8.toNat_ofNat']
    omega

theorem readNumber_bigEndian {k n : Nat} (h : n < 256 ^ k) (rest : Bytes) :
    readNumber k (bigEndian k n ++ rest) = some (n, rest) := by
  have hlen := length_bigEndian k n
  have htake : (bigEndian k n ++ rest).take k = bigEndian k n := List.take_left' hlen
  have hdrop : (bigEndian k n ++ rest).drop k = rest := List.drop_left' hlen
  rw [readNumber, htake, hdrop, ofBigEndian_bigEndian h, if_pos (by simp [hlen])]

@[simp] theorem readHeader_120 (bs : Bytes) : readHeader (120 :: bs) = readNumber 1 bs := rfl

@[simp] theorem readHeader_121 (bs : Bytes) : readHeader (121 :: bs) = readNumber 2 bs := rfl

@[simp] theorem readHeader_122 (bs : Bytes) : readHeader (122 :: bs) = readNumber 4 bs := rfl

@[simp] theorem readHeader_123 (bs : Bytes) : readHeader (123 :: bs) = readNumber 8 bs := rfl

/-- The header of every length that fits 8 bytes is read back. -/
theorem readHeader_textHeader {n : Nat} (h : n < 2 ^ 64) (rest : Bytes) :
    readHeader (textHeader n ++ rest) = some (n, rest) := by
  unfold textHeader
  split_ifs with h₀ h₁ h₂ h₃
  · have hb : (UInt8.ofNat (96 + n)).toNat = 96 + n := by
      rw [UInt8.toNat_ofNat']
      omega
    rw [List.singleton_append, readHeader, hb, if_pos (by omega), Nat.add_sub_cancel_left]
  · rw [List.cons_append, readHeader_120, readNumber_bigEndian (by simpa using h₁)]
  · rw [List.cons_append, readHeader_121, readNumber_bigEndian (by simpa using h₂)]
  · rw [List.cons_append, readHeader_122, readNumber_bigEndian (by simpa using h₃)]
  · rw [List.cons_append, readHeader_123, readNumber_bigEndian (by simpa using h)]

theorem fromCbor_toCbor {text : Bytes} (h : text.length < 2 ^ 64) :
    fromCbor (toCbor text) = some text := by
  simp [fromCbor, toCbor, readHeader_textHeader h]

theorem readNumber_take {k m : Nat} {bs : Bytes} (hlen : bs.length = k) (hm : m < k) :
    readNumber k (bs.take m) = none := by
  rw [readNumber, if_neg]
  rw [List.length_take]
  omega

/-- A header that ends too early is not accepted. -/
theorem readHeader_take {n k : Nat} (hk : k < (textHeader n).length) :
    readHeader ((textHeader n).take k) = none := by
  cases k with
  | zero => rfl
  | succ k =>
    unfold textHeader at hk ⊢
    split_ifs at hk ⊢
    · simp at hk
    all_goals
      simp only [List.length_cons, length_bigEndian, Nat.add_lt_add_iff_right] at hk
      simp [readNumber_take (length_bigEndian _ _) hk]

theorem fromCbor_take {n k : Nat} (hk : k < (textHeader n).length) :
    fromCbor ((textHeader n).take k) = none := by
  rw [fromCbor, readHeader_take hk]
  rfl

end JamSched.Cbor
