import Mathlib.Data.List.Sort
import Mathlib.Order.Fin.Basic

/-!
# Words as sets of places

A word whose bits say which of `n` places are occupied: its places in ascending order, the lowest
of them, single bits set and cleared, and runs of places that may go around the end of the word.
-/
namespace JamSched.Bits

variable {n : Nat}

/-- The places whose bits are set, in ascending order. -/
def ones (v : BitVec n) : List (Fin n) := (List.finRange n).filter fun i : Fin n => v[(i : Nat)]

@[simp] theorem mem_ones {v : BitVec n} {i : Fin n} : i ∈ ones v ↔ v[(i : Nat)] = true := by
  simp [ones]

theorem ones_sorted (v : BitVec n) : (ones v).Pairwise (· < ·) :=
  (List.pairwise_lt_finRange n).filter _

theorem length_ones_le (v : BitVec n) : (ones v).length ≤ n := by
  have hle := List.length_filter_le (fun i : Fin n => v[(i : Nat)]) (List.finRange n)
  rwa [List.length_finRange] at hle

theorem eq_zero_iff {v : BitVec n} : v = 0#n ↔ ∀ i : Fin n, v[(i : Nat)] = false := by
  constructor
  · rintro rfl i
    simp
  · intro h
    ext i hi
    simpa using h ⟨i, hi⟩

theorem ones_eq_nil_iff {v : BitVec n} : ones v = [] ↔ v = 0#n := by
  rw [eq_zero_iff]
  simp [ones]

section Lowest

theorem ctz_lt {v : BitVec n} (h : v ≠ 0#n) : v.ctz.toNat < n := by
  have hlt : v.ctz < BitVec.ofNat n n := BitVec.ctz_lt_iff_ne_zero.mpr h
  rw [BitVec.lt_def, BitVec.toNat_ofNat] at hlt
  exact hlt.trans_le (Nat.mod_le _ _)

/-- The lowest place whose bit is set. -/
def lowest (v : BitVec n) (h : v ≠ 0#n) : Fin n := ⟨v.ctz.toNat, ctz_lt h⟩

theorem getElem_lowest {v : BitVec n} (h : v ≠ 0#n) : v[(lowest v h : Nat)] = true := by
  have hbit := BitVec.getLsbD_true_ctz_of_ne_zero h
  rwa [BitVec.getLsbD_eq_getElem (ctz_lt h)] at hbit

theorem lowest_le {v : BitVec n} (h : v ≠ 0#n) {i : Fin n} (hi : v[(i : Nat)] = true) :
    lowest v h ≤ i := by
  by_contra hlt
  have hlt : (i : Nat) < v.ctz.toNat := Nat.lt_of_not_le hlt
  have hfalse := BitVec.getLsbD_false_of_lt_ctz hlt
  rw [BitVec.getLsbD_eq_getElem i.isLt] at hfalse
  simp [hfalse] at hi

end Lowest

section Single

/-- The word with the bit of one place set. -/
def bit (i : Fin n) : BitVec n := 1#n <<< (i : Nat)

@[simp] theorem getElem_bit (i j : Fin n) : (bit i)[(j : Nat)] = decide (j = i) := by
  simp only [bit, BitVec.getElem_shiftLeft, BitVec.getElem_one]
  grind

theorem getElem_clear (v : BitVec n) (i j : Fin n) :
    (v &&& ~~~ bit i)[(j : Nat)] = (v[(j : Nat)] && !decide (j = i)) := by simp

/-- The places in ascending order are the lowest one and those of the rest. -/
theorem ones_eq_cons {v : BitVec n} (h : v ≠ 0#n) :
    ones v = lowest v h :: ones (v &&& ~~~ bit (lowest v h)) := by
  refine (ones_sorted v).eq_of_mem_iff ?_ fun i => ?_
  · refine List.pairwise_cons.mpr ⟨fun i hi => ?_, ones_sorted _⟩
    rw [mem_ones, getElem_clear] at hi
    have hle := lowest_le h (i := i)
    grind
  · rw [List.mem_cons, mem_ones, mem_ones, getElem_clear]
    have hlow := getElem_lowest h
    grind

end Single

section Runs

/-- The word with the `k` lowest bits set. -/
theorem getElem_low {k i : Nat} (hk : k < n) (hi : i < n) :
    ((1#n <<< k) - 1#n)[i] = decide (i < k) := by
  have hpow : 2 ^ k < 2 ^ n := Nat.pow_lt_pow_right (by decide) hk
  have hpos : 0 < 2 ^ k := Nat.two_pow_pos k
  have hshift : (1#n <<< k).toNat = 2 ^ k := by
    rw [← BitVec.twoPow_eq, BitVec.toNat_twoPow, Nat.mod_eq_of_lt hpow]
  have hone : (1#n).toNat = 1 := by
    rw [BitVec.toNat_ofNat, Nat.mod_eq_of_lt (by omega)]
  have htoNat : ((1#n <<< k) - 1#n).toNat = 2 ^ k - 1 := by
    rw [BitVec.toNat_sub_of_le, hshift, hone]
    rw [BitVec.le_def, hshift, hone]
    exact hpos
  rw [BitVec.getElem_eq_testBit_toNat, htoNat, Nat.testBit_two_pow_sub_one]

/-- Where a bit comes from in a rotation to the left. -/
theorem getElem_rotateLeft (v : BitVec n) {r i : Nat} (hr : r < n) (hi : i < n) :
    (v.rotateLeft r)[i] = getElem v ((i + (n - r)) % n) (Nat.mod_lt _ (by omega)) := by
  rw [BitVec.getElem_rotateLeft]
  simp only [Nat.mod_eq_of_lt hr]
  split
  · next hlt =>
    congr 1
    rw [Nat.mod_eq_of_lt (by omega), Nat.add_comm]
  · next hge =>
    congr 1
    rw [show i + (n - r) = i - r + n by omega, Nat.add_mod_right,
      Nat.mod_eq_of_lt (by omega)]

/-- Where a bit comes from in a rotation to the right. -/
theorem getElem_rotateRight (v : BitVec n) {r i : Nat} (hr : r < n) (hi : i < n) :
    (v.rotateRight r)[i] = getElem v ((i + r) % n) (Nat.mod_lt _ (by omega)) := by
  rw [BitVec.getElem_rotateRight]
  simp only [Nat.mod_eq_of_lt hr]
  split
  · next hlt =>
    congr 1
    rw [Nat.mod_eq_of_lt (by omega), Nat.add_comm]
  · next hge =>
    congr 1
    rw [show i + r = i - (n - r) + n by omega, Nat.add_mod_right,
      Nat.mod_eq_of_lt (by omega)]

/-- The run of `k` places from `r` on. -/
theorem getElem_run {k r i : Nat} (hk : k < n) (hr : r < n) (hi : i < n) :
    (((1#n <<< k) - 1#n).rotateLeft r)[i] = decide ((i + (n - r)) % n < k) := by
  rw [getElem_rotateLeft _ hr hi]
  exact getElem_low hk _

/-- The run of `k` places before `r`. -/
theorem getElem_run_before {k r i : Nat} (hk : k < n) (hr : r < n) (hi : i < n) :
    ((((1#n <<< k) - 1#n).rotateLeft r).rotateRight k)[i] =
      decide (((i + k) % n + (n - r)) % n < k) := by
  rw [getElem_rotateRight _ hk hi]
  exact getElem_run hk hr _

end Runs

end JamSched.Bits
