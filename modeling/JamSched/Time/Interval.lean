import JamSched.Time.Refinement
import Mathlib.Data.List.MinMax

/-!
# The time to the next timeout

`timeouts_int` finds from the words of the wheels alone how long nothing can expire; the checks of
`timeouts_check` compare this with a search through all timeouts.
-/
namespace JamSched.Timeouts

open Bits Ticks

variable {T : Timeouts} {p : Ptr} {i : Fin 4} {j : Fin 64} {relmask : TimeoutT}

section Wheel

/-- The number of bits of a mask that is applied to the time. -/
def relmaskOf (i : Nat) : TimeoutT := BitVec.ofNat 64 (64 ^ i - 1)

theorem toNat_and_relmaskOf (hi : i.val ≤ 3) (c : TimeoutT) :
    (relmaskOf i &&& c).toNat = c.toNat % 64 ^ i.val := by
  have hpow : 64 ^ i.val = 2 ^ (6 * i.val) := by rw [Nat.pow_mul]
  have hlt : 64 ^ i.val - 1 < 2 ^ 64 := by
    have hle : 64 ^ i.val ≤ 64 ^ 3 := Nat.pow_le_pow_right (by decide) hi
    omega
  rw [BitVec.toNat_and, relmaskOf, BitVec.toNat_ofNat, Nat.mod_eq_of_lt hlt, Nat.and_comm, hpow,
    Nat.and_two_pow_sub_one_eq_mod]

theorem getElem_rotr {v : WheelT} {o : Fin 64} {d : Nat} (hd : d < 64) :
    (rotr v o)[d] = getElem v ((d + o) % 64) (Nat.mod_lt _ (by decide)) := by
  rw [rotr_eq v o.isLt]
  exact getElem_rotateRight v o.isLt hd

/-- A slot in use is reached after no more turns than it takes to the expiry of what is in it. -/
theorem InUse.turns_le {expires : Nat} (hinUse : InUse T i) (hl : T.list (.wheel i j) ≠ [])
    (h : Fits T.curtime.toNat expires i j) :
    T.turns i ≤ tick 64 i expires - tick 64 i T.curtime.toNat := by
  have hslot := h.slot
  have hlt := h.tick_lt
  have hold := slotOf_shiftRight_val T.curtime i
  unfold turns
  dsimp only
  generalize slotOf (T.curtime >>> (i.val * 6)) = o at hold ⊢
  have hd : (j.val + (64 - o.val)) % 64 < 64 := Nat.mod_lt _ (by decide)
  have hj : ((j.val + (64 - o.val)) % 64 + o.val) % 64 = j.val := by omega
  have hbit : (rotr (T.pending i) o)[(j.val + (64 - o.val)) % 64] = true := by
    rw [getElem_rotr hd]
    simpa only [hj] using (hinUse j).mpr hl
  have hne : rotr (T.pending i) o ≠ 0#64 := by
    intro hzero
    simp [hzero] at hbit
  have hctz : (rotr (T.pending i) o).ctz.toNat ≤ (j.val + (64 - o.val)) % 64 :=
    lowest_le hne (i := ⟨_, hd⟩) hbit
  by_cases hi : i = 0
  · rw [if_pos hi] at hslot ⊢
    omega
  · rw [if_neg hi] at hslot ⊢
    omega

/-- The slot of the time itself is empty in the lowest wheel. -/
theorem WellFormed.turns_pos (h : WellFormed T []) (i : Fin 4) : 0 < T.turns i := by
  have hold := slotOf_shiftRight_val T.curtime i
  unfold turns
  dsimp only
  generalize slotOf (T.curtime >>> (i.val * 6)) = o at hold ⊢
  by_cases hi : i = 0
  · rw [if_pos hi, Nat.add_zero]
    by_contra hctz
    have hne : rotr (T.pending i) o ≠ 0#64 := by
      refine BitVec.ctz_lt_iff_ne_zero.mp (BitVec.lt_def.mpr ?_)
      exact Nat.lt_of_le_of_lt (Nat.le_of_not_lt hctz) (by decide)
    have hbit := getElem_lowest hne
    have hlow : (lowest _ hne).val = 0 := Nat.eq_zero_of_not_pos hctz
    rw [getElem_rotr (Fin.isLt _)] at hbit
    simp only [hlow, Nat.zero_add, Nat.mod_eq_of_lt o.isLt] at hbit
    obtain ⟨p, hp⟩ := List.exists_mem_of_ne_nil _ ((h.inUse i o).mp hbit)
    have hfits := h.fits p i o hp
    have hslot := hfits.slot
    have hnear := hfits.near hi
    have hlt := hfits.lt
    rw [hold, if_pos hi, hi] at hslot
    simp only [Fin.val_zero, tick_zero] at hslot
    omega
  · rw [if_neg hi]
    exact Nat.succ_pos _

theorem turns_le_65 (T : Timeouts) (i : Fin 4) : T.turns i ≤ 65 := by
  have hctz : (rotr (T.pending i) (slotOf (T.curtime >>> (i.val * 6)))).ctz ≤ 64#64 := by
    rw [BitVec.ctz_eq_reverse_clz]
    exact BitVec.clz_le
  have hctz : (rotr (T.pending i) (slotOf (T.curtime >>> (i.val * 6)))).ctz.toNat ≤ 64 := hctz
  unfold turns
  dsimp only
  split <;> omega

theorem WellFormed.toNat_wheelInt (h : WellFormed T []) (i : Fin 4) :
    (T.wheelInt i (relmaskOf i)).toNat =
      T.turns i * 64 ^ i.val - T.curtime.toNat % 64 ^ i.val := by
  have hpos := h.turns_pos i
  have hle := turns_le_65 T i
  have hmod : T.curtime.toNat % 64 ^ i.val < 64 ^ i.val := Nat.mod_lt _ (Nat.pow_pos (by decide))
  have hpow : 64 ^ i.val ≤ 64 ^ 3 := Nat.pow_le_pow_right (by decide) (by omega)
  have hlow : 1 * 64 ^ i.val ≤ T.turns i * 64 ^ i.val := Nat.mul_le_mul_right _ hpos
  have hhigh : T.turns i * 64 ^ i.val ≤ 65 * 64 ^ 3 := Nat.mul_le_mul hle hpow
  have hshift : T.turns i <<< (i.val * 6) = T.turns i * 64 ^ i.val := by
    rw [Nat.shiftLeft_eq, Nat.mul_comm i.val, Nat.pow_mul]
  have hand := toNat_and_relmaskOf (i := i) (by omega) T.curtime
  have hofNat : (BitVec.ofNat 64 (T.turns i <<< (i.val * 6))).toNat =
      T.turns i * 64 ^ i.val := by
    rw [hshift, BitVec.toNat_ofNat]
    exact Nat.mod_eq_of_lt (Nat.lt_of_le_of_lt hhigh (by decide))
  rw [wheelInt, BitVec.toNat_sub_of_le, hand, hofNat]
  rw [BitVec.le_def, hand, hofNat]
  omega

/-- No wheel overestimates the time to what is in it. -/
theorem WellFormed.wheelInt_le (h : WellFormed T []) (hp : p ∈ T.list (.wheel i j)) :
    T.wheelInt i (relmaskOf i) ≤ (T.timeout p).expires - T.curtime := by
  have hfits := h.fits p i j hp
  have hturns := Nat.mul_le_mul_right (64 ^ i.val)
    ((h.inUse i).turns_le (List.ne_nil_of_mem hp) hfits)
  have hsub : ((T.timeout p).expires - T.curtime).toNat =
      (T.timeout p).expires.toNat - T.curtime.toNat :=
    BitVec.toNat_sub_of_le (BitVec.le_def.mpr hfits.lt.le)
  rw [BitVec.le_def, h.toNat_wheelInt, hsub]
  rw [Nat.sub_mul] at hturns
  have hcur := Nat.div_add_mod T.curtime.toNat (64 ^ i.val)
  have hexp := tick_mul_le (b := 64) (k := i) (T.timeout p).expires.toNat
  rw [Nat.mul_comm] at hcur
  unfold tick at hturns hexp
  omega

theorem WellFormed.wheelInt_pos (h : WellFormed T []) (i : Fin 4) :
    0#64 < T.wheelInt i (relmaskOf i) := by
  have hpos := Nat.mul_le_mul_right (64 ^ i.val) (h.turns_pos i)
  have hmod : T.curtime.toNat % 64 ^ i.val < 64 ^ i.val := Nat.mod_lt _ (Nat.pow_pos (by decide))
  rw [BitVec.lt_def, h.toNat_wheelInt]
  simp only [BitVec.toNat_ofNat, Nat.zero_mod]
  omega

end Wheel

section Loop

variable {wheels : List (Fin 4)} {timeout bound : TimeoutT}

theorem relmaskOf_succ (i : Fin 4) : relmaskOf i <<< 6 ||| 63 = relmaskOf (i.val + 1) := by
  match i with
  | 0 | 1 | 2 | 3 => rfl

/-- The loop finds the least of what it starts with and of what the wheels say. -/
theorem le_intLoop_iff (hwheels : Ascending wheels)
    (hmask : ∀ i ∈ wheels.head?, relmask = relmaskOf i) :
    bound ≤ T.intLoop wheels timeout relmask ↔ bound ≤ timeout ∧
      ∀ i ∈ wheels, T.pending i ≠ 0#64 → bound ≤ T.wheelInt i (relmaskOf i) := by
  induction wheels generalizing timeout relmask with
  | nil => simp [intLoop]
  | cons i wheels ih =>
    obtain rfl := hmask i rfl
    have hnext : ∀ k ∈ wheels.head?, relmaskOf i <<< 6 ||| 63 = relmaskOf k := by
      intro k hk
      rw [relmaskOf_succ, hwheels.head k hk]
    rw [intLoop, ih hwheels.tail hnext, List.forall_mem_cons]
    simp only [BitVec.le_def, BitVec.lt_def]
    split
    · grind
    · split <;> grind

theorem le_allOnes (v : TimeoutT) : v ≤ BitVec.allOnes 64 := by
  rw [BitVec.le_def, BitVec.toNat_allOnes]
  exact Nat.le_sub_one_of_lt v.isLt

theorem le_int_iff : bound ≤ T.int ↔
    ∀ i, T.pending i ≠ 0#64 → bound ≤ T.wheelInt i (relmaskOf i) := by
  have hmask : ∀ i ∈ (List.finRange 4).head?, 0 = relmaskOf i := by
    intro i hi
    rw [List.finRange_succ, List.head?_cons, Option.mem_some_iff] at hi
    rw [← hi]
    rfl
  have hones := le_allOnes bound
  rw [int, le_intLoop_iff ascending_finRange hmask]
  exact ⟨fun h i => h.2 i (List.mem_finRange i), fun h => ⟨hones, fun i _ => h i⟩⟩

/-- `timeouts_int` is never more than the time to the expiry of a timeout. -/
theorem WellFormed.int_le (h : WellFormed T []) (hp : p ∈ T.inSlots) :
    T.int ≤ (T.timeout p).expires - T.curtime := by
  simp only [inSlots, List.mem_flatMap, List.mem_finRange, true_and] at hp
  obtain ⟨i, j, hp⟩ := hp
  have hinUse := (h.inUse i j).mpr (List.ne_nil_of_mem hp)
  have hne : T.pending i ≠ 0#64 := by
    intro hzero
    simp [hzero] at hinUse
  exact BitVec.le_trans (le_int_iff.mp (BitVec.le_refl _) i hne) (h.wheelInt_le hp)

theorem WellFormed.int_pos (h : WellFormed T []) : 0#64 < T.int := by
  have hone : 1#64 ≤ T.int := by
    refine le_int_iff.mpr fun i _ => ?_
    have hpos := h.wheelInt_pos i
    rw [BitVec.lt_def] at hpos
    exact BitVec.le_def.mpr hpos
  exact BitVec.lt_def.mpr (BitVec.le_def.mp hone)

theorem WellFormed.int_of_inSlots_eq_nil (h : WellFormed T []) (hnil : T.inSlots = []) :
    T.int = BitVec.allOnes 64 := by
  have hzero (i : Fin 4) : T.pending i = 0#64 := by
    refine eq_zero_iff.mpr fun j => ?_
    have hempty : T.list (.wheel i j) = [] := by
      rw [inSlots, List.flatMap_eq_nil_iff] at hnil
      exact List.flatMap_eq_nil_iff.mp (hnil i (List.mem_finRange i)) j (List.mem_finRange j)
    simpa [hempty] using h.inUse i j
  refine BitVec.le_antisymm (le_allOnes _) (le_int_iff.mpr fun i hi => ?_)
  exact absurd (hzero i) hi

end Loop

section Check

/-- `timeouts_min` finds the first of the earliest timeouts in the slots. -/
theorem timeoutsMin_eq_argmin :
    T.timeoutsMin = T.inSlots.argmin fun p => (T.timeout p).expires.toNat := by
  unfold timeoutsMin List.argmin
  congr
  funext m p
  cases m <;> rfl

/-- The checks of `timeouts_check` hold. -/
theorem WellFormed.check (h : WellFormed T []) : T.check = true := by
  unfold Timeouts.check
  cases hmin : T.timeoutsMin with
  | none =>
    rw [timeoutsMin_eq_argmin, List.argmin_eq_none] at hmin
    unfold timeoutsTimeout
    dsimp only
    split
    · simp
    · simp [h.int_of_inSlots_eq_nil hmin]
  | some p =>
    have hp : p ∈ T.inSlots := by
      rw [timeoutsMin_eq_argmin] at hmin
      exact List.argmin_mem hmin
    have hlt := (h.mem_inSlots_iff.mp hp).2
    have hint := h.int_le hp
    have htimeout : T.timeoutsTimeout ≤ (T.timeout p).expires - T.curtime := by
      unfold timeoutsTimeout
      split
      · exact BitVec.le_def.mpr (Nat.zero_le _)
      · exact hint
    simp [hlt, hint, htimeout]

end Check

end JamSched.Timeouts
