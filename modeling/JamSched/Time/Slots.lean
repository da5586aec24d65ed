import JamSched.Time.Timeouts
import JamSched.Core.Ticks

/-!
# The slots of the timing wheel

Which slot a timeout belongs into at which time, and which slots `timeouts_update` looks at when it
goes from one time to another: all that hold something that is due.
-/
namespace JamSched.Timeouts

open Bits Ticks

/-- At time `curtime`, the slot `j` of the wheel `i` is one for what expires at `expires`. -/
structure Fits (curtime expires : Nat) (i : Fin 4) (j : Fin 64) : Prop where
  tick_lt : tick 64 i curtime < tick 64 i expires
  slot : (j : Nat) = (tick 64 i expires - if i = 0 then 0 else 1) % 64
  near : i = 0 → expires < curtime + 64

namespace Fits

variable {curtime expires now : Nat} {i : Fin 4} {j : Fin 64}

theorem lt (h : Fits curtime expires i j) : curtime < expires := lt_of_tick_lt h.tick_lt

/-- A slot stays the right one as long as its wheel has not passed it. -/
theorem mono (h : Fits curtime expires i j) (hle : curtime ≤ now)
    (hlt : tick 64 i now < tick 64 i expires) : Fits now expires i j where
  tick_lt := hlt
  slot := h.slot
  near hi := by
    have hnear := h.near hi
    omega

end Fits

section Words

theorem slotOf_val (v : TimeoutT) : (slotOf v).val = v.toNat % 64 := by
  have hand := Nat.and_two_pow_sub_one_eq_mod v.toNat 6
  simp only [slotOf, BitVec.toNat_and, BitVec.toNat_ofNat]
  rw [Nat.and_comm]
  simpa using hand

theorem toNat_shiftRight (v : TimeoutT) (i : Nat) : (v >>> (i * 6)).toNat = tick 64 i v.toNat := by
  rw [BitVec.toNat_ushiftRight, Nat.shiftRight_eq_div_pow, tick, Nat.mul_comm, Nat.pow_mul]

theorem slotOf_shiftRight_val (v : TimeoutT) (i : Nat) :
    (slotOf (v >>> (i * 6))).val = tick 64 i v.toNat % 64 := by
  rw [slotOf_val, toNat_shiftRight]

theorem timeoutSlot_val {i : Fin 4} {expires : TimeoutT} (h : 0 < tick 64 i expires.toNat) :
    (timeoutSlot i expires).val = (tick 64 i expires.toNat - if i = 0 then 0 else 1) % 64 := by
  rw [timeoutSlot, slotOf_val, BitVec.toNat_sub_of_le, toNat_shiftRight]
  · split <;> rfl
  · rw [BitVec.le_def, toNat_shiftRight]
    split
    · exact Nat.zero_le _
    · exact h

theorem lt_two_pow_fls (n : WheelT) : n.toNat < 2 ^ fls n := by
  have h := BitVec.toNat_lt_two_pow_sub_clz (x := n)
  simpa [fls] using h

theorem two_pow_fls_le {n : WheelT} (h : n ≠ 0#64) : 2 ^ (fls n - 1) ≤ n.toNat := by
  have hle := BitVec.two_pow_sub_clz_le_toNat_of_ne_zero (by decide) h
  have hexp : 64 - 1 - n.clz.toNat = fls n - 1 := by
    unfold fls
    omega
  rwa [hexp] at hle

/-- A timeout goes to the wheel whose slots are the coarsest that its time from now fills. -/
theorem timeoutWheel_bounds {d : TimeoutT} (h : d ≠ 0#64) :
    64 ^ (timeoutWheel d).val ≤ d.toNat ∧
      (d.toNat < 64 ^ ((timeoutWheel d).val + 1) ∨ (timeoutWheel d).val = 3) := by
  by_cases hmax : d < timeoutMax
  · have hlow := two_pow_fls_le h
    have hhigh := lt_two_pow_fls d
    have hpos : 0 < fls d := by
      by_contra hzero
      rw [Nat.eq_zero_of_not_pos hzero] at hhigh
      exact h (BitVec.eq_of_toNat_eq (by simpa using hhigh))
    have hwheel : (timeoutWheel d).val = (fls d - 1) / 6 := by simp [timeoutWheel, hmax]
    have hpow (k : Nat) : 64 ^ k = 2 ^ (6 * k) := by rw [Nat.pow_mul]
    rw [hwheel, hpow, hpow]
    constructor
    · exact (Nat.pow_le_pow_right (by decide) (by omega)).trans hlow
    · exact .inl (hhigh.trans_le (Nat.pow_le_pow_right (by decide) (by omega)))
  · have hfls : fls timeoutMax = 24 := by decide
    have hwheel : (timeoutWheel d).val = 3 := by simp [timeoutWheel, hmax, hfls]
    have hle : 64 ^ 3 ≤ d.toNat := by
      have hge := Nat.le_of_not_lt (mt BitVec.lt_def.mpr hmax)
      exact Nat.le_trans (by decide) hge
    exact ⟨hwheel ▸ hle, .inr hwheel⟩

end Words

/-- What is due later goes into a slot that is right for it. -/
theorem place_fits (T : Timeouts) {expires : TimeoutT} (h : T.curtime < expires) :
    ∃ i j, T.place expires = .wheel i j ∧ Fits T.curtime.toNat expires.toNat i j := by
  have hlt := BitVec.lt_def.mp h
  have hsub : (expires - T.curtime).toNat = expires.toNat - T.curtime.toNat :=
    BitVec.toNat_sub_of_le (BitVec.le_def.mpr hlt.le)
  have hne : expires - T.curtime ≠ 0#64 := by
    intro hzero
    rw [hzero] at hsub
    simp only [BitVec.toNat_ofNat, Nat.zero_mod] at hsub
    omega
  obtain ⟨hlow, hhigh⟩ := timeoutWheel_bounds hne
  generalize hi : timeoutWheel (expires - T.curtime) = i at hlow hhigh
  rw [hsub] at hlow hhigh
  have htick : tick 64 i T.curtime.toNat < tick 64 i expires.toNat := by
    have hadd := add_le_tick (b := 64) (k := i) (by decide) T.curtime.toNat
      (expires.toNat - T.curtime.toNat)
    have hone : 1 ≤ tick 64 i (expires.toNat - T.curtime.toNat) :=
      (Nat.one_le_div_iff (Nat.pow_pos (by decide))).mpr hlow
    rw [Nat.add_sub_cancel' hlt.le] at hadd
    omega
  refine ⟨i, timeoutSlot i expires, ?_, htick, timeoutSlot_val (Nat.zero_lt_of_lt htick), ?_⟩
  · simp [place, h, hi]
  · rintro rfl
    simp at hhigh
    omega

theorem place_eq_expired_iff {T : Timeouts} {expires : TimeoutT} :
    T.place expires = .expired ↔ expires ≤ T.curtime := by
  rw [place, ← BitVec.not_lt]
  split <;> simp_all

theorem fits_of_place {T : Timeouts} {expires : TimeoutT} {i : Fin 4} {j : Fin 64}
    (h : T.place expires = .wheel i j) : Fits T.curtime.toNat expires.toNat i j := by
  have hlt : T.curtime < expires := by
    rw [← BitVec.not_le]
    intro hle
    rw [place_eq_expired_iff.mpr hle] at h
    cases h
  obtain ⟨i', j', hplace, hfits⟩ := place_fits T hlt
  rw [h] at hplace
  cases hplace
  exact hfits

section Passed

theorem and_63_of_lt {c : Nat} (h : c < 64) : c &&& 63 = c := by
  rw [show 63 = 2 ^ 6 - 1 by decide, Nat.and_two_pow_sub_one_eq_mod]
  exact Nat.mod_eq_of_lt h

theorem rotl_eq (v : WheelT) {c : Nat} (h : c < 64) : rotl v c = v.rotateLeft c := by
  rw [BitVec.rotateLeft_def, Nat.mod_eq_of_lt h]
  simp only [rotl, and_63_of_lt h]
  split
  · next hc =>
    subst hc
    rw [BitVec.ushiftRight_eq_zero (Nat.le_refl 64)]
    simp
  · rfl

theorem rotr_eq (v : WheelT) {c : Nat} (h : c < 64) : rotr v c = v.rotateRight c := by
  rw [BitVec.rotateRight_def, Nat.mod_eq_of_lt h]
  simp only [rotr, and_63_of_lt h]
  split
  · next hc =>
    subst hc
    rw [BitVec.shiftLeft_eq_zero (Nat.le_refl 64)]
    simp
  · rfl

/-- The slots between two places of a wheel are among those that are looked at, whatever part of a
slot the time in between may have begun and left. -/
theorem passed_covers {T : Timeouts} {curtime elapsed : TimeoutT} {i : Fin 4} {k : Nat}
    (hle : tick 64 i curtime.toNat ≤
      tick 64 i T.curtime.toNat + tick 64 i elapsed.toNat + min 1 (tick 64 i elapsed.toNat))
    (hlow : tick 64 i T.curtime.toNat ≤ k) (hhigh : k ≤ tick 64 i curtime.toNat) :
    getElem (T.passed curtime elapsed i) (k % 64) (Nat.mod_lt _ (by decide)) = true := by
  unfold passed
  split
  · rw [BitVec.getElem_allOnes]
  · next helapsed =>
    have hlt : tick 64 i elapsed.toNat < 64 := by
      rw [BitVec.lt_def, toNat_shiftRight] at helapsed
      exact Nat.lt_succ_of_le (Nat.le_of_not_lt helapsed)
    have hold := slotOf_shiftRight_val T.curtime i
    have hnew := slotOf_shiftRight_val curtime i
    have hel : (slotOf (elapsed >>> (i.val * 6))).val = tick 64 i elapsed.toNat := by
      rw [slotOf_shiftRight_val, Nat.mod_eq_of_lt hlt]
    have hj : k % 64 < 64 := Nat.mod_lt _ (by decide)
    simp only [rotl_eq _ (Fin.isLt _), rotr_eq _ (Fin.isLt _)]
    rw [BitVec.getElem_or, BitVec.getElem_or, Bool.or_eq_true, Bool.or_eq_true]
    rcases Nat.lt_or_ge k (tick 64 i T.curtime.toNat + tick 64 i elapsed.toNat) with hk | hk
    · refine .inl (.inl ?_)
      have hrun := getElem_run (slotOf (elapsed >>> (i.val * 6))).isLt
        (slotOf (T.curtime >>> (i.val * 6))).isLt hj
      refine hrun.trans (decide_eq_true ?_)
      rw [hold, hel]
      omega
    · by_cases hlast : k = tick 64 i curtime.toNat
      · subst hlast
        exact .inr ((getElem_bit _ ⟨_, hj⟩).trans (decide_eq_true (Fin.ext hnew.symm)))
      · refine .inl (.inr ?_)
        have hrun := getElem_run_before (slotOf (elapsed >>> (i.val * 6))).isLt
          (slotOf (curtime >>> (i.val * 6))).isLt hj
        refine hrun.trans (decide_eq_true ?_)
        rw [hnew, hel]
        omega

/-- The turns of a wheel between two times, if the time in between is rounded up for it. -/
theorem turns_le {old new elapsed i : Nat} (hle : old ≤ new) (helapsed : new - old ≤ elapsed)
    (hround : i = 0 ∨ 64 ^ i ≤ elapsed) :
    tick 64 i new ≤ tick 64 i old + tick 64 i elapsed + min 1 (tick 64 i elapsed) := by
  have hadd := tick_le_add (b := 64) (k := i) (by decide) hle
  have hmono := tick_mono (b := 64) (k := i) helapsed
  rcases hround with rfl | hround
  · simp only [tick_zero]
    omega
  · have hone : 1 ≤ tick 64 i elapsed := (Nat.one_le_div_iff (Nat.pow_pos (by decide))).mpr hround
    omega

/-- If the slots that are looked at do not go around the end of the wheel, then the next wheel has
not turned. -/
theorem tick_succ_eq_of_passed {T : Timeouts} {curtime elapsed : TimeoutT} {i : Fin 4}
    (hle : T.curtime ≤ curtime) (hcover : tick 64 i curtime.toNat ≤
      tick 64 i T.curtime.toNat + tick 64 i elapsed.toNat + min 1 (tick 64 i elapsed.toNat))
    (hzero : (T.passed curtime elapsed i)[0] = false) :
    tick 64 (i + 1) T.curtime.toNat = tick 64 (i + 1) curtime.toNat := by
  refine tick_succ_eq (BitVec.le_def.mp hle) fun k hlow hhigh hk => ?_
  have hcovers := passed_covers hcover hlow hhigh
  simp only [hk] at hcovers
  rw [hzero] at hcovers
  exact absurd hcovers (by decide)

/-- What is due by the new time is in a slot that is looked at. -/
theorem passed_of_due {T : Timeouts} {curtime elapsed : TimeoutT} {i : Fin 4} {j : Fin 64}
    {expires : Nat} (hcover : tick 64 i curtime.toNat ≤
      tick 64 i T.curtime.toNat + tick 64 i elapsed.toNat + min 1 (tick 64 i elapsed.toNat))
    (hfits : Fits T.curtime.toNat expires i j)
    (hdue : tick 64 i expires ≤ tick 64 i curtime.toNat) :
    (T.passed curtime elapsed i)[(j : Nat)] = true := by
  have hlt := hfits.tick_lt
  have hcovers := passed_covers (k := tick 64 i expires - if i = 0 then 0 else 1) hcover
    (by split <;> omega) (by split <;> omega)
  simpa only [← hfits.slot] using hcovers

end Passed
end JamSched.Timeouts
