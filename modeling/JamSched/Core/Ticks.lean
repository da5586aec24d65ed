import Mathlib.Algebra.Order.Group.Nat
import Mathlib.Algebra.Group.Nat.Defs
import Mathlib.Data.Nat.Basic

/-!
# Ticks of a hierarchy of wheels

The `k`-th of several wheels turns by one place every `b ^ k` units of time. When two times differ
on a wheel, and how far, in terms of the wheels below.
-/
namespace JamSched.Ticks

/-- How often the `k`-th wheel has turned by one place at time `t`. -/
def tick (b k t : Nat) : Nat := t / b ^ k

variable {b k s t : Nat}

@[simp] theorem tick_zero (b t : Nat) : tick b 0 t = t := by simp [tick]

theorem tick_succ (b k t : Nat) : tick b (k + 1) t = tick b k t / b := by
  rw [tick, tick, Nat.pow_succ, Nat.div_div_eq_div_mul]

theorem tick_mono (h : s ≤ t) : tick b k s ≤ tick b k t := Nat.div_le_div_right h

theorem lt_of_tick_lt (h : tick b k s < tick b k t) : s < t := by
  by_contra hle
  exact absurd h (Nat.not_lt.mpr (tick_mono (Nat.le_of_not_lt hle)))

/-- A wheel has not turned if the one below it has not gone through its start. -/
theorem tick_succ_eq (hst : s ≤ t)
    (h : ∀ j, tick b k s ≤ j → j ≤ tick b k t → j % b ≠ 0) :
    tick b (k + 1) s = tick b (k + 1) t := by
  rw [tick_succ, tick_succ]
  have hle : tick b k s ≤ tick b k t := tick_mono hst
  have hdiv : tick b k s / b ≤ tick b k t / b := Nat.div_le_div_right hle
  by_contra hne
  have hlt : tick b k s / b < tick b k t / b := Nat.lt_of_le_of_ne hdiv hne
  -- the start of the later turn lies between the two
  refine h (tick b k t / b * b) ?_ (Nat.div_mul_le_self _ _) (Nat.mul_mod_left _ _)
  have hb : 0 < b := Nat.pos_of_ne_zero fun hb => by simp [hb] at hlt
  have hnext := Nat.lt_mul_div_succ (tick b k s) hb
  calc tick b k s ≤ b * (tick b k s / b + 1) := hnext.le
    _ ≤ b * (tick b k t / b) := Nat.mul_le_mul_left b hlt
    _ = tick b k t / b * b := Nat.mul_comm _ _

/-- Wheels above one that has not turned have not turned either. -/
theorem tick_eq_of_le {l : Nat} (h : tick b k s = tick b k t) (hkl : k ≤ l) :
    tick b l s = tick b l t := by
  induction l, hkl using Nat.le_induction with
  | base => exact h
  | succ l _ ih => rw [tick_succ, tick_succ, ih]

/-- The turns between two times are those of the time between them, or one more. -/
theorem tick_le_add (hb : 0 < b) (hst : s ≤ t) :
    tick b k t ≤ tick b k s + tick b k (t - s) + 1 := by
  have hpos : 0 < b ^ k := Nat.pow_pos hb
  obtain ⟨d, rfl⟩ := Nat.exists_eq_add_of_le hst
  rw [Nat.add_sub_cancel_left]
  unfold tick
  rw [Nat.add_div hpos]
  split <;> omega

theorem add_le_tick (hb : 0 < b) (s d : Nat) : tick b k s + tick b k d ≤ tick b k (s + d) := by
  unfold tick
  rw [Nat.add_div (Nat.pow_pos hb)]
  exact Nat.le_add_right _ _

theorem tick_mul_le (t : Nat) : tick b k t * b ^ k ≤ t := Nat.div_mul_le_self t (b ^ k)

end JamSched.Ticks
