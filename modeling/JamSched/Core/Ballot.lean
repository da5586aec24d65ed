import Mathlib.Data.List.Basic
import Mathlib.Data.List.Count
import Mathlib.Logic.Function.Basic
import Mathlib.Tactic.Common

/-!
# Counting failures of a group of attempts

A group of attempts shares one counter and one once-flag. An attempt that fails adds one to
the counter, and reports the failure of the group if it found the counter at the threshold;
an attempt that succeeds announces the success through the flag. An attempt may also end
without a word. With a threshold of one less than the number of attempts the report comes
after the last of them has failed, so a group whose attempts all speak is settled exactly once.
-/
namespace JamSched

/-- How far one attempt of the group has come. -/
inductive Vote where
  | undecided
  /-- Counted as the last failure and about to report it. -/
  | reporting
  | failed
  | won
  /-- Ended without a word. -/
  | silent
  deriving DecidableEq, Repr

/-- The attempt has added one to the counter. -/
def Vote.counted : Vote → Bool
  | .reporting | .failed => true
  | _ => false

/-- The attempt takes no further step. -/
def Vote.closed : Vote → Bool
  | .undecided | .reporting => false
  | _ => true

@[ext] structure Ballot (ι : Type*) where
  members : List ι
  vote : ι → Vote
  threshold : Nat
  count : Nat
  once : Bool
  /-- Failures of the group that were reported. -/
  reports : Nat
  /-- Successes of the group that were announced. -/
  wins : Nat

namespace Ballot

variable {ι : Type*} [DecidableEq ι]

/-- `fetch_add` and the comparison of its result with the threshold. -/
def fail (b : Ballot ι) (i : ι) : Ballot ι :=
  { b with
    vote := Function.update b.vote i (if b.count = b.threshold then .reporting else .failed)
    count := b.count + 1 }

def report (b : Ballot ι) (i : ι) : Ballot ι :=
  { b with vote := Function.update b.vote i .failed, reports := b.reports + 1 }

/-- `call_once`. -/
def win (b : Ballot ι) (i : ι) : Ballot ι :=
  { b with
    vote := Function.update b.vote i .won
    once := true
    wins := if b.once then b.wins else b.wins + 1 }

def abstain (b : Ballot ι) (i : ι) : Ballot ι :=
  { b with vote := Function.update b.vote i .silent }

/-- What a member can do. -/
inductive Move (b : Ballot ι) : Ballot ι → Prop where
  | stay : Move b b
  | fail {i : ι} (hi : i ∈ b.members) (hv : b.vote i = .undecided) : Move b (b.fail i)
  | report {i : ι} (hi : i ∈ b.members) (hv : b.vote i = .reporting) : Move b (b.report i)
  | win {i : ι} (hi : i ∈ b.members) (hv : b.vote i = .undecided) : Move b (b.win i)
  | abstain {i : ι} (hi : i ∈ b.members) (hv : b.vote i = .undecided) : Move b (b.abstain i)

structure Sound (b : Ballot ι) : Prop where
  nodup : b.members.Nodup
  threshold : b.members.length = b.threshold + 1
  count : b.count = b.members.countP fun i => (b.vote i).counted
  reports : b.reports + b.members.countP (fun i => b.vote i = .reporting) =
    if b.count = b.threshold + 1 then 1 else 0
  wins : b.wins = b.once.toNat
  once : b.once = b.members.any fun i => b.vote i = .won

/-- One member's vote changes, and a count over the members with it. -/
theorem countP_update {members : List ι} (hn : members.Nodup) {i : ι} (hi : i ∈ members)
    (f : ι → Vote) (v : Vote) (p : Vote → Bool) :
    (members.countP fun j => p (Function.update f i v j)) + (p (f i)).toNat =
      (members.countP fun j => p (f j)) + (p v).toNat := by
  induction members with
  | nil => simp at hi
  | cons j members ih =>
    obtain ⟨hj, hn⟩ := List.nodup_cons.mp hn
    simp only [List.countP_cons]
    by_cases hij : i = j
    · subst hij
      have hsame : (members.countP fun k => p (Function.update f i v k)) =
          members.countP fun k => p (f k) := by
        apply List.countP_congr
        intro k hk
        have hki : k ≠ i := fun h => hj (h ▸ hk)
        simp [Function.update_of_ne hki]
      rw [hsame, Function.update_self]
      cases p (f i) <;> cases p v <;> simp
    · have hi : i ∈ members := by simpa [hij] using hi
      have := ih hn hi
      rw [Function.update_of_ne (Ne.symm hij)]
      omega

theorem any_won_update {members : List ι} {i : ι} {f : ι → Vote} {v : Vote}
    (hf : f i ≠ .won) (hv : v ≠ .won) :
    (members.any fun j => Function.update f i v j = .won) = members.any fun j => f j = .won := by
  rw [Bool.eq_iff_iff]
  simp only [List.any_eq_true, decide_eq_true_eq]
  constructor
  · rintro ⟨j, hj, hw⟩
    by_cases h : j = i
    · subst h
      simp [hv] at hw
    · exact ⟨j, hj, by simpa [Function.update_of_ne h] using hw⟩
  · rintro ⟨j, hj, hw⟩
    have h : j ≠ i := fun h => hf (h ▸ hw)
    exact ⟨j, hj, by simpa [Function.update_of_ne h] using hw⟩

variable {b b' : Ballot ι}

omit [DecidableEq ι] in
/-- A member that has not been counted keeps the counter below its last value. -/
theorem Sound.count_le (h : b.Sound) {i : ι} (hi : i ∈ b.members)
    (hv : (b.vote i).counted = false) : b.count ≤ b.threshold := by
  have hlt : (b.members.countP fun j => (b.vote j).counted) < b.members.length := by
    rw [List.countP_eq_length_filter]
    apply List.length_filter_lt_length_iff_exists.mpr
    exact ⟨i, hi, by simp [hv]⟩
  have := h.count
  have := h.threshold
  omega

/-- The counts of a ballot in which member `i` has changed its vote to `v`. -/
theorem Sound.revote (h : b.Sound) {i : ι} (hi : i ∈ b.members) {v w : Vote}
    (hv : b.vote i = v) :
    (b.members.countP fun j => (Function.update b.vote i w j).counted) + v.counted.toNat =
        b.count + w.counted.toNat ∧
      b.reports + (b.members.countP fun j => Function.update b.vote i w j = .reporting) +
          (decide (v = .reporting)).toNat =
        (if b.count = b.threshold + 1 then 1 else 0) + (decide (w = .reporting)).toNat := by
  have hcount := countP_update h.nodup hi b.vote w Vote.counted
  have hrep := countP_update h.nodup hi b.vote w fun v => v = .reporting
  have hr := h.reports
  rw [hv] at hcount hrep
  rw [h.count] at hr ⊢
  exact ⟨hcount, by omega⟩

theorem Sound.fail (h : b.Sound) {i : ι} (hi : i ∈ b.members) (hv : b.vote i = .undecided) :
    (b.fail i).Sound := by
  have hle := h.count_le hi (by rw [hv]; rfl)
  have hne : b.count ≠ b.threshold + 1 := by omega
  refine ⟨h.nodup, h.threshold, ?_, ?_, h.wins, ?_⟩
  · obtain ⟨hcount, -⟩ :=
      h.revote hi hv (w := if b.count = b.threshold then .reporting else .failed)
    have hw : (if b.count = b.threshold then Vote.reporting else .failed).counted = true := by
      split <;> rfl
    rw [hw] at hcount
    exact hcount.symm
  · -- the last failure is the one whose report is still to come
    by_cases hlast : b.count = b.threshold
    · obtain ⟨-, hrep⟩ := h.revote hi hv (w := .reporting)
      simp only [Ballot.fail, if_pos hlast]
      simpa [hne, hlast] using hrep
    · obtain ⟨-, hrep⟩ := h.revote hi hv (w := .failed)
      simp only [Ballot.fail, if_neg hlast]
      simpa [hne, hlast] using hrep
  · rw [Ballot.fail, any_won_update (by simp [hv]) (by split <;> simp)]
    exact h.once

theorem Sound.report (h : b.Sound) {i : ι} (hi : i ∈ b.members) (hv : b.vote i = .reporting) :
    (b.report i).Sound := by
  obtain ⟨hcount, hrep⟩ := h.revote hi hv (w := .failed)
  refine ⟨h.nodup, h.threshold, ?_, ?_, h.wins, ?_⟩
  · exact (Nat.add_right_cancel hcount).symm
  · simp only [decide_true, Bool.toNat_true, reduceCtorEq, decide_false, Bool.toNat_false] at hrep
    exact (Nat.add_right_comm ..).trans hrep
  · rw [Ballot.report, any_won_update (by simp [hv]) (by simp)]
    exact h.once

theorem Sound.win (h : b.Sound) {i : ι} (hi : i ∈ b.members) (hv : b.vote i = .undecided) :
    (b.win i).Sound := by
  obtain ⟨hcount, hrep⟩ := h.revote hi hv (w := .won)
  refine ⟨h.nodup, h.threshold, ?_, ?_, ?_, ?_⟩
  · exact hcount.symm
  · simp only [reduceCtorEq, decide_false, Bool.toNat_false] at hrep
    exact hrep
  · have hw := h.wins
    cases hb : b.once <;> simp [Ballot.win, hb] at hw ⊢ <;> omega
  · symm
    simp only [Ballot.win, List.any_eq_true]
    exact ⟨i, hi, by simp⟩

theorem Sound.abstain (h : b.Sound) {i : ι} (hi : i ∈ b.members)
    (hv : b.vote i = .undecided) : (b.abstain i).Sound := by
  obtain ⟨hcount, hrep⟩ := h.revote hi hv (w := .silent)
  refine ⟨h.nodup, h.threshold, hcount.symm, ?_, h.wins, ?_⟩
  · simp only [reduceCtorEq, decide_false, Bool.toNat_false] at hrep
    exact hrep
  · rw [Ballot.abstain, any_won_update (by simp [hv]) (by simp)]
    exact h.once

theorem Sound.move (h : b.Sound) (hm : b.Move b') : b'.Sound := by
  cases hm with
  | stay => exact h
  | fail hi hv => exact h.fail hi hv
  | report hi hv => exact h.report hi hv
  | win hi hv => exact h.win hi hv
  | abstain hi hv => exact h.abstain hi hv

omit [DecidableEq ι] in
/-- A report, made or about to be made, comes after every member has failed. -/
theorem Sound.all_counted (h : b.Sound)
    (hr : b.reports ≠ 0 ∨ ∃ i ∈ b.members, b.vote i = .reporting) :
    ∀ i ∈ b.members, (b.vote i).counted = true := by
  have hpos : b.reports + b.members.countP (fun i => b.vote i = .reporting) ≠ 0 := by
    rcases hr with hr | ⟨i, hi, hv⟩
    · omega
    · have : 0 < b.members.countP fun i => b.vote i = .reporting :=
        List.countP_pos_iff.mpr ⟨i, hi, by simp [hv]⟩
      omega
  have hfull : b.count = b.threshold + 1 := by
    by_contra hne
    exact hpos (by rw [h.reports, if_neg hne])
  rw [h.count, ← h.threshold] at hfull
  exact List.countP_eq_length.mp hfull

omit [DecidableEq ι] in
/-- Once all members are closed, a failure was reported exactly when all of them failed. -/
theorem Sound.reports_closed (h : b.Sound) (hc : ∀ i ∈ b.members, (b.vote i).closed = true) :
    b.reports = if ∀ i ∈ b.members, b.vote i = .failed then 1 else 0 := by
  have hnone : b.members.countP (fun i => b.vote i = .reporting) = 0 := by
    apply List.countP_eq_zero.mpr
    intro i hi hv
    have := hc i hi
    simp_all [Vote.closed]
  have hr := h.reports
  rw [hnone, Nat.add_zero] at hr
  rw [hr]
  congr 1
  rw [h.count, ← h.threshold, List.countP_eq_length, eq_iff_iff]
  refine forall_congr' fun i => forall_congr' fun hi => ?_
  have := hc i hi
  cases hv : b.vote i <;> simp_all [Vote.closed, Vote.counted]

omit [DecidableEq ι] in
theorem Sound.wins_eq (h : b.Sound) :
    b.wins = if ∃ i ∈ b.members, b.vote i = .won then 1 else 0 := by
  rw [h.wins, h.once]
  by_cases hw : ∃ i ∈ b.members, b.vote i = .won
  · rw [if_pos hw]
    have : (b.members.any fun i => b.vote i = .won) = true := by simpa using hw
    rw [this]
    rfl
  · rw [if_neg hw]
    have : (b.members.any fun i => b.vote i = .won) = false := by simpa using hw
    rw [this]
    rfl

end Ballot

end JamSched
