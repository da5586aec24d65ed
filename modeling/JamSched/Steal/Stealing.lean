import JamSched.Steal.Reach

/-!
# Stealing is safe

A task leaves the queue of a scheduler for another one only while no thread works for it: a
worker clears `isStealable` when it pops a task and sets it again in `EndTask`, and the main
scheduler hands over no task while an interactive one is active. Tasks with a shared stack
that have run, and tasks that were created unstealable, stay where they are.
-/
namespace JamSched.Steal

open Machine

/-- The steps of scheduler `x` that dispatch, cancel or delete tasks of its own. -/
def Label.ownTake (x : SchedId) : Label → Prop
  | .pop i => x = .thief i
  | .pick _ | .cancel _ => x = .rib
  | .endSet y | .endTest y => x = y
  | _ => False

variable {s t : Pool} {x : SchedId} {p : Ptr} {l : Label}

/-- Only the deleted task leaves a queue. -/
theorem eq_of_delete {y : SchedId} {q : Ptr} (hp : p ∈ s.isReady x)
    (hnp : p ∉ (s.delete y q).isReady x) : p = q := by
  by_contra hne
  exact hnp ((List.mem_erase_of_ne hne).mpr hp)

/-- A task that a step takes out of a queue, other than for its own scheduler, is dispatched
nowhere. -/
theorem not_dispatched_of_taken (h : Owned s) (ht : Step s l t) (hp : p ∈ s.isReady x)
    (hnp : p ∉ t.isReady x) (hown : ¬ l.ownTake x) (y : SchedId) : ¬ s.Dispatched y p := by
  obtain ⟨k, hs⟩ := h p
  have hk := loc_ready hs hp
  subst hk
  cases ht with
  | @stealOut i j a hth =>
    have hx : x = .thief j := by
      by_contra hx
      simp [hx, hp] at hnp
    subst hx
    have hcount := (loot_spec s j).1 p
    have hpos := List.count_pos_iff.mpr hp
    have hzero : (s.loot j).1.count p = 0 := List.count_eq_zero.mpr (by simpa using hnp)
    have hmem : 0 < (s.loot j).2.count p := by omega
    exact (h.of_loot (List.count_pos_iff.mp hmem)).2.1 y
  | @stealIn i a got hth =>
    refine (hnp ?_).elim
    simp only [Pool.setThread_isReady, Pool.addSize_isReady, Pool.setReady_isReady,
      Function.update_apply]
    split
    · rename_i hx
      exact List.mem_append_right _ (hx ▸ hp)
    · exact hp
  | @collect a ls hth hn hl ha hall =>
    have hx : x = .rib := by
      by_contra hx
      simp [hx, hp] at hnp
    subst hx
    have hmem : p ∈ ls := by simpa [hp] using hnp
    exact h.not_dispatched_of_collect hth ha hp (hall p hmem).2.1 y
  | @giveUp a q ls hth =>
    rw [Pool.setThread_isReady] at hnp
    obtain rfl := eq_of_delete hp hnp
    have := hs.loc_eq (k := .limbo .rib) (by simp) (by simp [Pool.count, hth, Thread.limbo])
    cases this
  | @endDelete z a q hth hx ha =>
    rw [enter_isReady] at hnp
    obtain rfl := eq_of_delete hp hnp
    have hz := hs.scheduler z (.inr (.inr (.inl (by simp [hth, Thread.active]))))
    exact absurd ((hs.scheduler x (.inl rfl)).symm.trans hz) hown
  | @testDelete z a q hth ha =>
    rw [enter_isReady] at hnp
    obtain rfl := eq_of_delete hp hnp
    cases hs.finished ha
  | @pop i =>
    have hx : x ≠ .thief i := hown
    simp [hx, hp] at hnp
  | pick =>
    have hx : x ≠ .rib := hown
    simp [hx, hp] at hnp
  | @cancel a q hth hq =>
    obtain rfl := eq_of_delete hp hnp
    exact absurd (Loc.ready.inj (loc_ready hs hq)) hown
  | giveTo | yield =>
    rw [Pool.setThread_isReady] at hnp
    exact (hnp (subset_enable_isReady _ _ _ _ _ (by exact hp))).elim
  | wakePush => exact (hnp (subset_enable_isReady _ _ _ _ _ (by exact hp))).elim
  | create | createFor => exact (hnp (subset_push_isReady _ _ _ _ _ (by exact hp))).elim
  | _ => simp_all

/-- A task with a shared stack that has run keeps its scheduler. -/
theorem shared_step (h : Owned s) (ht : Step s l t) (hp : p ∈ s.executed)
    (hsh : (s.heap p).stack = .sharedCopy) :
    p ∈ t.executed ∧ (t.heap p).stack = (s.heap p).stack ∧
      (t.heap p).scheduler = (s.heap p).scheduler := by
  obtain ⟨k, hs⟩ := h p
  have hlimbo (x : SchedId) : p ∉ (s.thread x).limbo := fun hmem =>
    (hs.shared hp hsh).1 x (hs.loc_eq (by simp) (List.count_pos_iff.mpr hmem))
  have hfresh : p ≠ s.fresh := by
    rintro rfl
    exact (hs.known (Nat.le_refl _)).2.2.1 hp
  refine ⟨?_, step_home ht hlimbo hfresh⟩
  cases ht with
  | pop | quit | pick => exact subset_returns_executed _ _ _ _ (by exact hp)
  | start | endKeep | testKeep | endDelete | testDelete =>
    exact subset_enter_executed _ _ _ (by exact hp)
  | giveTo | yield | wakePush => simpa using hp
  | create | createFor => simpa [Pool.alloc] using hp
  | _ => exact hp

theorem shared_run (h : Reach s) {ls : List Label} (hr : run step s ls = some t)
    (hp : p ∈ s.executed) (hsh : (s.heap p).stack = .sharedCopy) :
    (t.heap p).scheduler = (s.heap p).scheduler := by
  have hinv := run_invariant (I := fun u => Reach u ∧ p ∈ u.executed ∧
    (u.heap p).stack = .sharedCopy ∧ (u.heap p).scheduler = (s.heap p).scheduler)
    (fun u lab w hu (hw : step u lab = some w) => ?_) ⟨h, hp, hsh, rfl⟩ hr
  · exact hinv.2.2.2
  · obtain ⟨hu, hpu, hshu, heq⟩ := hu
    obtain ⟨hpw, hstack, hsched⟩ := shared_step hu.owned (step_cases hw) hpu hshu
    exact ⟨hu.step hw, hpw, hstack.trans hshu, hsched.trans heq⟩

/-- Worker 1 takes the last of three tasks of worker 0. -/
def theftRun : List Label :=
  [.createFor 0 .standAlone false, .createFor 0 .sharedCopy false, .createFor 0 .standAlone false,
    .next (.thief 1), .stealOut 1 0, .stealIn 1]

end JamSched.Steal
