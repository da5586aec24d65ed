import JamSched.Steal.Attached

/-!
# Deletion of finished tasks

`StealScheduler::EndTask` first gives the task free to be stolen and looks at its status
afterwards. A task that yields is linked again before it is left, so between the two statements
another worker can steal it, run it and finish it; the test then succeeds for a task that has
finished elsewhere, and the task is deleted twice. As long as no `StealFrom` takes the task of
an `EndTask` in progress, each finished task is deleted once, by the thread on which it
finished, and a deleted task is not touched again.
-/
namespace JamSched.Steal

open Machine

/-- The thread whose `EndTask` the step begins. -/
def Label.endsOn : Label → Option SchedId
  | .endSet x => some x
  | _ => none

/-- No `StealFrom` takes the task for which its victim is between the two statements of
`EndTask`, and no real-time task is left that waits or is being woken. -/
def Undisturbed (s : Pool) (l : Label) : Prop :=
  (∀ j ∈ l.victim, ∀ p ∈ (s.thread (.thief j)).ending, p ∉ (s.loot j).2) ∧
    ∀ x ∈ l.endsOn, ∀ p ∈ (s.thread x).active, (s.heap p).taskType = .realTime →
      p ∉ s.blocked ∧ ∀ w ∈ s.waking, w.1 ≠ p

instance (s : Pool) (l : Label) : Decidable (Undisturbed s l) :=
  inferInstanceAs (Decidable ((∀ j ∈ l.victim, ∀ p ∈ (s.thread (.thief j)).ending,
    p ∉ (s.loot j).2) ∧ ∀ x ∈ l.endsOn, ∀ p ∈ (s.thread x).active,
      (s.heap p).taskType = .realTime → p ∉ s.blocked ∧ ∀ w ∈ s.waking, w.1 ≠ p))

/-- What is kept about the end of task `p`. -/
structure Tracked (s : Pool) (p : Ptr) : Prop where
  ending : ∀ x, (s.thread x).ending = some p →
    (s.heap p).scheduler = x ∧ (∀ z, p ∉ (s.thread z).limbo) ∧ p < s.fresh
  dead : s.deletions p ≠ [] → Idle s p
  once : (s.deletions p).length ≤ 1
  finished : (s.heap p).status = .finished → s.finishedOn p ≠ none
  done : ∀ x, s.finishedOn p = some x → s.deletions p = [(p, x)] ∨
    s.deletions p = [] ∧ (s.heap p).status = .finished ∧ s.Attached x p

namespace Tracked

variable {s t : Pool} {x y : SchedId} {p q : Ptr} {l : Label}

theorem scheduler (h : Tracked s p) (ho : Owned s) (hp : s.Attached x p) :
    (s.heap p).scheduler = x := by
  obtain ⟨k, hs⟩ := ho p
  rcases hp with hp | hp
  · exact hs.scheduler x (.inr (.inr hp))
  · exact (h.ending x hp).1

theorem not_limbo (h : Tracked s p) (ho : Owned s) (hp : s.Attached x p) (z : SchedId) :
    p ∉ (s.thread z).limbo := by
  obtain ⟨k, hs⟩ := ho p
  rcases hp with hp | hp
  · intro hz
    exact (hs.moving z (hs.loc_eq (by simp) (List.count_pos_iff.mpr hz))).2 x hp
  · exact (h.ending x hp).2.1 z

theorem lt_fresh (h : Tracked s p) (ho : Owned s) (hp : s.Attached x p) : p < s.fresh := by
  rcases hp with hp | hp
  · exact ho.lt_fresh hp
  · exact (h.ending x hp).2.2

theorem not_attached_of_idle (h : Idle s p) (x : SchedId) : ¬ s.Attached x p := by
  intro hp
  refine h.thread x (Thread.has_iff.mpr ?_)
  rcases hp with (hp | hp) | hp
  · exact .inl hp
  · exact .inr (.inl hp)
  · exact .inr (.inr (.inl hp))

/-- A step that does not steal the task keeps it with the thread that ends it. -/
theorem ending_step (h : Tracked s p) (ho : Owned s) (hu : Undisturbed s l) (ht : Step s l t)
    (hp : (t.thread x).ending = some p) :
    (t.heap p).scheduler = x ∧ (∀ z, p ∉ (t.thread z).limbo) ∧ p < t.fresh := by
  have hatt : s.Attached x p := by
    rcases step_thread ht x with (⟨he, -⟩ | ⟨he, -⟩) | ⟨a, q, i, -, hth, hth', -⟩ |
      ⟨i, j, a, -, hth'⟩ | ⟨a, ls, -, hth', -⟩
    · exact .inr (he ▸ hp)
    · simp [he] at hp
    · obtain rfl : a = p := by simpa [hth', Thread.ending] using hp
      exact .inl (.inl (by simp [hth, Thread.active]))
    · simp [hth', Thread.ending] at hp
    · simp [hth', Thread.ending] at hp
  have hx := h.scheduler ho hatt
  have hlimbo := h.not_limbo ho hatt
  have hlt := h.lt_fresh ho hatt
  refine ⟨(step_home ht hlimbo (Nat.ne_of_lt hlt)).2.trans hx, fun z hz => ?_,
    Nat.lt_of_lt_of_le hlt (step_fresh ht)⟩
  rcases step_thread ht z with (⟨-, hl⟩ | ⟨-, hl⟩) | ⟨a, q, i, -, -, hth', -⟩ |
    ⟨i, j, a, rfl, hth'⟩ | ⟨a, ls, rfl, hth', hall⟩
  · exact hlimbo z (hl ▸ hz)
  · exact hlimbo z (hl hz)
  · simp [hth', Thread.limbo] at hz
  · -- The task would be stolen: it is not dispatched, and the run has no such theft in `EndTask`.
    have hloot : p ∈ (s.loot j).2 := by simpa [hth', Thread.limbo] using hz
    have hj := scheduler_of_mem_ready ho ((mem_loot s j p).mp (.inr hloot))
    obtain rfl : .thief j = x := hj.symm.trans hx
    rcases hatt with hd | he
    · exact (ho.of_loot hloot).2.1 _ hd
    · exact hu.1 j rfl p he hloot
  · have hmem : p ∈ ls := by simpa [hth', Thread.limbo] using hz
    obtain rfl : .rib = x := (scheduler_of_mem_ready ho (hall p hmem)).symm.trans hx
    simp [hth', Thread.ending] at hp

theorem not_has (h : Tracked s p) (ho : Owned s) (hp : s.Attached x p) (hy : y ≠ x) :
    ¬ (s.thread y).Has p := by
  intro hh
  have hone (ha : s.Attached y p) : False :=
    hy ((h.scheduler ho ha).symm.trans (h.scheduler ho hp))
  rcases Thread.has_iff.mp hh with ha | ha | ha | ha
  · exact hone (.inl (.inl ha))
  · exact hone (.inl (.inr ha))
  · exact hone (.inr ha)
  · exact h.not_limbo ho hp y ha

/-- A deleted task is in no queue and in no wait list. -/
theorem unlinked_delete (ho : Owned s) (x : SchedId) (p : Ptr) :
    (∀ y, p ∉ (s.delete x p).isReady y) ∧ p ∉ (s.delete x p).blocked := by
  obtain ⟨k, hs⟩ := ho p
  have hle {m : Nat} {c : Prop} [Decidable c] (hm : m = if c then 1 else 0) : m - 1 = 0 := by
    split at hm <;> omega
  refine ⟨fun y => List.count_eq_zero.mp ?_, List.count_eq_zero.mp ?_⟩
  · rw [Pool.delete_isReady, List.count_erase_self]
    exact hle (hs.count (.ready y) (by simp))
  · rw [Pool.delete_blocked, List.count_erase_self]
    exact hle (hs.count .blocked (by simp))

/-- `EndTask` deletes the task it is called for. -/
theorem idle_end (h : Tracked s p) (ho : Owned s) (hp : s.Attached x p)
    (hw : ∀ y, (p, y) ∉ s.waking) {q : Option Ptr} (hq : q ≠ some p) :
    Idle ((s.delete x p).enter x q) p := by
  obtain ⟨hready, hblocked⟩ := unlinked_delete ho x p
  have hloop : Idle ((s.delete x p).setThread x .loop) p := by
    refine ⟨hready, hblocked, hw, fun y => ?_, h.lt_fresh ho hp⟩
    rw [setThread_apply]
    split
    · exact not_false
    · rename_i hy
      exact h.not_has ho hp hy
  have henter := hloop.enter (x := x) hq
  have heq : ((s.delete x p).setThread x .loop).enter x q = (s.delete x p).enter x q := by
    cases q <;> simp [Pool.enter, Pool.setThread]
  rwa [heq] at henter

/-- The main scheduler cancels a task of its queues. -/
theorem idle_cancel (h : Tracked s p) (ho : Owned s) {a : Option Ptr}
    (hth : s.thread .rib = .next a) (hp : p ∈ s.isReady .rib) (hnd : ∀ y, ¬ s.Dispatched y p) :
    Idle (s.delete .rib p) p := by
  obtain ⟨hready, hblocked⟩ := unlinked_delete ho .rib p
  obtain ⟨k, hs⟩ := ho p
  obtain rfl := loc_ready hs hp
  refine ⟨hready, hblocked, fun y hy => ?_, fun y hy => ?_, ?_⟩
  · cases hs.loc_eq (k := .waking y) (by simp) (List.count_pos_iff.mpr hy)
  · rcases Thread.has_iff.mp hy with ha | ha | ha | ha
    · exact hnd y (.inl ha)
    · exact hnd y (.inr ha)
    · obtain rfl : .rib = y := (hs.scheduler _ (.inl rfl)).symm.trans (h.ending y ha).1
      simp [hth, Thread.ending] at ha
    · cases hs.loc_eq (k := .limbo y) (by simp) (List.count_pos_iff.mpr ha)
  · exact Nat.lt_of_not_le fun hle => by simpa using (hs.known hle).1

/-- The main scheduler finds no worker for a task it took out. -/
theorem idle_giveUp (h : Tracked s p) (ho : Owned s) {a : Option Ptr} {ls : List Ptr}
    (hth : s.thread .rib = .handOver a (p :: ls)) :
    Idle ((s.delete .rib p).setThread .rib (.handOver a ls)) p := by
  obtain ⟨hready, hblocked⟩ := unlinked_delete ho .rib p
  obtain ⟨k, hs⟩ := ho p
  obtain rfl : k = .limbo .rib := hs.loc_eq (by simp) (by simp [Pool.count, hth, Thread.limbo])
  have hnd := (hs.moving .rib rfl).2
  refine ⟨hready, hblocked, fun y hy => ?_, fun y => ?_, ?_⟩
  · cases hs.loc_eq (k := .waking y) (by simp) (List.count_pos_iff.mpr hy)
  · rw [setThread_apply]
    split
    · have hone : (p :: ls).count p = 1 := by
        simpa [Pool.count, hth, Thread.limbo] using hs.count (.limbo .rib) (by simp)
      rintro (ha | ha)
      · exact hnd .rib (.inl (by simp [hth, Thread.active, ha]))
      · have := List.count_pos_iff.mpr ha
        rw [List.count_cons_self] at hone
        omega
    · rename_i hy
      intro hh
      rcases Thread.has_iff.mp hh with ha | ha | ha | ha
      · exact hnd y (.inl ha)
      · exact hnd y (.inr ha)
      · exact (h.ending y ha).2.1 .rib (by simp [hth, Thread.limbo])
      · exact hy (Loc.limbo.inj
          (hs.loc_eq (k := .limbo y) (by simp) (List.count_pos_iff.mpr ha))).symm
  · exact Nat.lt_of_not_le fun hle => by simpa using (hs.known hle).1

/-- A task that a step deletes is idle afterwards. -/
theorem idle_of_deleted (h : Tracked s p) (hr : Reach s) (hu : Undisturbed s l)
    (ht : Step s l t) (hgrow : t.deletions p ≠ s.deletions p) : Idle t p := by
  cases ht with
  | @giveUp a q ls hth =>
    obtain rfl : q = p := by
      by_contra hne
      simp [Pool.deletions, hne] at hgrow
    exact h.idle_giveUp hr.owned hth
  | @cancel a q hth hq hty ha =>
    obtain rfl : q = p := by
      by_contra hne
      simp [Pool.deletions, hne] at hgrow
    exact h.idle_cancel hr.owned hth hq (hr.owned.not_dispatched_of_collect hth ha hq hty)
  | @endDelete x a q hth hx ha =>
    obtain rfl : a = p := by
      by_contra hne
      simp [Pool.deletions, hne] at hgrow
    have hap := hr.apart x
    rw [hth] at hap
    refine h.idle_end hr.owned (attached_of_active (by simp [hth, Thread.active])) ?_ hap
    rcases ha with ha | ha
    · exact fun y hy => (hu.2 x rfl a (by simp [hth, Thread.active]) ha).2 _ hy rfl
    · exact fun y => List.count_eq_zero.mp ((hr.owned.finished_free ha).1 (.waking y))
  | @testDelete x a q hth ha =>
    obtain rfl : a = p := by
      by_contra hne
      simp [Pool.deletions, hne] at hgrow
    have hap := hr.apart x
    rw [hth] at hap
    refine h.idle_end hr.owned (.inr (by simp [hth, Thread.ending])) ?_ hap
    exact fun y => List.count_eq_zero.mp ((hr.owned.finished_free ha).1 (.waking y))
  | create | createFor => simp [Pool.deletions, Pool.alloc] at hgrow
  | _ => simp [Pool.deletions] at hgrow

/-- A task is deleted at most once: what deletes it has to do with it. -/
theorem deletions_step (h : Tracked s p) (ht : Step s l t) :
    t.deletions p = s.deletions p ∨ s.deletions p = [] := by
  by_contra hne
  obtain ⟨hgrow, hdead⟩ := not_or.mp hne
  have hidle := h.dead hdead
  rcases step_deletions ht p with hsame | ⟨y, -, hlim | hr | ⟨q, ⟨hy, -⟩ | ⟨-, hy, -⟩⟩⟩
  · exact hgrow hsame
  · exact hidle.thread .rib (Thread.has_iff.mpr (.inr (.inr (.inr hlim))))
  · exact hidle.ready .rib hr
  · exact hidle.thread y (by simp [hy, Thread.Has])
  · exact hidle.thread y (by simp [hy, Thread.Has])

theorem done_step (h : Tracked s p) (ho : Owned s) (ht : Step s l t)
    (hx : t.finishedOn p = some x) : t.deletions p = [(p, x)] ∨
      t.deletions p = [] ∧ (t.heap p).status = .finished ∧ t.Attached x p := by
  rcases step_finishedOn ht p with hsame | ⟨y, hrun, hy, hdel, hfin, hact⟩
  · rcases h.done x (hsame ▸ hx) with hdone | ⟨hnil, hfin, hatt⟩
    · rcases h.deletions_step ht with hsame' | hnil
      · exact .inl (hsame'.trans hdone)
      · simp [hdone] at hnil
    · have hone (y : SchedId) (hy : s.Attached y p) : y = x :=
        (h.scheduler ho hy).symm.trans (h.scheduler ho hatt)
      rcases step_attached ho ht hfin hatt hone with hdel | ⟨hdel, hatt'⟩
      · exact .inl (by rw [hdel, hnil])
      · exact .inr ⟨hdel.trans hnil, step_status ho ht hfin (h.lt_fresh ho hatt), hatt'⟩
  · obtain rfl : y = x := Option.some.inj (hy.symm.trans hx)
    have hnil : s.deletions p = [] := by
      by_contra hne
      exact (h.dead hne).thread y (by simp [hrun, Thread.Has])
    exact .inr ⟨hdel.trans hnil, hfin, attached_of_active hact⟩

theorem step (h : Tracked s p) (hr : Reach s) (hu : Undisturbed s l) (ht : Step s l t) :
    Tracked t p where
  ending _ hx := h.ending_step hr.owned hu ht hx
  dead hne := by
    by_cases hsame : t.deletions p = s.deletions p
    · exact (h.dead (hsame ▸ hne)).step ht
    · exact h.idle_of_deleted hr hu ht hsame
  once := by
    rcases step_deletions ht p with hsame | ⟨y, hgrow, -⟩
    · exact hsame ▸ h.once
    · rcases h.deletions_step ht with hsame | hnil
      · exact hsame ▸ h.once
      · simp [hgrow, hnil]
  finished hfin := by
    rcases step_finished ht hfin with hold | hnew
    · rcases step_finishedOn ht p with hsame | ⟨y, -, hy, -⟩
      · exact hsame ▸ h.finished hold
      · simp [hy]
    · exact hnew
  done _ hx := h.done_step hr.owned ht hx

end Tracked

theorem tracked_initial (n : Nat) (p : Ptr) : Tracked (initial n) p := by
  refine ⟨?_, ?_, ?_, ?_, ?_⟩ <;> simp [initial, Pool.deletions, Thread.ending]

theorem tracked_run {n : Nat} {ls : List Label} {s : Pool}
    (hr : run step (initial n) ls = some s) (hu : Along step Undisturbed (initial n) ls) (p : Ptr) :
    Tracked s p := by
  have hinv : Reach s ∧ Tracked s p := by
    refine run_invariant_along (I := fun u => Reach u ∧ Tracked u p) (fun u lab w h hlab hw => ?_)
      ⟨Reach.initial n, tracked_initial n p⟩ hu hr
    exact ⟨h.1.step hw, h.2.step h.1 hlab (step_cases hw)⟩
  exact hinv.2

/-- The tasks whose objects a step reads or writes. -/
def Label.touches (s : Pool) : Label → List Ptr
  | .next _ | .quit _ | .create _ _ _ | .createFor _ _ _ => []
  | .pop i => (s.isReady (.thief i)).take 1
  | .stealOut _ j => s.isReady (.thief j)
  | .stealIn i => (s.thread (.thief i)).limbo
  | .pick p | .cancel p => p :: (s.thread .rib).active.toList
  | .collect l => l ++ (s.thread .rib).active.toList
  | .give _ => (s.thread .rib).limbo.take 1
  | .swap x => (s.thread x).active.toList ++ (s.thread x).held.toList
  | .endSet x => (s.thread x).active.toList
  | .endTest x => (s.thread x).ending.toList
  | .yield x | .block x | .finish x => (s.thread x).held.toList
  | .wakeRead p | .wakePush p _ => [p]

/-- No step leads to a task that is idle. -/
theorem not_idle_of_touches {s t : Pool} {p : Ptr} {l : Label} (ht : Step s l t)
    (hp : p ∈ l.touches s) : ¬ Idle s p := by
  intro h
  have hactive (x : SchedId) : (s.thread x).active ≠ some p := fun ha =>
    h.thread x (Thread.has_iff.mpr (.inl ha))
  have hheld (x : SchedId) : (s.thread x).held ≠ some p := fun ha =>
    h.thread x (Thread.has_iff.mpr (.inr (.inl ha)))
  have hending (x : SchedId) : (s.thread x).ending ≠ some p := fun ha =>
    h.thread x (Thread.has_iff.mpr (.inr (.inr (.inl ha))))
  have hlimbo (x : SchedId) : p ∉ (s.thread x).limbo := fun ha =>
    h.thread x (Thread.has_iff.mpr (.inr (.inr (.inr ha))))
  cases ht with
  | pop => exact h.ready _ (List.mem_of_mem_take hp)
  | stealOut => exact h.ready _ hp
  | stealIn => exact hlimbo _ hp
  | giveTo | giveUp | given => exact hlimbo _ (List.mem_of_mem_take hp)
  | @pick a q hth hq =>
    simp only [Label.touches, List.mem_cons, Option.mem_toList, hactive, or_false] at hp
    exact h.ready .rib (hp ▸ hq)
  | @cancel a q hth hq =>
    simp only [Label.touches, List.mem_cons, Option.mem_toList, hactive, or_false] at hp
    exact h.ready .rib (hp ▸ hq)
  | @collect a ls hth hn hl ha hall =>
    simp only [Label.touches, List.mem_append, Option.mem_toList, hactive, or_false] at hp
    exact h.ready .rib (hall p hp).1
  | @wakeRead q hq =>
    simp only [Label.touches, List.mem_singleton] at hp
    exact h.blocked (hp ▸ hq)
  | @wakePush q y hq =>
    simp only [Label.touches, List.mem_singleton] at hp
    exact h.waking y (hp ▸ hq)
  | _ => simp [Label.touches, hactive, hheld, hending] at hp

/-- A finished task is deleted in `EndTask`, by the thread on which it has finished. -/
theorem Tracked.deleted_by {s t : Pool} {p : Ptr} {x y : SchedId} {l : Label} (h : Tracked s p)
    (ho : Owned s) (ht : Step s l t) (hgrow : t.deletions p = (p, x) :: s.deletions p)
    (hy : s.finishedOn p = some y) :
    x = y ∧ ∃ q, s.thread x = .endSet p q ∨ s.thread x = .endTest p q := by
  have hne : t.deletions p ≠ s.deletions p := by simp [hgrow]
  have hnil := (h.deletions_step ht).resolve_left hne
  obtain ⟨-, hfin, hatt⟩ := (h.done y hy).resolve_left (by simp [hnil])
  obtain ⟨hfree, -⟩ := ho.finished_free hfin
  have hone (z : SchedId) (hz : s.Attached z p) : z = y :=
    (h.scheduler ho hz).symm.trans (h.scheduler ho hatt)
  rcases step_deletions ht p with hsame | ⟨z, hz, how⟩
  · exact absurd hsame hne
  · obtain rfl : x = z := by simpa using hgrow.symm.trans hz
    rcases how with hlim | hr | ⟨q, ⟨hth, -⟩ | ⟨-, hth, -⟩⟩
    · exact absurd hlim (List.count_eq_zero.mp (hfree (.limbo .rib)))
    · exact absurd hr (List.count_eq_zero.mp (hfree (.ready .rib)))
    · exact ⟨hone x (.inr (by simp [hth, Thread.ending])), q, .inr hth⟩
    · exact ⟨hone x (attached_of_active (by simp [hth, Thread.active])), q, .inl hth⟩

/-- Worker 0 runs task 0 to its end and goes on with task 1. -/
def plainRun : List Label :=
  [.createFor 0 .standAlone false, .createFor 0 .standAlone false, .next (.thief 0), .pop 0,
    .swap (.thief 0), .finish (.thief 0), .pop 0, .swap (.thief 0), .endSet (.thief 0),
    .endTest (.thief 0)]

/-- Worker 0 leaves task 0, which has yielded; between the two statements of its `EndTask`
worker 1 steals the task, runs it and finishes it. -/
def raceRun : List Label :=
  [.createFor 0 .standAlone false, .next (.thief 0), .pop 0, .swap (.thief 0),
    .createFor 0 .standAlone false, .createFor 0 .standAlone false, .yield (.thief 0), .pop 0,
    .swap (.thief 0), .endSet (.thief 0), .next (.thief 1), .stealOut 1 0, .stealIn 1, .pop 1,
    .swap (.thief 1), .finish (.thief 1), .endTest (.thief 0), .createFor 1 .standAlone false,
    .pop 1, .swap (.thief 1), .endSet (.thief 1), .endTest (.thief 1)]

end JamSched.Steal
