import JamSched.Steal.Reach

/-!
# Tasks that a thread has left, or is about to leave

A task is attached to the thread that runs it, has left it, or is in `EndTask` for it. A task is
idle when no thread, queue or wait list refers to it; a deleted task has to stay so. The lemmas
say, for every step, which threads let go of a task, which tasks are deleted and by whom, and
how a task becomes finished.
-/
namespace JamSched.Steal

namespace Thread

/-- The task for which the thread is between the two statements of `EndTask`. -/
def ending : Thread → Option Ptr
  | .endTest a _ => some a
  | _ => none

/-- The thread has to do with task `p`. -/
def Has : Thread → Ptr → Prop
  | .loop, _ => False
  | .next a, p => a = some p
  | .steal a l, p | .handOver a l, p => a = some p ∨ p ∈ l
  | .switch a q, p => a = some p ∨ q = some p
  | .endSet a q, p | .endTest a q, p => a = p ∨ q = some p
  | .run q, p => q = p

theorem has_iff {th : Thread} {p : Ptr} : th.Has p ↔
    th.active = some p ∨ th.held = some p ∨ th.ending = some p ∨ p ∈ th.limbo := by
  cases th <;> simp [Has, active, held, ending, limbo, or_comm]

end Thread

/-- Task `p` is linked nowhere and no thread has to do with it. -/
structure Idle (s : Pool) (p : Ptr) : Prop where
  ready : ∀ x, p ∉ s.isReady x
  blocked : p ∉ s.blocked
  waking : ∀ x, (p, x) ∉ s.waking
  thread : ∀ x, ¬ (s.thread x).Has p
  known : p < s.fresh

namespace Idle

variable {s t : Pool} {x : SchedId} {p q : Ptr} {l : Label}

theorem setThread (h : Idle s p) {th : Thread} (hth : ¬ th.Has p) : Idle (s.setThread x th) p := by
  refine ⟨h.ready, h.blocked, h.waking, ?_, h.known⟩
  intro y
  rw [setThread_apply]
  split
  · exact hth
  · exact h.thread y

theorem setReady (h : Idle s p) {ls : List Ptr} (hl : p ∉ ls) : Idle (s.setReady x ls) p := by
  refine ⟨?_, h.blocked, h.waking, h.thread, h.known⟩
  intro y
  rw [Pool.setReady_isReady, Function.update_apply]
  split
  · exact hl
  · exact h.ready y

theorem enter (h : Idle s p) {q : Option Ptr} (hq : q ≠ some p) : Idle (s.enter x q) p := by
  cases q with
  | none => exact h.setThread not_false
  | some q =>
    have hrun : ¬ (Thread.run q).Has p := fun hqp => hq (congrArg some hqp)
    have := h.setThread (x := x) hrun
    exact ⟨this.ready, this.blocked, this.waking, this.thread, this.known⟩

theorem returns (h : Idle s p) {a q : Option Ptr} (ha : a ≠ some p) (hq : q ≠ some p) :
    Idle (s.returns x a q) p := by
  unfold Pool.returns
  split
  · exact h.enter hq
  · exact h.setThread fun hh => hh.elim ha hq

theorem push (h : Idle s p) (hq : p ≠ q) (front : Bool) : Idle (s.push x front q) p := by
  have hready : p ∉ (if front then q :: s.isReady x else s.isReady x ++ [q]) := by
    split <;> simp [hq, h.ready x]
  have := h.setReady (x := x) hready
  cases x with
  | rib => exact this
  | thief i => exact ⟨this.ready, this.blocked, this.waking, this.thread, this.known⟩

theorem of_sizes (h : Idle s p) (f : Nat → Nat) (g : Ptr → Option SchedId) :
    Idle { s with sizeOfQueue := f, finishedOn := g } p :=
  ⟨h.ready, h.blocked, h.waking, h.thread, h.known⟩

theorem write (h : Idle s p) (q : Ptr) (f : TaskInterface → TaskInterface) : Idle (s.write q f) p :=
  ⟨h.ready, h.blocked, h.waking, h.thread, h.known⟩

theorem enable (h : Idle s p) (hq : p ≠ q) (front : Bool) : Idle (s.enable x front q) p := by
  unfold Pool.enable
  split
  · exact h.write q _
  · exact (h.push hq front).write q _

theorem delete (h : Idle s p) (x : SchedId) (q : Ptr) : Idle (s.delete x q) p :=
  ⟨fun y hy => h.ready y (List.mem_of_mem_erase hy), fun hy => h.blocked (List.mem_of_mem_erase hy),
    h.waking, h.thread, h.known⟩

/-- A step changes nothing about a task to which nothing leads. -/
theorem step (h : Idle s p) (ht : Step s l t) : Idle t p := by
  have hthread {x : SchedId} {th : Thread} (hth : s.thread x = th) : ¬ th.Has p := hth ▸ h.thread x
  cases ht with
  | next => exact h.setThread fun hh => by cases hh
  | @pop i a q ls hth hr =>
    have hnot : p ∉ q :: ls := hr ▸ h.ready (.thief i)
    have hne : p ≠ q := fun hpq => hnot (by simp [hpq])
    have hset := h.setReady (x := .thief i) fun hp => hnot (List.mem_cons_of_mem q hp)
    exact Idle.returns (Idle.write (hset.of_sizes _ _) q _) (hthread hth) fun hq =>
      hne (Option.some.inj hq).symm
  | quit hth => exact h.returns (hthread hth) (by simp)
  | @stealOut i j a hth =>
    have hloot := (mem_loot s j p).not.mpr (h.ready (.thief j))
    have hset := h.setReady (x := .thief j) fun hp => hloot (.inl hp)
    exact (hset.of_sizes _ _).setThread fun hh =>
      hh.elim (fun ha => hthread hth ha) fun hp => hloot (.inr hp)
  | @stealIn i a got hth =>
    have hnot := hthread hth
    have hset : Idle (s.setReady (.thief i) (got.reverse ++ s.isReady (.thief i))) p :=
      h.setReady (by simpa [h.ready (.thief i)] using fun hp => hnot (.inr hp))
    have hth' : ¬ (Thread.next a).Has p := fun ha => hnot (.inl ha)
    have hall := hset.setThread (x := .thief i) hth'
    exact ⟨hall.ready, hall.blocked, hall.waking, hall.thread, hall.known⟩
  | @pick a q hth hq =>
    have hne : p ≠ q := fun hpq => h.ready .rib (hpq ▸ hq)
    exact (h.setReady fun hp => h.ready .rib (List.mem_of_mem_erase hp)).returns (hthread hth)
      fun hq => hne (Option.some.inj hq).symm
  | @collect a ls hth hn hl ha hall =>
    refine Idle.setThread (h.setReady fun hp => h.ready .rib (List.mem_of_mem_filter hp)) ?_
    exact fun hh => hh.elim (hthread hth) fun hp => h.ready .rib (hall p hp).1
  | @giveTo i a q ls hth =>
    have hnot := hthread hth
    have hne : p ≠ q := fun hpq => hnot (.inr (by simp [hpq]))
    refine Idle.setThread (Idle.enable (h.write q _) hne true) ?_
    rintro (ha | hp)
    · exact hnot (.inl ha)
    · exact hnot (.inr (List.mem_cons_of_mem q hp))
  | @giveUp a q ls hth =>
    have hnot := hthread hth
    refine (h.delete .rib q).setThread ?_
    rintro (ha | hp)
    · exact hnot (.inl ha)
    · exact hnot (.inr (List.mem_cons_of_mem q hp))
  | given hth => exact h.setThread fun ha => hthread hth (.inl ha)
  | cancel => exact h.delete _ _
  | start hth => exact h.enter fun hq => hthread hth (.inr hq)
  | swap hth =>
    refine h.setThread fun hh => ?_
    exact hh.elim (fun ha => hthread hth (.inl (congrArg some ha))) fun hq => hthread hth (.inr hq)
  | endDelete hth | testDelete hth => exact (h.delete _ _).enter fun hq => hthread hth (.inr hq)
  | endKeep hth | testKeep hth => exact h.enter fun hq => hthread hth (.inr hq)
  | endSet hth => exact (h.write _ _).setThread fun hh => hthread hth hh
  | yield hth =>
    have hne := hthread hth
    exact (h.enable (Ne.symm hne) _).setThread fun hh => hne (Option.some.inj hh)
  | block hth =>
    have hne := hthread hth
    refine Idle.setThread ?_ fun hh => hne (Option.some.inj hh)
    exact ⟨h.ready, by simpa [h.blocked] using Ne.symm hne, h.waking, h.thread, h.known⟩
  | finish hth =>
    have hne := hthread hth
    exact ((h.write _ _).of_sizes _ _).setThread fun hh => hne (Option.some.inj hh)
  | @wakeRead q hq =>
    have hne : p ≠ q := fun hpq => h.blocked (hpq ▸ hq)
    exact ⟨h.ready, fun hp => h.blocked (List.mem_of_mem_erase hp),
      fun x => by simp [hne, h.waking x], h.thread, h.known⟩
  | @wakePush q y hq =>
    have hne : p ≠ q := fun hpq => h.waking y (hpq ▸ hq)
    refine Idle.enable ?_ hne true
    exact ⟨h.ready, h.blocked, fun x hp => h.waking x (List.mem_of_mem_erase hp), h.thread, h.known⟩
  | create | createFor =>
    refine Idle.push ?_ (Nat.ne_of_lt h.known) _
    exact ⟨h.ready, h.blocked, h.waking, h.thread, Nat.lt_succ_of_lt h.known⟩

end Idle

/-- The deletions of task `p`. -/
def Pool.deletions (s : Pool) (p : Ptr) : List (Ptr × SchedId) := s.deleted.filter (·.1 = p)

/-- Thread `x` works for task `p`, or is about to look whether it has finished. -/
def Pool.Attached (s : Pool) (x : SchedId) (p : Ptr) : Prop :=
  s.Dispatched x p ∨ (s.thread x).ending = some p

section Steps

variable {s t : Pool} {x : SchedId} {p q : Ptr} {l : Label}

/-- Thread `z` begins no second statement of `EndTask` and takes no task away. -/
def Calm (s t : Pool) (z : SchedId) : Prop :=
  (t.thread z).ending = (s.thread z).ending ∧ (t.thread z).limbo = (s.thread z).limbo ∨
    (t.thread z).ending = none ∧ (t.thread z).limbo ⊆ (s.thread z).limbo

theorem calm_of_thread {z : SchedId} (h : t.thread z = s.thread z) : Calm s t z := by
  rw [Calm, h]
  exact .inl ⟨rfl, rfl⟩

theorem calm_setThread {th : Thread} (ht : t.thread = s.thread) (he : th.ending = none)
    (hl : th.limbo ⊆ (s.thread x).limbo) (z : SchedId) : Calm s (t.setThread x th) z := by
  rw [Calm, Pool.setThread_thread, Function.update_apply, ht]
  split
  · rename_i hz
    exact .inr ⟨he, hz ▸ hl⟩
  · exact .inl ⟨rfl, rfl⟩

theorem calm_enter {q : Option Ptr} (ht : t.thread = s.thread) (z : SchedId) :
    Calm s (t.enter x q) z := by
  cases q with
  | none => exact calm_setThread ht rfl (List.nil_subset _) z
  | some q =>
    have hending : (Thread.run q).ending = none := rfl
    exact calm_setThread ht hending (List.nil_subset _) z

theorem calm_returns {a q : Option Ptr} (ht : t.thread = s.thread) (z : SchedId) :
    Calm s (t.returns x a q) z := by
  unfold Pool.returns
  split
  · exact calm_enter ht z
  · exact calm_setThread ht rfl (List.nil_subset _) z

/-- What a step does to one thread, as far as `EndTask` and the tasks in transit go. -/
theorem step_thread (ht : Step s l t) (z : SchedId) :
    Calm s t z ∨
    (∃ a q i, l = .endSet z ∧ s.thread z = .endSet a q ∧ t.thread z = .endTest a q ∧
      (s.heap a).scheduler = .thief i) ∨
    (∃ i j a, l = .stealOut i j ∧ t.thread z = .steal a (s.loot j).2) ∨
    ∃ a ls, z = .rib ∧ t.thread z = .handOver a ls ∧ ∀ p ∈ ls, p ∈ s.isReady .rib := by
  cases ht with
  | next hx hth => exact .inl (calm_setThread rfl rfl (List.nil_subset _) z)
  | pop | quit | pick => exact .inl (calm_returns rfl z)
  | @stealOut i j a hth =>
    by_cases hz : z = .thief i
    · exact .inr (.inr (.inl ⟨i, j, a, rfl, by simp [hz]⟩))
    · exact .inl (calm_of_thread (by simp [hz]))
  | stealIn => exact .inl (calm_setThread rfl rfl (List.nil_subset _) z)
  | @collect a ls hth hn hl ha hall =>
    by_cases hz : z = .rib
    · exact .inr (.inr (.inr ⟨a, ls, hz, by simp [hz], fun p hp => (hall p hp).1⟩))
    · exact .inl (calm_of_thread (by simp [hz]))
  | giveTo hth =>
    refine .inl (calm_setThread (s := s) ?_ rfl ?_ z)
    · exact enable_thread _ _ _ _
    · rw [hth]
      exact List.subset_cons_self _ _
  | giveUp hth =>
    refine .inl (calm_setThread (s := s) rfl rfl ?_ z)
    rw [hth]
    exact List.subset_cons_self _ _
  | given | block | finish => exact .inl (calm_setThread rfl rfl (List.nil_subset _) z)
  | yield => exact .inl (calm_setThread (enable_thread _ _ _ _) rfl (List.nil_subset _) z)
  | start | endKeep | testKeep | endDelete | testDelete => exact .inl (calm_enter rfl z)
  | swap => exact .inl (calm_setThread rfl rfl (List.nil_subset _) z)
  | @endSet x a q i hth hx =>
    by_cases hz : z = x
    · subst hz
      exact .inr (.inl ⟨a, q, i, rfl, hth, by simp, hx⟩)
    · exact .inl (calm_of_thread (by simp [hz]))
  | cancel | wakeRead => exact .inl (calm_of_thread rfl)
  | wakePush => exact .inl (calm_of_thread (congrFun (enable_thread _ _ _ _) z))
  | create | createFor => exact .inl (calm_of_thread (congrFun (push_thread _ _ _ _) z))

/-- Thread `x` is in `EndTask` for task `p` and will delete it. -/
def EndDeletes (s : Pool) (l : Label) (x : SchedId) (p : Ptr) : Prop :=
  ∃ q, s.thread x = .endTest p q ∧ (s.heap p).status = .finished ∨
    l = .endSet x ∧ s.thread x = .endSet p q ∧
      ((s.heap p).taskType = .realTime ∨ (s.heap p).status = .finished)

/-- How a task is deleted: by the main scheduler, before it has run to its end, or in `EndTask`. -/
theorem step_deletions (ht : Step s l t) (p : Ptr) :
    t.deletions p = s.deletions p ∨ ∃ x, t.deletions p = (p, x) :: s.deletions p ∧
      (p ∈ (s.thread .rib).limbo ∨ p ∈ s.isReady .rib ∨ EndDeletes s l x p) := by
  cases ht with
  | @giveUp a q ls hth =>
    by_cases hqp : q = p
    · subst hqp
      exact .inr ⟨.rib, by simp [Pool.deletions], .inl (by simp [hth, Thread.limbo])⟩
    · exact .inl (by simp [Pool.deletions, hqp])
  | @cancel a q hth hq =>
    by_cases hqp : q = p
    · subst hqp
      exact .inr ⟨.rib, by simp [Pool.deletions], .inr (.inl hq)⟩
    · exact .inl (by simp [Pool.deletions, hqp])
  | @endDelete x a q hth hx ha =>
    by_cases hap : a = p
    · subst hap
      exact .inr ⟨x, by simp [Pool.deletions], .inr (.inr ⟨q, .inr ⟨rfl, hth, ha⟩⟩)⟩
    · exact .inl (by simp [Pool.deletions, hap])
  | @testDelete x a q hth ha =>
    by_cases hap : a = p
    · subst hap
      exact .inr ⟨x, by simp [Pool.deletions], .inr (.inr ⟨q, .inl ⟨hth, ha⟩⟩)⟩
    · exact .inl (by simp [Pool.deletions, hap])
  | create | createFor => exact .inl (by simp [Pool.deletions, Pool.alloc])
  | _ => exact .inl (by simp [Pool.deletions])

/-- A status becomes `finished` in one way. -/
theorem step_finished (ht : Step s l t) (hp : (t.heap p).status = .finished) :
    (s.heap p).status = .finished ∨ t.finishedOn p ≠ none := by
  have hmod {h : Heap} {q : Ptr} {f : TaskInterface → TaskInterface}
      (hf : ∀ o, (f o).status = .finished → o.status = .finished)
      (hh : (h.modify q f p).status = .finished) : (h p).status = .finished := by
    rw [Heap.modify_apply] at hh
    split at hh
    · rename_i hpq
      exact hpq ▸ hf _ hh
    · exact hh
  cases ht with
  | pop =>
    rw [returns_heap] at hp
    exact .inl (hmod (by simp) hp)
  | stealIn =>
    simp only [Pool.setThread_heap, Pool.addSize_heap, Pool.setReady_heap] at hp
    split at hp
    · simp only [TaskInterface.steal] at hp
      split at hp <;> exact .inl hp
    · exact .inl hp
  | giveTo =>
    rw [Pool.setThread_heap, enable_heap] at hp
    refine .inl (hmod (f := (·.steal _)) ?_ (hmod (by simp) hp))
    intro o ho
    simp only [TaskInterface.steal] at ho
    split at ho <;> exact ho
  | yield =>
    rw [Pool.setThread_heap, enable_heap] at hp
    exact .inl (hmod (by simp) hp)
  | wakePush =>
    rw [enable_heap] at hp
    exact .inl (hmod (by simp) hp)
  | endSet =>
    rw [Pool.setThread_heap, Pool.write_heap] at hp
    refine .inl (hmod ?_ hp)
    intro o ho
    split at ho <;> exact ho
  | @finish x q hth =>
    by_cases hpq : p = q
    · exact .inr (by simp [hpq])
    · simp only [Pool.setThread_heap, Pool.write_heap, Heap.modify_of_ne _ _ hpq] at hp
      exact .inl hp
  | create | createFor =>
    rw [push_heap] at hp
    exact .inl (hmod (by simp) hp)
  | _ => exact .inl (by simpa using hp)

theorem step_finishedOn (ht : Step s l t) (p : Ptr) :
    t.finishedOn p = s.finishedOn p ∨ ∃ x, s.thread x = .run p ∧ t.finishedOn p = some x ∧
      t.deletions p = s.deletions p ∧ (t.heap p).status = .finished ∧
        (t.thread x).active = some p := by
  cases ht with
  | @finish x q hth =>
    by_cases hpq : p = q
    · subst hpq
      exact .inr ⟨x, hth, by simp, rfl, by simp, by simp [Thread.active]⟩
    · exact .inl (by simp [hpq])
  | create | createFor => exact .inl (by simp [Pool.alloc])
  | _ => exact .inl (by simp)

theorem step_fresh (ht : Step s l t) : s.fresh ≤ t.fresh := by
  cases ht with
  | create | createFor =>
    rw [push_fresh]
    exact Nat.le_succ _
  | _ => simp

/-- The thread whose state a step changes. -/
def Label.actor : Label → Option SchedId
  | .next x | .quit x | .swap x | .endSet x | .endTest x | .yield x | .block x | .finish x => some x
  | .pop i | .stealOut i _ | .stealIn i => some (.thief i)
  | .pick _ | .collect _ | .give _ | .cancel _ => some .rib
  | .wakeRead _ | .wakePush _ _ | .create _ _ _ | .createFor _ _ _ => none

theorem enter_thread_of_ne {q : Option Ptr} {y : SchedId} (hy : y ≠ x) :
    (s.enter x q).thread y = s.thread y := by
  cases q <;> simp [Pool.enter, hy]

theorem returns_thread_of_ne {a q : Option Ptr} {y : SchedId} (hy : y ≠ x) :
    (s.returns x a q).thread y = s.thread y := by
  unfold Pool.returns
  split
  · exact enter_thread_of_ne hy
  · simp [hy]

theorem step_thread_of_ne (ht : Step s l t) (hx : l.actor ≠ some x) : t.thread x = s.thread x := by
  have hne {y : SchedId} (hy : some y ≠ some x) : x ≠ y := fun hxy => hy (congrArg some hxy.symm)
  cases ht with
  | pop | quit | pick => exact returns_thread_of_ne (hne hx)
  | start | endDelete | endKeep | testDelete | testKeep => exact enter_thread_of_ne (hne hx)
  | cancel | wakeRead => rfl
  | wakePush => exact congrFun (enable_thread _ _ _ _) x
  | create | createFor => exact congrFun (push_thread _ _ _ _) x
  | _ => simp [hne hx]

/-- Nobody holds a finished task, and it is linked nowhere. -/
theorem Owned.finished_free (h : Owned s) (hfin : (s.heap p).status = .finished) :
    (∀ k, s.count p k = 0) ∧ ∀ y, (s.thread y).held ≠ some p := by
  obtain ⟨k, hs⟩ := h p
  obtain rfl := hs.finished hfin
  refine ⟨fun k => ?_, fun y hy => (hs.held y hy).2 hfin⟩
  cases k with
  | none => rfl
  | _ => exact (hs.count _ (by simp)).trans (by simp)

theorem attached_of_active (h : (t.thread x).active = some p) : t.Attached x p := .inl (.inl h)

theorem attached_returns {q : Option Ptr} (hq : q ≠ some p) :
    (s.returns x (some p) q).Attached x p := by
  rw [Pool.returns, if_neg (Ne.symm hq)]
  exact attached_of_active (by simp [Thread.active])

/-- A thread keeps a finished task through each of its own steps, up to the deletion. -/
theorem attached_own_step (ht : Step s l t) (hx : l.actor = some x)
    (hfin : (s.heap p).status = .finished)
    (hact : (s.thread x).active = some p ∨ (s.thread x).ending = some p)
    (hready : ∀ y, p ∉ s.isReady y) (hrun : s.thread x ≠ .run p)
    (hsame : t.deletions p = s.deletions p) : t.Attached x p := by
  cases ht with
  | next _ hth =>
    cases hx
    simp [hth, Thread.active, Thread.ending] at hact
  | @pop i a q ls hth hr =>
    cases hx
    obtain rfl : a = some p := by simpa [hth, Thread.active, Thread.ending] using hact
    refine attached_returns fun hq => hready (.thief i) ?_
    simp [hr, Option.some.inj hq]
  | @quit y a hth =>
    cases hx
    obtain rfl : a = some p := by simpa [hth, Thread.active, Thread.ending] using hact
    exact attached_returns (by simp)
  | @stealOut i j a hth =>
    cases hx
    obtain rfl : a = some p := by simpa [hth, Thread.active, Thread.ending] using hact
    exact attached_of_active (by simp [Thread.active])
  | @stealIn i a got hth =>
    cases hx
    obtain rfl : a = some p := by simpa [hth, Thread.active, Thread.ending] using hact
    exact attached_of_active (by simp [Thread.active])
  | @pick a q hth hq =>
    cases hx
    obtain rfl : a = some p := by simpa [hth, Thread.active, Thread.ending] using hact
    exact attached_returns fun hqp => hready .rib (Option.some.inj hqp ▸ hq)
  | @collect a ls hth =>
    cases hx
    obtain rfl : a = some p := by simpa [hth, Thread.active, Thread.ending] using hact
    exact attached_of_active (by simp [Thread.active])
  | @giveTo i a q ls hth | @giveUp a q ls hth | @given i a hth =>
    cases hx
    obtain rfl : a = some p := by simpa [hth, Thread.active, Thread.ending] using hact
    exact attached_of_active (by simp [Thread.active])
  | cancel =>
    cases hx
    exact hact.imp .inl id
  | start hth =>
    cases hx
    simp [hth, Thread.active, Thread.ending] at hact
  | @swap y a q hth =>
    cases hx
    obtain rfl : a = p := by simpa [hth, Thread.active, Thread.ending] using hact
    exact attached_of_active (by simp [Thread.active])
  | @endDelete y a q hth _ ha | @testDelete y a q hth ha =>
    cases hx
    obtain rfl : a = p := by simpa [hth, Thread.active, Thread.ending] using hact
    simp [Pool.deletions] at hsame
  | @endKeep y a q hth _ ha =>
    cases hx
    obtain rfl : a = p := by simpa [hth, Thread.active, Thread.ending] using hact
    exact absurd (.inr hfin) ha
  | @endSet y a q i hth =>
    cases hx
    obtain rfl : a = p := by simpa [hth, Thread.active, Thread.ending] using hact
    exact .inr (by simp [Thread.ending])
  | @testKeep y a q hth ha =>
    cases hx
    obtain rfl : a = p := by simpa [hth, Thread.active, Thread.ending] using hact
    exact absurd hfin ha
  | @yield y q hth | @block y q hth | @finish y q hth =>
    cases hx
    obtain rfl : q = p := by simpa [hth, Thread.active, Thread.ending] using hact
    exact absurd hth hrun
  | wakeRead | wakePush | create | createFor => cases hx

/-- A task that has finished on a thread stays with that thread until `EndTask` deletes it. -/
theorem step_attached (h : Owned s) (ht : Step s l t) (hfin : (s.heap p).status = .finished)
    (hp : s.Attached x p) (hone : ∀ y, s.Attached y p → y = x) :
    t.deletions p = (p, x) :: s.deletions p ∨
      t.deletions p = s.deletions p ∧ t.Attached x p := by
  obtain ⟨hfree, hheld⟩ := h.finished_free hfin
  have hready (y : SchedId) : p ∉ s.isReady y := List.count_eq_zero.mp (hfree (.ready y))
  have hact : (s.thread x).active = some p ∨ (s.thread x).ending = some p := by
    rcases hp with (hp | hp) | hp
    · exact .inl hp
    · exact absurd hp (hheld x)
    · exact .inr hp
  rcases step_deletions ht p with hsame | ⟨y, hgrow, hlim | hr | ⟨q, ⟨hy, -⟩ | ⟨-, hy, -⟩⟩⟩
  · refine .inr ⟨hsame, ?_⟩
    by_cases hx : l.actor = some x
    · refine attached_own_step ht hx hfin hact hready (fun hrun => hheld x ?_) hsame
      rw [hrun]
      rfl
    · rwa [Pool.Attached, Pool.Dispatched, step_thread_of_ne ht hx]
  · exact absurd hlim (List.count_eq_zero.mp (hfree (.limbo .rib)))
  · exact absurd hr (hready .rib)
  · rw [hone y (.inr (by simp [hy, Thread.ending]))] at hgrow
    exact .inl hgrow
  · rw [hone y (.inl (.inl (by simp [hy, Thread.active])))] at hgrow
    exact .inl hgrow

/-- A finished task stays finished. -/
theorem step_status (h : Owned s) (ht : Step s l t) (hfin : (s.heap p).status = .finished)
    (hlt : p < s.fresh) : (t.heap p).status = .finished := by
  obtain ⟨hfree, hheld⟩ := h.finished_free hfin
  have hready (y : SchedId) : p ∉ s.isReady y := List.count_eq_zero.mp (hfree (.ready y))
  have hlimbo (y : SchedId) : p ∉ (s.thread y).limbo := List.count_eq_zero.mp (hfree (.limbo y))
  cases ht with
  | @pop i a q ls hth hr =>
    have hne : p ≠ q := fun hpq => hready (.thief i) (by simp [hr, hpq])
    simpa [Heap.modify_of_ne _ _ hne] using hfin
  | @stealIn i a got hth =>
    have hnot : p ∉ got := fun hmem => hlimbo (.thief i) (by simpa [hth, Thread.limbo] using hmem)
    simpa [hnot] using hfin
  | @giveTo i a q ls hth =>
    have hne : p ≠ q := fun hpq => hlimbo .rib (by simp [hth, Thread.limbo, hpq])
    simpa [Heap.modify_of_ne _ _ hne] using hfin
  | endSet =>
    rw [Pool.setThread_heap, Pool.write_heap, Heap.modify_field (·.status)]
    · exact hfin
    · intro o
      split <;> rfl
  | finish =>
    simp only [Pool.setThread_heap, Pool.write_heap, Heap.modify_apply]
    split
    · rfl
    · exact hfin
  | @yield x q hth =>
    have hne : p ≠ q := fun hpq => hheld x (by rw [hth, hpq]; rfl)
    simpa [Heap.modify_of_ne _ _ hne] using hfin
  | @wakePush q y hq =>
    have hne : p ≠ q := fun hpq => List.count_eq_zero.mp (hfree (.waking y)) (hpq ▸ hq)
    simpa [Heap.modify_of_ne _ _ hne] using hfin
  | create | createFor =>
    simpa [Pool.alloc, Heap.modify_of_ne _ _ (Nat.ne_of_lt hlt)] using hfin
  | _ => simpa using hfin

end Steps

end JamSched.Steal
