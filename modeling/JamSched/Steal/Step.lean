import JamSched.Steal.Pool

/-!
# The steps of the threads, case by case

What a step of any thread can do, as one inductive relation: every rule gives the guard and the
state afterwards. The invariants of the pool are proved by cases over these rules. The lemmas
at the end say what entering a context, returning from `GetNextTask`, and linking a task leave
unchanged.
-/
namespace JamSched.Steal

/-- The steps with their guards and their effects, one rule for each way to take one. -/
inductive Step (s : Pool) : Label → Pool → Prop where
  | next {x} (hx : s.isThread x = true) (hth : s.thread x = .loop) :
    Step s (.next x) (s.setThread x (.next none))
  | pop {i a p l} (hth : s.thread (.thief i) = .next a) (hr : s.isReady (.thief i) = p :: l) :
    Step s (.pop i) ((((s.setReady (.thief i) l).subSize i 1).write p
      ({ · with isStealable := false, status := .running })).returns (.thief i) a (some p))
  | quit {x a} (hth : s.thread x = .next a) : Step s (.quit x) (s.returns x a none)
  | stealOut {i j a} (hth : s.thread (.thief i) = .next a) (hij : i ≠ j) (hi : i < s.nThiefs)
      (hj : j < s.nThiefs) :
    Step s (.stealOut i j) ((((s.setReady (.thief j) (s.loot j).1).subSize j
      (s.loot j).2.length).addSize i (s.loot j).2.length).setThread (.thief i)
        (.steal a (s.loot j).2))
  | stealIn {i a got} (hth : s.thread (.thief i) = .steal a got) :
    Step s (.stealIn i) ((({ s with heap := fun p =>
      if p ∈ got then (s.heap p).steal (.thief i) else s.heap p }.setReady (.thief i)
        (got.reverse ++ s.isReady (.thief i))).addSize i got.length).setThread (.thief i) (.next a))
  | pick {a p} (hth : s.thread .rib = .next a) (hp : p ∈ s.isReady .rib)
      (ha : ∀ b ∈ a, (s.heap b).taskType ≠ .interactive) :
    Step s (.pick p) ((s.setReady .rib ((s.isReady .rib).erase p)).returns .rib a (some p))
  | collect {a l} (hth : s.thread .rib = .next a) (hn : 0 < s.nThiefs) (hl : l.Nodup)
      (ha : ∀ b ∈ a, (s.heap b).taskType ≠ .interactive)
      (hall : ∀ p ∈ l, p ∈ s.isReady .rib ∧ (s.heap p).taskType = .interactive ∧
        (s.heap p).isStealable = true ∧ (s.heap p).stack.canSteal = true) :
    Step s (.collect l)
      ((s.setReady .rib ((s.isReady .rib).filter (· ∉ l))).setThread .rib (.handOver a l))
  | giveTo {i a p l} (hth : s.thread .rib = .handOver a (p :: l)) (hi : i < s.nThiefs) :
    Step s (.give (some i)) (((s.write p (·.steal (.thief i))).enable (.thief i) true p).setThread
      .rib (.handOver a l))
  | giveUp {a p l} (hth : s.thread .rib = .handOver a (p :: l)) :
    Step s (.give none) ((s.delete .rib p).setThread .rib (.handOver a l))
  | given {i a} (hth : s.thread .rib = .handOver a []) :
    Step s (.give i) (s.setThread .rib (.next a))
  | cancel {a p} (hth : s.thread .rib = .next a) (hp : p ∈ s.isReady .rib)
      (hty : (s.heap p).taskType = .interactive)
      (ha : ∀ b ∈ a, (s.heap b).taskType ≠ .interactive) : Step s (.cancel p) (s.delete .rib p)
  | start {x q} (hth : s.thread x = .switch none q) : Step s (.swap x) (s.enter x q)
  | swap {x a q} (hth : s.thread x = .switch (some a) q) :
    Step s (.swap x) (s.setThread x (.endSet a q))
  | endDelete {x a q} (hth : s.thread x = .endSet a q) (hx : (s.heap a).scheduler = .rib)
      (ha : (s.heap a).taskType = .realTime ∨ (s.heap a).status = .finished) :
    Step s (.endSet x) ((s.delete x a).enter x q)
  | endKeep {x a q} (hth : s.thread x = .endSet a q) (hx : (s.heap a).scheduler = .rib)
      (ha : ¬ ((s.heap a).taskType = .realTime ∨ (s.heap a).status = .finished)) :
    Step s (.endSet x) (s.enter x q)
  | endSet {x a q i} (hth : s.thread x = .endSet a q) (hx : (s.heap a).scheduler = .thief i) :
    Step s (.endSet x) ((s.write a fun t =>
      if t.stack.canSteal then { t with isStealable := true } else t).setThread x (.endTest a q))
  | testDelete {x a q} (hth : s.thread x = .endTest a q) (ha : (s.heap a).status = .finished) :
    Step s (.endTest x) ((s.delete x a).enter x q)
  | testKeep {x a q} (hth : s.thread x = .endTest a q) (ha : (s.heap a).status ≠ .finished) :
    Step s (.endTest x) (s.enter x q)
  | yield {x p} (hth : s.thread x = .run p) (hp : (s.heap p).status ≠ .finished) :
    Step s (.yield x) ((s.enable (s.heap p).scheduler false p).setThread x (.next (some p)))
  | block {x p} (hth : s.thread x = .run p) :
    Step s (.block x) ({ s with blocked := p :: s.blocked }.setThread x (.next (some p)))
  | finish {x p} (hth : s.thread x = .run p) :
    Step s (.finish x) ({ s.write p ({ · with status := .finished, notified := true }) with
      finishedOn := Function.update s.finishedOn p (some x) }.setThread x (.next (some p)))
  | wakeRead {p} (hp : p ∈ s.blocked) :
    Step s (.wakeRead p) { s with
      blocked := s.blocked.erase p, waking := (p, (s.heap p).scheduler) :: s.waking }
  | wakePush {p x} (hp : (p, x) ∈ s.waking) :
    Step s (.wakePush p x) ({ s with waking := s.waking.erase (p, x) }.enable x true p)
  | create {ty stack canSteal} (hty : ¬ (ty = .batch ∧ canSteal = true)) :
    Step s (.create ty stack canSteal)
      ((s.alloc { taskType := ty, stack, isStealable := canSteal && decide (ty = .interactive) }
        !(canSteal && decide (ty = .interactive))).push .rib false s.fresh)
  | createFor {i stack front} (hi : i < s.nThiefs) :
    Step s (.createFor i stack front)
      ((s.alloc { taskType := .batch, stack, scheduler := .thief i } false).push (.thief i) front
        s.fresh)

theorem step_cases {s t : Pool} {l : Label} (h : step s l = some t) : Step s l t := by
  cases l with
  | next x =>
    simp only [step] at h
    split at h
    · rename_i hc
      cases h
      exact .next hc.1 hc.2
    · cases h
  | pop i =>
    simp only [step, Pool.pop] at h
    split at h
    · rename_i hth hr
      cases h
      exact .pop hth hr
    · cases h
  | quit x =>
    simp only [step] at h
    split at h
    · rename_i hth
      cases h
      exact .quit hth
    · cases h
  | stealOut i j =>
    simp only [step, Pool.stealOut] at h
    split at h
    · rename_i hth
      split at h
      · rename_i hc
        cases h
        exact .stealOut hth hc.1 hc.2.1 hc.2.2
      · cases h
    · cases h
  | stealIn i =>
    simp only [step, Pool.stealIn] at h
    split at h
    · rename_i hth
      cases h
      exact .stealIn hth
    · cases h
  | pick p =>
    simp only [step, Pool.pick] at h
    split at h
    · rename_i hth
      split at h
      · rename_i hc
        cases h
        exact .pick hth hc.1 hc.2
      · cases h
    · cases h
  | collect l =>
    simp only [step, Pool.collect] at h
    split at h
    · rename_i hth
      split at h
      · rename_i hc
        cases h
        exact .collect hth hc.1 hc.2.1 hc.2.2.1 hc.2.2.2
      · cases h
    · cases h
  | give i =>
    simp only [step, Pool.give] at h
    split at h
    · rename_i hth
      cases i with
      | some i =>
        simp only at h
        split at h
        · rename_i hc
          cases h
          exact .giveTo hth hc
        · cases h
      | none =>
        cases h
        exact .giveUp hth
    · rename_i hth
      cases h
      exact .given hth
    · cases h
  | cancel p =>
    simp only [step, Pool.cancel] at h
    split at h
    · rename_i hth
      split at h
      · rename_i hc
        cases h
        exact .cancel hth hc.1 hc.2.1 hc.2.2
      · cases h
    · cases h
  | swap x =>
    simp only [step, Pool.swap] at h
    split at h
    · rename_i hth
      cases h
      exact .start hth
    · rename_i hth
      cases h
      exact .swap hth
    · cases h
  | endSet x =>
    simp only [step, Pool.endSet] at h
    split at h
    · rename_i hth
      split at h
      · rename_i hx
        split at h
        · rename_i ha
          cases h
          exact .endDelete hth hx ha
        · rename_i ha
          cases h
          exact .endKeep hth hx ha
      · rename_i hx
        cases h
        exact .endSet hth hx
    · cases h
  | endTest x =>
    simp only [step, Pool.endTest] at h
    split at h
    · rename_i hth
      injection h with h
      subst h
      split
      · rename_i ha
        exact .testDelete hth ha
      · rename_i ha
        exact .testKeep hth ha
    · cases h
  | yield x =>
    simp only [step] at h
    split at h
    · rename_i hth
      split at h
      · rename_i hc
        cases h
        exact .yield hth hc
      · cases h
    · cases h
  | block x =>
    simp only [step] at h
    split at h
    · rename_i hth
      cases h
      exact .block hth
    · cases h
  | finish x =>
    simp only [step] at h
    split at h
    · rename_i hth
      cases h
      exact .finish hth
    · cases h
  | wakeRead p =>
    simp only [step] at h
    split at h
    · rename_i hc
      cases h
      exact .wakeRead hc
    · cases h
  | wakePush p x =>
    simp only [step] at h
    split at h
    · rename_i hc
      cases h
      exact .wakePush hc
    · cases h
  | create ty stack canSteal =>
    simp only [step, Pool.create] at h
    split at h
    · cases h
    · rename_i hc
      cases h
      exact .create hc
  | createFor i stack front =>
    simp only [step, Pool.createFor] at h
    split at h
    · rename_i hc
      cases h
      exact .createFor hc
    · cases h

section Fields

variable (s : Pool) (x : SchedId) (p : Ptr) (a q : Option Ptr) (front : Bool)

@[simp] theorem enter_isReady : (s.enter x q).isReady = s.isReady := by
  cases q <;> rfl

@[simp] theorem returns_isReady : (s.returns x a q).isReady = s.isReady := by
  unfold Pool.returns
  split
  · exact enter_isReady s x q
  · rfl

@[simp] theorem enter_sizeOfQueue : (s.enter x q).sizeOfQueue = s.sizeOfQueue := by
  cases q <;> rfl

@[simp] theorem returns_sizeOfQueue : (s.returns x a q).sizeOfQueue = s.sizeOfQueue := by
  unfold Pool.returns
  split
  · exact enter_sizeOfQueue s x q
  · rfl

@[simp] theorem enter_heap : (s.enter x q).heap = s.heap := by
  cases q <;> rfl

@[simp] theorem returns_heap : (s.returns x a q).heap = s.heap := by
  unfold Pool.returns
  split
  · exact enter_heap s x q
  · rfl

@[simp] theorem push_heap : (s.push x front p).heap = s.heap := by
  cases x <;> rfl

@[simp] theorem push_thread : (s.push x front p).thread = s.thread := by
  cases x <;> rfl

@[simp] theorem push_executed : (s.push x front p).executed = s.executed := by
  cases x <;> rfl

@[simp] theorem enable_thread : (s.enable x front p).thread = s.thread := by
  unfold Pool.enable
  split
  · rfl
  · exact push_thread s x p front

@[simp] theorem enable_executed : (s.enable x front p).executed = s.executed := by
  unfold Pool.enable
  split
  · rfl
  · exact push_executed s x p front

@[simp] theorem enter_deleted : (s.enter x q).deleted = s.deleted := by
  cases q <;> rfl

@[simp] theorem returns_deleted : (s.returns x a q).deleted = s.deleted := by
  unfold Pool.returns
  split
  · exact enter_deleted s x q
  · rfl

@[simp] theorem push_deleted : (s.push x front p).deleted = s.deleted := by
  cases x <;> rfl

@[simp] theorem enable_deleted : (s.enable x front p).deleted = s.deleted := by
  unfold Pool.enable
  split
  · rfl
  · exact push_deleted s x p front

@[simp] theorem enter_finishedOn : (s.enter x q).finishedOn = s.finishedOn := by
  cases q <;> rfl

@[simp] theorem returns_finishedOn : (s.returns x a q).finishedOn = s.finishedOn := by
  unfold Pool.returns
  split
  · exact enter_finishedOn s x q
  · rfl

@[simp] theorem push_finishedOn : (s.push x front p).finishedOn = s.finishedOn := by
  cases x <;> rfl

@[simp] theorem enable_finishedOn : (s.enable x front p).finishedOn = s.finishedOn := by
  unfold Pool.enable
  split
  · rfl
  · exact push_finishedOn s x p front

@[simp] theorem enter_fresh : (s.enter x q).fresh = s.fresh := by
  cases q <;> rfl

@[simp] theorem returns_fresh : (s.returns x a q).fresh = s.fresh := by
  unfold Pool.returns
  split
  · exact enter_fresh s x q
  · rfl

@[simp] theorem push_fresh : (s.push x front p).fresh = s.fresh := by
  cases x <;> rfl

@[simp] theorem enable_fresh : (s.enable x front p).fresh = s.fresh := by
  unfold Pool.enable
  split
  · rfl
  · exact push_fresh s x p front

@[simp] theorem enable_heap : (s.enable x front p).heap =
    s.heap.modify p ({ · with status := .ready }) := by
  unfold Pool.enable
  split
  · rfl
  · cases x <;> rfl

theorem push_isReady : (s.push x front p).isReady =
    Function.update s.isReady x (if front then p :: s.isReady x else s.isReady x ++ [p]) := by
  cases x <;> rfl

theorem subset_push_isReady (y : SchedId) : s.isReady y ⊆ (s.push x front p).isReady y := by
  rw [push_isReady, Function.update_apply]
  split
  · rename_i hy
    subst hy
    split
    · exact List.subset_cons_self _ _
    · exact List.subset_append_left _ _
  · exact List.Subset.refl _

theorem subset_enable_isReady (y : SchedId) : s.isReady y ⊆ (s.enable x front p).isReady y := by
  unfold Pool.enable
  split
  · exact List.Subset.refl _
  · exact subset_push_isReady s x p front y

theorem subset_enter_executed : s.executed ⊆ (s.enter x q).executed := by
  cases q with
  | none => exact List.Subset.refl _
  | some q => exact List.subset_cons_self _ _

theorem subset_returns_executed : s.executed ⊆ (s.returns x a q).executed := by
  unfold Pool.returns
  split
  · exact subset_enter_executed s x q
  · exact List.Subset.refl _

end Fields

end JamSched.Steal
