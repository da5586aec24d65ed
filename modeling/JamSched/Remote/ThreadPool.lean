import JamSched.Machine.Run
import Mathlib.Data.List.FinRange
import Mathlib.Data.List.Perm.Basic
import Mathlib.Logic.Function.Basic

/-!
# ThreadPool

The workers of a pool, the threads that enqueue and the one that destroys the pool. What a thread
does while it has `queue_mutex` is one step; `notify_one` comes after `enqueue` has released the
mutex, so other threads can get in between. `condition` may wake a worker for no reason, and
`notify_one` any worker that waits. A task that throws ends the process, so every task that ends
here has returned.

No notification is lost: as long as there is a task, some worker is on its way to the queue, or
somebody is still about to notify.
-/
namespace JamSched.ThreadPool

open Machine

variable {n : Nat} {Task : Type}

inductive Worker (Task : Type) where
  /-- In front of the mutex and of the test of `condition.wait`. -/
  | testing
  /-- Blocked in `condition.wait`. -/
  | waiting
  | running (task : Task)
  | returned
  deriving DecidableEq, Repr

/-- The task that the worker has taken. -/
def Worker.task : Worker Task → Option Task
  | .running task => some task
  | .testing | .waiting | .returned => none

def Worker.isWaiting : Worker Task → Bool
  | .waiting => true
  | .testing | .running _ | .returned => false

/-- What a notification does to a worker. -/
def Worker.wake : Worker Task → Worker Task
  | .waiting => .testing
  | w => w

/-- Where `~ThreadPool` stands. -/
inductive Destructor where
  | uncalled
  /-- `stop` is set, `notify_all` comes next. -/
  | stopped
  /-- At the worker to be joined next. -/
  | joining (i : Nat)
  deriving DecidableEq, Repr

structure Pool (n : Nat) (Task : Type) where
  workers : Fin n → Worker Task := fun _ => .testing
  tasks : List Task := []
  stop : Bool := false
  /-- Calls of `enqueue` in front of their `notify_one`. -/
  notifies : Nat := 0
  destructor : Destructor := .uncalled
  /-- History: the tasks that `enqueue` has taken, that a worker has taken, that have returned. -/
  enqueued : List Task := []
  started : List Task := []
  finished : List Task := []

inductive Label (n : Nat) (Task : Type) where
  | enqueue (f : Task)
  /-- The worker that wakes up, or none if nobody waits. -/
  | notifyOne (woken : Option (Fin n))
  /-- A worker has the mutex, tests and takes a task. -/
  | test (i : Fin n)
  | spurious (i : Fin n)
  /-- The task of the worker returns. -/
  | finish (i : Fin n)
  | stop
  | notifyAll
  | join
  /-- Something else in the process. -/
  | elsewhere
  deriving DecidableEq, Repr

namespace Pool

variable (s : Pool n Task)

def setWorker (i : Fin n) (w : Worker Task) : Pool n Task :=
  { s with workers := Function.update s.workers i w }

/-- `enqueue` up to the end of its block. -/
def enqueue (f : Task) : Except String (Pool n Task) :=
  if s.stop then throw "enqueue on stopped ThreadPool"
  else return { s with
    tasks := s.tasks ++ [f]
    enqueued := s.enqueued ++ [f]
    notifies := s.notifies + 1 }

def notifyOne : Option (Fin n) → Option (Pool n Task)
  | some i =>
    if 0 < s.notifies ∧ (s.workers i).isWaiting then
      some ({ s with notifies := s.notifies - 1 }.setWorker i .testing)
    else none
  | none =>
    if 0 < s.notifies ∧ ∀ i ∈ List.finRange n, (s.workers i).isWaiting = false then
      some { s with notifies := s.notifies - 1 }
    else none

/-- The block of a worker with the mutex, from the test in `condition.wait` on. -/
def test (i : Fin n) : Option (Pool n Task) :=
  match s.workers i, s.tasks with
  | .testing, [] => some (s.setWorker i (if s.stop then .returned else .waiting))
  | .testing, task :: tasks =>
    some ({ s with tasks, started := s.started ++ [task] }.setWorker i (.running task))
  | _, _ => none

def finish (i : Fin n) : Option (Pool n Task) :=
  match s.workers i with
  | .running task => some ({ s with finished := s.finished ++ [task] }.setWorker i .testing)
  | _ => none

/-- The next `worker.join()`. -/
def join : Option (Pool n Task) :=
  match s.destructor with
  | .joining i =>
    if h : i < n then
      match s.workers ⟨i, h⟩ with
      | .returned => some { s with destructor := .joining (i + 1) }
      | _ => none
    else none
  | _ => none

/-- The tasks that workers are in. -/
def running : List Task := (List.finRange n).filterMap fun i => (s.workers i).task

end Pool

def step (s : Pool n Task) : Label n Task → Option (Pool n Task)
  | .enqueue f =>
    match s.enqueue f with
    | .ok t => some t
    | .error _ => some s
  | .notifyOne woken => s.notifyOne woken
  | .test i => s.test i
  | .spurious i => if (s.workers i).isWaiting then some (s.setWorker i .testing) else none
  | .finish i => s.finish i
  | .stop =>
    if s.destructor = .uncalled then some { s with stop := true, destructor := .stopped } else none
  | .notifyAll =>
    if s.destructor = .stopped then
      some { s with workers := fun i => (s.workers i).wake, destructor := .joining 0 }
    else none
  | .join => s.join
  | .elsewhere => some s

/-! ## Every task once -/

variable {s t : Pool n Task} {i j : Fin n} {w : Worker Task} {l : Label n Task}

namespace Pool

@[simp, grind =] theorem workers_setWorker :
    (s.setWorker i w).workers j = if j = i then w else s.workers j :=
  Function.update_apply ..

@[simp, grind =] theorem tasks_setWorker : (s.setWorker i w).tasks = s.tasks := rfl

@[simp, grind =] theorem stop_setWorker : (s.setWorker i w).stop = s.stop := rfl

@[simp, grind =] theorem notifies_setWorker : (s.setWorker i w).notifies = s.notifies := rfl

@[simp, grind =] theorem destructor_setWorker : (s.setWorker i w).destructor = s.destructor := rfl

@[simp, grind =] theorem enqueued_setWorker : (s.setWorker i w).enqueued = s.enqueued := rfl

@[simp, grind =] theorem started_setWorker : (s.setWorker i w).started = s.started := rfl

@[simp, grind =] theorem finished_setWorker : (s.setWorker i w).finished = s.finished := rfl

/-- The tasks of the other workers. -/
def others (s : Pool n Task) (i : Fin n) : List Task :=
  ((List.finRange n).erase i).filterMap fun j => (s.workers j).task

theorem running_perm (s : Pool n Task) (i : Fin n) :
    s.running.Perm ((s.workers i).task.toList ++ s.others i) := by
  have hperm := (List.perm_cons_erase (List.mem_finRange i)).filterMap fun j => (s.workers j).task
  rw [List.filterMap_cons] at hperm
  unfold running others
  cases htask : (s.workers i).task <;> simpa [htask] using hperm

@[simp] theorem others_setWorker : (s.setWorker i w).others i = s.others i := by
  refine List.filterMap_congr fun j hj => ?_
  have hne : j ≠ i := ((List.nodup_finRange n).mem_erase_iff.mp hj).1
  simp [hne]

/-- One worker changes what it runs. -/
theorem running_setWorker (s : Pool n Task) (i : Fin n) (w : Worker Task) :
    (s.setWorker i w).running.Perm (w.task.toList ++ s.others i) := by
  simpa using (s.setWorker i w).running_perm i

/-- A worker moves on, and runs what it ran. -/
theorem running_move (hw : w.task = (s.workers i).task) :
    s.running.Perm (s.setWorker i w).running := by
  have hset := s.running_setWorker i w
  rw [hw] at hset
  exact (s.running_perm i).trans hset.symm

theorem running_congr (h : ∀ i, (t.workers i).task = (s.workers i).task) :
    t.running = s.running :=
  List.filterMap_congr fun i _ => h i

end Pool

@[simp] theorem Worker.task_wake : w.wake.task = w.task := by cases w <;> rfl

theorem Worker.isWaiting_iff : w.isWaiting = true ↔ w = .waiting := by
  cases w <;> simp [Worker.isWaiting]

/-- The worker comes to the queue again without anybody's help. -/
def Worker.isAwake : Worker Task → Bool
  | .testing | .running _ => true
  | .waiting | .returned => false

structure Inv (s : Pool n Task) : Prop where
  order : s.enqueued = s.started ++ s.tasks
  once : s.started.Perm (s.finished ++ s.running)
  stop : s.stop = true ↔ s.destructor ≠ .uncalled
  returned : ∀ i, s.workers i = .returned → s.stop = true ∧ s.tasks = []
  /-- No notification is lost. -/
  awake : s.tasks ≠ [] → (∃ i, (s.workers i).isAwake = true) ∨ n = 0 ∨ 0 < s.notifies ∨
    s.destructor = .stopped
  joining : ∀ k, s.destructor = .joining k → k ≤ n ∧ ∀ i : Fin n, s.workers i ≠ .waiting ∧
    (i < k → s.workers i = .returned)

theorem inv_initial : Inv ({} : Pool n Task) := by
  constructor <;> simp [Pool.running, Worker.task]

/-- A pool that was stopped takes no task. -/
theorem step_enqueue {f : Task} (ht : step s (.enqueue f) = some t) :
    s.stop = true ∧ t = s ∨ s.stop = false ∧ t = { s with
      tasks := s.tasks ++ [f], enqueued := s.enqueued ++ [f], notifies := s.notifies + 1 } := by
  simp only [step, Pool.enqueue] at ht
  by_cases hstop : s.stop = true
  · simp only [hstop, if_true, throw, throwThe, MonadExceptOf.throw] at ht
    cases ht
    exact .inl ⟨hstop, rfl⟩
  · rw [if_neg hstop] at ht
    cases ht
    exact .inr ⟨Bool.eq_false_of_not_eq_true hstop, rfl⟩

theorem Inv.enqueue (h : Inv s) {f : Task} (ht : step s (.enqueue f) = some t) : Inv t := by
  obtain ⟨-, rfl⟩ | ⟨hstop, rfl⟩ := step_enqueue ht
  · exact h
  · have hlive (i : Fin n) : s.workers i ≠ .returned := fun hi => by
      simp [(h.returned i hi).1] at hstop
    constructor
    · show s.enqueued ++ [f] = s.started ++ (s.tasks ++ [f])
      rw [h.order, List.append_assoc]
    · exact h.once
    · exact h.stop
    · exact fun i hi => absurd hi (hlive i)
    · exact fun _ => .inr (.inr (.inl (Nat.succ_pos _)))
    · exact h.joining

theorem Inv.returned_setWorker (h : Inv s) (hw : w ≠ .returned)
    (hj : (s.setWorker i w).workers j = .returned) : s.stop = true ∧ s.tasks = [] := by
  rw [Pool.workers_setWorker] at hj
  split at hj
  · exact absurd hj hw
  · exact h.returned j hj

/-- The worker that moves on is not one of the joined ones. -/
theorem Inv.joining_setWorker (h : Inv s) (hi : s.workers i ≠ .returned) (hw : w ≠ .waiting)
    {k : Nat} (hk : s.destructor = .joining k) (j : Fin n) :
    (s.setWorker i w).workers j ≠ .waiting ∧
      (j < k → (s.setWorker i w).workers j = .returned) := by
  have hjoining := (h.joining k hk).2 j
  rw [Pool.workers_setWorker]
  split
  · next hji =>
    subst hji
    exact ⟨hw, fun hlt => absurd (hjoining.2 hlt) hi⟩
  · exact hjoining

/-- A worker that waits is woken up. -/
theorem Inv.wake (h : Inv s) (hi : s.workers i = .waiting) : Inv (s.setWorker i .testing) where
  order := h.order
  once := h.once.trans ((Pool.running_move (by rw [hi]; rfl)).append_left _)
  stop := h.stop
  returned _ hj := h.returned_setWorker (by simp) hj
  awake _ := .inl ⟨i, by simp [Worker.isAwake]⟩
  joining k hk := absurd hi ((h.joining k hk).2 i).1

/-- Where nobody waits a notification has no effect. -/
theorem Inv.notifyNone (h : Inv s) (hnone : ∀ i, (s.workers i).isWaiting = false) :
    Inv { s with notifies := s.notifies - 1 } where
  order := h.order
  once := h.once
  stop := h.stop
  returned := h.returned
  awake htasks := by
    by_cases hn : n = 0
    · exact .inr (.inl hn)
    · have hfirst := hnone ⟨0, Nat.pos_of_ne_zero hn⟩
      have hlive := mt (h.returned ⟨0, Nat.pos_of_ne_zero hn⟩) (fun hr => htasks hr.2)
      refine .inl ⟨⟨0, Nat.pos_of_ne_zero hn⟩, ?_⟩
      show (s.workers _).isAwake = true
      revert hfirst hlive
      cases s.workers ⟨0, Nat.pos_of_ne_zero hn⟩ <;> simp [Worker.isWaiting, Worker.isAwake]
  joining := h.joining

theorem Inv.notifyOne (h : Inv s) {woken : Option (Fin n)} (ht : s.notifyOne woken = some t) :
    Inv t := by
  cases woken with
  | some i =>
    simp only [Pool.notifyOne, Option.ite_none_right_eq_some, Option.some.injEq] at ht
    obtain ⟨⟨-, hi⟩, rfl⟩ := ht
    have hwoken := h.wake (Worker.isWaiting_iff.mp hi)
    exact { hwoken with awake := fun _ => .inl ⟨i, by simp [Worker.isAwake]⟩ }
  | none =>
    simp only [Pool.notifyOne, Option.ite_none_right_eq_some, Option.some.injEq] at ht
    obtain ⟨⟨-, hnone⟩, rfl⟩ := ht
    exact h.notifyNone fun i => hnone i (List.mem_finRange i)

theorem Inv.test (h : Inv s) (ht : s.test i = some t) : Inv t := by
  unfold Pool.test at ht
  split at ht
  · next hi htasks =>
    cases ht
    constructor
    · exact h.order
    · refine h.once.trans ((Pool.running_move ?_).append_left _)
      rw [hi]
      split <;> rfl
    · exact h.stop
    · intro j hj
      rw [Pool.workers_setWorker] at hj
      split at hj
      · split at hj
        · next hstop => exact ⟨hstop, htasks⟩
        · cases hj
      · exact h.returned j hj
    · exact fun hne => absurd htasks hne
    · refine fun k hk => ⟨(h.joining k hk).1, fun j => ?_⟩
      have hstop : s.stop = true := h.stop.mpr fun hd => by simp_all
      rw [if_pos hstop]
      exact h.joining_setWorker (by simp [hi]) (by simp) hk j
  · next task tasks hi htasks =>
    cases ht
    constructor
    · show s.enqueued = s.started ++ [task] ++ tasks
      rw [h.order, htasks, List.append_assoc, List.singleton_append]
    · show (s.started ++ [task]).Perm (s.finished ++ Pool.running (Pool.setWorker _ _ _))
      have hset := Pool.running_setWorker { s with tasks, started := s.started ++ [task] } i
        (.running task)
      have hrunning := s.running_perm i
      rw [hi] at hrunning
      have honce := h.once.trans (hrunning.append_left _)
      refine (honce.append_right [task]).trans ?_
      refine .trans ?_ (hset.symm.append_left _)
      show (s.finished ++ s.others i ++ [task]).Perm (s.finished ++ task :: s.others i)
      rw [List.append_assoc]
      exact (List.perm_append_singleton task _).append_left s.finished
    · exact h.stop
    · intro j hj
      have hempty := (h.returned_setWorker (w := .running task) (by simp) hj).2
      rw [htasks] at hempty
      cases hempty
    · exact fun _ => .inl ⟨i, by simp [Worker.isAwake]⟩
    · exact fun k hk => ⟨(h.joining k hk).1, h.joining_setWorker (by simp [hi]) (by simp) hk⟩
  · cases ht

theorem Inv.finish (h : Inv s) (ht : s.finish i = some t) : Inv t := by
  unfold Pool.finish at ht
  split at ht
  · next task hi =>
    cases ht
    constructor
    · exact h.order
    · show s.started.Perm (s.finished ++ [task] ++ Pool.running (Pool.setWorker _ _ _))
      have hset := Pool.running_setWorker { s with finished := s.finished ++ [task] } i .testing
      have hrunning := s.running_perm i
      rw [hi] at hrunning
      refine (h.once.trans (hrunning.append_left _)).trans ?_
      rw [List.append_assoc]
      exact (hset.symm.append_left [task]).append_left s.finished
    · exact h.stop
    · exact fun _ hj => h.returned_setWorker (by simp) hj
    · exact fun _ => .inl ⟨i, by simp [Worker.isAwake]⟩
    · exact fun k hk => ⟨(h.joining k hk).1, h.joining_setWorker (by simp [hi]) (by simp) hk⟩
  · cases ht

theorem Inv.notifyAll (h : Inv s) (hd : s.destructor = .stopped) :
    Inv { s with workers := fun i => (s.workers i).wake, destructor := .joining 0 } where
  order := h.order
  once := by
    have hrunning : Pool.running { s with
        workers := fun i => (s.workers i).wake, destructor := .joining 0 } = s.running :=
      Pool.running_congr fun i => Worker.task_wake
    rw [hrunning]
    exact h.once
  stop := by
    have hstop := h.stop
    simp [hd] at hstop
    simp [hstop]
  returned i hi := by
    refine h.returned i ?_
    revert hi
    show (s.workers i).wake = .returned → _
    cases s.workers i <;> simp [Worker.wake]
  awake htasks := by
    by_cases hn : n = 0
    · exact .inr (.inl hn)
    · have hlive := mt (h.returned ⟨0, Nat.pos_of_ne_zero hn⟩) fun hr => htasks hr.2
      refine .inl ⟨⟨0, Nat.pos_of_ne_zero hn⟩, ?_⟩
      revert hlive
      show _ → (s.workers _).wake.isAwake = true
      cases s.workers ⟨0, Nat.pos_of_ne_zero hn⟩ <;> simp [Worker.wake, Worker.isAwake]
  joining k hk := by
    cases hk
    refine ⟨Nat.zero_le n, fun i => ⟨?_, fun hlt => absurd hlt (Nat.not_lt_zero _)⟩⟩
    show (s.workers i).wake ≠ .waiting
    cases s.workers i <;> simp [Worker.wake]

theorem Inv.join (h : Inv s) (ht : s.join = some t) : Inv t := by
  unfold Pool.join at ht
  split at ht
  · next k hk =>
    split at ht
    · next hlt =>
      split at ht
      · next hi =>
        cases ht
        have hstop := h.stop
        rw [hk] at hstop
        refine ⟨h.order, h.once, by simpa using hstop, h.returned, ?_, ?_⟩
        · exact fun htasks => absurd (h.returned _ hi).2 htasks
        · rintro _ ⟨rfl⟩
          refine ⟨hlt, fun i => ?_⟩
          have hjoining := (h.joining k hk).2 i
          refine ⟨hjoining.1, fun hle => ?_⟩
          rcases Nat.lt_succ_iff_lt_or_eq.mp hle with hik | hik
          · exact hjoining.2 hik
          · have heq : i = ⟨k, hlt⟩ := Fin.ext hik
            rw [heq]
            exact hi
      · cases ht
    · cases ht
  · cases ht

theorem Inv.step (h : Inv s) (ht : step s l = some t) : Inv t := by
  cases l with
  | enqueue f => exact h.enqueue ht
  | notifyOne woken => exact h.notifyOne ht
  | test i => exact h.test ht
  | spurious i =>
    simp only [ThreadPool.step, Option.ite_none_right_eq_some, Option.some.injEq] at ht
    obtain ⟨hi, rfl⟩ := ht
    exact h.wake (Worker.isWaiting_iff.mp hi)
  | finish i => exact h.finish ht
  | stop =>
    simp only [ThreadPool.step, Option.ite_none_right_eq_some, Option.some.injEq] at ht
    obtain ⟨hd, rfl⟩ := ht
    refine ⟨h.order, h.once, by simp, fun i hi => ?_, fun _ => .inr (.inr (.inr rfl)), by simp⟩
    exact ⟨rfl, (h.returned i hi).2⟩
  | notifyAll =>
    simp only [ThreadPool.step, Option.ite_none_right_eq_some, Option.some.injEq] at ht
    obtain ⟨hd, rfl⟩ := ht
    exact h.notifyAll hd
  | join => exact h.join ht
  | elsewhere =>
    cases ht
    exact h

theorem inv_of_run {ls : List (Label n Task)} (hr : run step {} ls = some s) : Inv s :=
  run_invariant (fun _ _ _ h ht => h.step ht) inv_initial hr

/-- A worker that has returned leaves no task to the others. -/
theorem Inv.joined (h : Inv s) (hn : 0 < n) (hd : s.destructor = .joining n) :
    s.finished.Perm s.enqueued := by
  have hreturned (i : Fin n) : s.workers i = .returned := ((h.joining n hd).2 i).2 i.isLt
  have hrunning : s.running = [] :=
    List.filterMap_eq_nil_iff.mpr fun i _ => by simp [hreturned i, Worker.task]
  have honce := h.once
  rw [hrunning, List.append_nil] at honce
  rw [h.order, (h.returned ⟨0, hn⟩ (hreturned _)).2, List.append_nil]
  exact honce.symm

/-- A step in which no task is taken and none returns. -/
structure Idle (s : Pool n Task) (l : Label n Task) (t : Pool n Task) : Prop where
  started : t.started = s.started
  finished : t.finished = s.finished
  tasks : s.tasks <+: t.tasks
  stopped : s.stop = true → t.tasks = s.tasks
  task : ∀ i, (t.workers i).task = (s.workers i).task
  worker : ∀ i, t.workers i = s.workers i ∨ s.workers i = .waiting ∧ t.workers i = .testing ∨
    l = .test i ∧ s.workers i = .testing ∧ s.tasks = []

theorem Idle.of_wake (h : s.workers i = .waiting) : Idle s l (s.setWorker i .testing) where
  started := rfl
  finished := rfl
  tasks := List.prefix_rfl
  stopped _ := rfl
  task j := by
    rw [Pool.workers_setWorker]
    split <;> simp_all [Worker.task]
  worker j := by
    rw [Pool.workers_setWorker]
    split <;> simp_all

/-- Nothing is taken and no worker moves. -/
theorem Idle.of_same (hstarted : t.started = s.started) (hfinished : t.finished = s.finished)
    (htasks : t.tasks = s.tasks) (hworkers : t.workers = s.workers) : Idle s l t where
  started := hstarted
  finished := hfinished
  tasks := htasks ▸ List.prefix_rfl
  stopped _ := htasks
  task i := by rw [hworkers]
  worker i := .inl (by rw [hworkers])

/-- A worker that finds the queue empty waits or returns. -/
theorem Idle.of_test (hi : s.workers i = .testing) (htasks : s.tasks = []) (hw : w.task = none) :
    Idle s (.test i) (s.setWorker i w) where
  started := rfl
  finished := rfl
  tasks := List.prefix_rfl
  stopped _ := rfl
  task j := by
    rw [Pool.workers_setWorker]
    split
    · next hji =>
      rw [hji, hi, hw]
      rfl
    · rfl
  worker j := by
    rw [Pool.workers_setWorker]
    split <;> simp_all

/-- What a step does to the tasks and to the workers. -/
theorem step_cases (ht : step s l = some t) :
    (∃ i task tasks, l = .test i ∧ s.workers i = .testing ∧ s.tasks = task :: tasks ∧
      t = { s with tasks, started := s.started ++ [task] }.setWorker i (.running task)) ∨
    (∃ i task, l = .finish i ∧ s.workers i = .running task ∧
      t = { s with finished := s.finished ++ [task] }.setWorker i .testing) ∨
    Idle s l t := by
  cases l with
  | enqueue f =>
    refine .inr (.inr ?_)
    obtain ⟨-, rfl⟩ | ⟨hstop, rfl⟩ := step_enqueue ht
    · exact .of_same rfl rfl rfl rfl
    · exact ⟨rfl, rfl, List.prefix_append .., fun h => by simp [h] at hstop, fun _ => rfl,
        fun _ => .inl rfl⟩
  | notifyOne woken =>
    refine .inr (.inr ?_)
    cases woken with
    | some i =>
      simp only [step, Pool.notifyOne, Option.ite_none_right_eq_some, Option.some.injEq] at ht
      obtain ⟨⟨-, hi⟩, rfl⟩ := ht
      have hwake : Idle s (.notifyOne (some i)) (s.setWorker i .testing) :=
        .of_wake (Worker.isWaiting_iff.mp hi)
      exact ⟨hwake.started, hwake.finished, hwake.tasks, hwake.stopped, hwake.task, hwake.worker⟩
    | none =>
      simp only [step, Pool.notifyOne, Option.ite_none_right_eq_some, Option.some.injEq] at ht
      obtain ⟨-, rfl⟩ := ht
      exact .of_same rfl rfl rfl rfl
  | test i =>
    simp only [step, Pool.test] at ht
    split at ht
    · next hi htasks =>
      cases ht
      refine .inr (.inr (.of_test hi htasks ?_))
      split <;> rfl
    · next task tasks hi htasks =>
      cases ht
      exact .inl ⟨i, task, tasks, rfl, hi, htasks, rfl⟩
    · cases ht
  | spurious i =>
    simp only [step, Option.ite_none_right_eq_some, Option.some.injEq] at ht
    obtain ⟨hi, rfl⟩ := ht
    exact .inr (.inr (.of_wake (Worker.isWaiting_iff.mp hi)))
  | finish i =>
    simp only [step, Pool.finish] at ht
    split at ht
    · next task hi =>
      cases ht
      exact .inr (.inl ⟨i, task, rfl, hi, rfl⟩)
    · cases ht
  | stop =>
    simp only [step, Option.ite_none_right_eq_some, Option.some.injEq] at ht
    obtain ⟨-, rfl⟩ := ht
    exact .inr (.inr (.of_same rfl rfl rfl rfl))
  | notifyAll =>
    simp only [step, Option.ite_none_right_eq_some, Option.some.injEq] at ht
    obtain ⟨-, rfl⟩ := ht
    refine .inr (.inr ⟨rfl, rfl, List.prefix_rfl, fun _ => rfl, fun i => Worker.task_wake,
      fun i => ?_⟩)
    show (s.workers i).wake = _ ∨ _ ∧ (s.workers i).wake = _ ∨ _
    cases s.workers i <;> simp [Worker.wake]
  | join =>
    simp only [step, Pool.join] at ht
    refine .inr (.inr ?_)
    repeat' split at ht
    all_goals cases ht
    exact .of_same rfl rfl rfl rfl
  | elsewhere =>
    cases ht
    exact .inr (.inr (.of_same rfl rfl rfl rfl))

/-- One worker does one task after the other. -/
theorem sequential_step {s t : Pool 1 Task} {l : Label 1 Task}
    (h : s.started = s.finished ++ s.running) (ht : step s l = some t) :
    t.started = t.finished ++ t.running := by
  have hrunning (s : Pool 1 Task) : s.running = (s.workers 0).task.toList := by
    rw [Pool.running, List.finRange_succ]
    cases htask : (s.workers 0).task <;> simp [htask]
  rw [hrunning] at h ⊢
  obtain ⟨i, task, tasks, -, hi, -, rfl⟩ | ⟨i, task, -, hi, rfl⟩ | hidle := step_cases ht
  · obtain rfl : i = 0 := Subsingleton.elim i 0
    simp_all [Worker.task]
  · obtain rfl : i = 0 := Subsingleton.elim i 0
    simp_all [Worker.task]
  · rw [hidle.started, hidle.finished, hidle.task, h]

/-- In every run the tasks are taken in the order in which they were enqueued, each once, and each
of these has either returned or is what some worker is in; a single worker does them in that order.
Once `~ThreadPool` has joined the workers, all have returned. -/
theorem tasks_run_once {ls : List (Label n Task)} (hr : run step {} ls = some s) :
    s.enqueued = s.started ++ s.tasks ∧ s.started.Perm (s.finished ++ s.running) ∧
      (n = 1 → s.started = s.finished ++ s.running) ∧
      (0 < n → s.destructor = .joining n → s.finished.Perm s.enqueued) := by
  have h := inv_of_run hr
  refine ⟨h.order, h.once, ?_, h.joined⟩
  rintro rfl
  exact run_invariant (fun _ _ _ h ht => sequential_step h ht) (by simp [Pool.running, Worker.task])
    hr

/-- The worker sleeps when the first task comes; the second is enqueued while it is in the first. -/
def poolRun : List (Label 1 Nat) :=
  [.test 0, .enqueue 5, .notifyOne (some 0), .test 0, .enqueue 6, .notifyOne none, .stop, .finish 0,
    .notifyAll, .test 0, .finish 0, .test 0, .join]

theorem poolRun_ends : ∃ s, run step {} poolRun = some s ∧
    (s.enqueued = [5, 6] ∧ s.destructor = .joining 1) ∧ s.notifies = 0 ∧ s.workers 0 = .returned :=
  run_reaches (by decide)

theorem tasks_run_once_poolRun : ∃ s, run step {} poolRun = some s ∧ s.finished.Perm [5, 6] := by
  obtain ⟨s, hr, ⟨htasks, hd⟩, -⟩ := poolRun_ends
  exact ⟨s, hr, htasks ▸ (tasks_run_once hr).2.2.2 (by decide) hd⟩

end JamSched.ThreadPool
