import JamSched.Sync.Primitives
import Mathlib.Tactic.Common

/-!
# The locks taken by a cancellation

`GetAnInteractiveBatchTask` calls `onCancel` and `notifier->Notify()` of a cancelled task
while it holds `qMutex`. Both end in `ConditionVariableAny::notify_all`, which passes every
waiting task to `EnableImmediately` of the scheduler that owns it, and that call takes the
scheduler's `qMutex`. The functions below return, in order, every lock the calling thread
tries to take on the way.
-/
namespace JamSched.Rib

inductive Lock where
  | qMutex (s : SchedId)
  /-- `Notifier::m`, or `shared_state_base::mutex_`. -/
  | objectMutex (addr : Nat)
  /-- `ConditionVariableAny::wListLock`. -/
  | wListLock (addr : Nat)
  deriving DecidableEq, Repr

structure Waiter where
  task : Ptr
  scheduler : SchedId
  cvStatus : CvStatus
  deriving DecidableEq, Repr

/-- A `Notifier`, or the shared state of a future: one spin mutex and one condition
variable, named by one address. -/
structure Waitable where
  addr : Nat
  waitList : List Waiter
  deriving DecidableEq, Repr

/-- What the calling thread brings along: the scheduler of `Active()`, if that is a task
which has not finished, and how often each spin mutex is found taken. -/
structure Caller where
  active : Option SchedId
  spins : Lock → Nat

/-- `SpinMutex::lock`: every `Yield` begins with `Enable` of the active task. -/
def spinMutexLock (c : Caller) (l : Lock) : List Lock :=
  match c.active with
  | some s => List.replicate (spinYields (c.spins l) 1) (.qMutex s) ++ [l]
  | none => [l]

/-- `ConditionVariableAny::notify_all`. -/
def notifyAll (c : Caller) (w : Waitable) : List Lock :=
  spinMutexLock c (.wListLock w.addr) ++
    w.waitList.flatMap fun x =>
      if (x.cvStatus.notify w.addr).2 then [.qMutex x.scheduler] else []

/-- `Notifier::Notify`, and `shared_state_base::set_exception` of an unsatisfied future. -/
def notify (c : Caller) (w : Waitable) : List Lock :=
  spinMutexLock c (.objectMutex w.addr) ++ notifyAll c w

/-- One turn of the cancelling loop: `onCancel()` completes `futures`, then
`notifier->Notify()`. -/
def cancelLocks (c : Caller) (futures : List Waitable) (notifier : Waitable) : List Lock :=
  futures.flatMap (notify c) ++ notify c notifier

/-- The task is passed to `EnableImmediately` of the main scheduler. -/
def Waiter.EntersRib (addr : Nat) (x : Waiter) : Prop :=
  x.scheduler = .rib ∧ (x.cvStatus = .cv addr ∨ x.cvStatus = .zero)

/-- One of the two spin mutexes of `w` makes the calling thread yield to the main scheduler. -/
def Caller.YieldsAt (c : Caller) (w : Waitable) : Prop :=
  c.active = some .rib ∧ (20 ≤ c.spins (.objectMutex w.addr) ∨ 20 ≤ c.spins (.wListLock w.addr))

theorem qMutex_mem_spinMutexLock (c : Caller) (l : Lock) (hl : l ≠ .qMutex .rib) :
    .qMutex .rib ∈ spinMutexLock c l ↔ c.active = some .rib ∧ 20 ≤ c.spins l := by
  unfold spinMutexLock
  cases hc : c.active with
  | none => simpa using hl.symm
  | some s =>
    have hpos := spinYields_pos (c.spins l)
    simp only [List.mem_append, List.mem_replicate, List.mem_singleton, hl.symm, or_false,
      Option.some.injEq, Lock.qMutex.injEq]
    constructor
    · rintro ⟨hn, rfl⟩
      exact ⟨rfl, hpos.mp (by omega)⟩
    · rintro ⟨rfl, hn⟩
      exact ⟨by have := hpos.mpr hn; omega, rfl⟩

theorem qMutex_mem_notify (c : Caller) (w : Waitable) :
    .qMutex .rib ∈ notify c w ↔ c.YieldsAt w ∨ ∃ x ∈ w.waitList, x.EntersRib w.addr := by
  have hwaiters : .qMutex .rib ∈ (w.waitList.flatMap fun x =>
      if (x.cvStatus.notify w.addr).2 then [Lock.qMutex x.scheduler] else []) ↔
      ∃ x ∈ w.waitList, x.EntersRib w.addr := by
    simp only [List.mem_flatMap, Waiter.EntersRib, ← CvStatus.notify_enables]
    refine exists_congr fun x => and_congr_right fun _ => ?_
    split
    · rename_i hen
      simp only [List.mem_singleton, Lock.qMutex.injEq, hen, and_true]
      exact eq_comm
    · rename_i hen
      simp [hen]
  simp only [notify, notifyAll, List.mem_append, hwaiters,
    qMutex_mem_spinMutexLock c (.objectMutex w.addr) (by simp),
    qMutex_mem_spinMutexLock c (.wListLock w.addr) (by simp), Caller.YieldsAt]
  grind

theorem qMutex_mem_cancelLocks (c : Caller) (futures : List Waitable) (notifier : Waitable) :
    .qMutex .rib ∈ cancelLocks c futures notifier ↔
      ∃ w ∈ notifier :: futures, c.YieldsAt w ∨ ∃ x ∈ w.waitList, x.EntersRib w.addr := by
  simp only [cancelLocks, List.mem_append, List.mem_flatMap, qMutex_mem_notify,
    List.mem_cons, exists_eq_or_imp]
  exact or_comm

end JamSched.Rib
