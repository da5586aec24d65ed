import JamSched.Sync.Primitives
import JamSched.Machine.Run

/-!
# Condition variables

One `ConditionVariableAny` with any number of tasks that wait on it, timed or not, any number of
callers of `notify_one` and `notify_all`, and the timer. A step is one atomic access: a notifier
holds `wListLock` while it pops a task, exchanges the task's `cvStatus` and enables the task,
whereas the timer exchanges `cvStatus` and enables the task under its own lock `sl`. A timed
waiter sets the timer before it releases `wListLock`, so the timer may call back first.

Two facts about this protocol are proved: the word `cvStatus` makes exactly one side wake the
task, and `waitList.remove`, with which a waiter whose time is over unlinks itself, unlinks every
waiter with the same `id`.
-/
namespace JamSched.Sync

open Machine

/-- `operator==` of `TaskInterface`. -/
def taskEq (a b : TaskInterface) : Bool := a.id == b.id

/-- `boost::intrusive::list::remove`: every element equal to the given one. -/
def remove (h : Heap) (l : List Ptr) (p : Ptr) : List Ptr := l.filter fun q => !taskEq (h q) (h p)

/-- Where a task stands in a wait on the condition variable. -/
inductive Phase where
  /-- In no wait on it. -/
  | idle
  /-- In `wait_until` with `wListLock` held, before the timer is set. -/
  | arming
  /-- The timer is set, `wListLock` not yet released. -/
  | leaving
  | asleep (timed : Bool)
  /-- Back from the timed sleep, before the clock is read. -/
  | awake
  deriving DecidableEq, Repr

/-- Who holds `wListLock`. -/
inductive Holder where
  /-- A timed waiter that has linked itself. -/
  | waiter (p : Ptr)
  /-- A notifier before its test of `waitList.empty()`; `all` tells `notify_all`. -/
  | notify (all : Bool)
  /-- A notifier that has popped `p`. -/
  | popped (all : Bool) (p : Ptr)
  /-- A notifier that calls `EnableImmediately` of `p` next. -/
  | claimed (all : Bool) (p : Ptr)
  deriving DecidableEq, Repr

structure CondVar where
  /-- The address of the condition variable. -/
  this : Nat := 0
  heap : Heap := fun _ => {}
  waitList : List Ptr := []
  wListLock : Option Holder := none
  cvStatus : Ptr → CvStatus := fun _ => .zero
  phase : Ptr → Phase := fun _ => .idle
  /-- The latest wait or sleep of the task is a `wait_until` on this condition variable. -/
  timedWait : Ptr → Bool := fun _ => false
  /-- The timer has an entry of the task. -/
  armed : Ptr → Bool := fun _ => false
  /-- The timer holds `sl` and calls `EnableImmediately` of the task next. -/
  sl : Option Ptr := none
  /-- Calls of `EnableImmediately` for the task since its last wait began. -/
  enables : Ptr → Nat := fun _ => 0
  /-- A notifier has popped the task since then. -/
  popped : Ptr → Bool := fun _ => false
  /-- `TimeoutCallback` has run for the task since then. -/
  called : Ptr → Bool := fun _ => false

inductive Label where
  /-- `wait`, up to the release of `wListLock`. -/
  | wait (p : Ptr)
  /-- `wait_until`, up to the call of `SleepUntil`. -/
  | waitUntil (p : Ptr)
  /-- `SetTimeout` links the entry of the task. -/
  | setTimeout (p : Ptr)
  /-- `iLock.unlock()` in `SetTimeout`. -/
  | unlock (p : Ptr)
  /-- `notify_one` or `notify_all` takes `wListLock`. -/
  | notify (all : Bool)
  /-- The test of `waitList.empty()` and `pop_front`. -/
  | popFront
  /-- The compare-exchange of the popped task's `cvStatus`. -/
  | compareExchange
  /-- `EnableImmediately` of the popped task. -/
  | enable
  /-- `TimeoutCallback`: the exchange. -/
  | timeoutCallback (p : Ptr)
  /-- `TimeoutCallback`: `EnableImmediately`. -/
  | timeoutEnable
  /-- An enabled task goes on; `expired` tells that its entry is in the expired queue. -/
  | resume (p : Ptr) (expired : Bool)
  /-- The end of `wait_until`; `timeout` tells that `timeoutTime <= Clock::now()`. -/
  | waitEnd (p : Ptr) (timeout : Bool)
  /-- A task outside of any wait on this condition variable waits or sleeps elsewhere. -/
  | elsewhere (p : Ptr) (w : CvStatus)
  deriving DecidableEq, Repr

namespace CondVar

variable (s : CondVar)

/-- The notifier goes on after a popped task. -/
def goOn (all : Bool) : CondVar :=
  { s with wListLock := if all then some (.notify true) else none }

/-- A wait of `p` begins with this `cvStatus`. -/
def enqueue (p : Ptr) (w : CvStatus) (timed : Bool) : CondVar :=
  { s with
    waitList := s.waitList ++ [p]
    cvStatus := Function.update s.cvStatus p w
    timedWait := Function.update s.timedWait p timed
    enables := Function.update s.enables p 0
    popped := Function.update s.popped p false
    called := Function.update s.called p false }

def setPhase (p : Ptr) (ph : Phase) : CondVar := { s with phase := Function.update s.phase p ph }

def enableImmediately (p : Ptr) : CondVar :=
  { s with enables := Function.update s.enables p (s.enables p + 1) }

end CondVar

/-- A timed wait begins with the entry of the task unlinked and no callback for it running: what
happens otherwise is the subject of the timer. -/
def step (s : CondVar) : Label → Option CondVar
  | .wait p =>
    if s.phase p = .idle ∧ s.wListLock = none ∧ p ∉ s.waitList then
      some ((s.enqueue p .zero false).setPhase p (.asleep false))
    else none
  | .waitUntil p =>
    if s.phase p = .idle ∧ s.wListLock = none ∧ p ∉ s.waitList ∧ s.armed p = false ∧
        s.sl ≠ some p then
      some ({ s.enqueue p (.cv s.this) true with
        wListLock := some (.waiter p) }.setPhase p .arming)
    else none
  | .setTimeout p =>
    if s.phase p = .arming ∧ s.sl = none then
      some ({ s with armed := Function.update s.armed p true }.setPhase p .leaving)
    else none
  | .unlock p =>
    if s.phase p = .leaving ∧ s.wListLock = some (.waiter p) then
      some ({ s with wListLock := none }.setPhase p (.asleep true))
    else none
  | .notify all =>
    if s.wListLock = none then some { s with wListLock := some (.notify all) } else none
  | .popFront => match s.wListLock with
    | some (.notify all) => match s.waitList with
      | [] => some { s with wListLock := none }
      | p :: l => some { s with
          waitList := l
          wListLock := some (.popped all p)
          popped := Function.update s.popped p true }
    | _ => none
  | .compareExchange => match s.wListLock with
    | some (.popped all p) =>
      let r := (s.cvStatus p).notify s.this
      let t := { s with cvStatus := Function.update s.cvStatus p r.1 }
      some (if r.2 then { t with wListLock := some (.claimed all p) } else t.goOn all)
    | _ => none
  | .enable => match s.wListLock with
    | some (.claimed all p) => some ((s.enableImmediately p).goOn all)
    | _ => none
  | .timeoutCallback p =>
    if s.sl = none ∧ s.armed p = true then
      let r := (s.cvStatus p).timeout
      some { s with
        armed := Function.update s.armed p false
        cvStatus := Function.update s.cvStatus p r.1
        called := Function.update s.called p true
        sl := if r.2 then some p else none }
    else none
  | .timeoutEnable => match s.sl with
    | some p => some { s.enableImmediately p with sl := none }
    | none => none
  | .resume p expired => match s.phase p with
    | .asleep false => if 0 < s.enables p then some (s.setPhase p .idle) else none
    | .asleep true =>
      if 0 < s.enables p ∧ s.sl = none then
        some ({ s with
          armed := Function.update s.armed p (s.armed p && expired) }.setPhase p .awake)
      else none
    | _ => none
  | .waitEnd p timeout =>
    if s.phase p = .awake then
      if timeout then
        if s.wListLock = none then
          some ({ s with waitList := remove s.heap s.waitList p }.setPhase p .idle)
        else none
      else some (s.setPhase p .idle)
    else none
  | .elsewhere p w =>
    if s.phase p = .idle ∧ p ∉ s.waitList then
      some { s with
        cvStatus := Function.update s.cvStatus p w
        timedWait := Function.update s.timedWait p false }
    else none

/-- A condition variable at address `this` on which nobody waits. -/
def initial (this : Nat) (heap : Heap) (cvStatus : Ptr → CvStatus) : CondVar :=
  { this, heap, cvStatus }

/-! ## What a step can do -/

/-- The steps with their guards and their effects, one rule for each outcome. -/
inductive Step (s : CondVar) : Label → CondVar → Prop where
  | wait {p} (hph : s.phase p = .idle) (hlock : s.wListLock = none) (hp : p ∉ s.waitList) :
    Step s (.wait p) ((s.enqueue p .zero false).setPhase p (.asleep false))
  | waitUntil {p} (hph : s.phase p = .idle) (hlock : s.wListLock = none)
      (hp : p ∉ s.waitList) (harmed : s.armed p = false) (hsl : s.sl ≠ some p) :
    Step s (.waitUntil p) ({ s.enqueue p (.cv s.this) true with
      wListLock := some (.waiter p) }.setPhase p .arming)
  | setTimeout {p} (hph : s.phase p = .arming) (hsl : s.sl = none) :
    Step s (.setTimeout p)
      ({ s with armed := Function.update s.armed p true }.setPhase p .leaving)
  | unlock {p} (hph : s.phase p = .leaving) (hlock : s.wListLock = some (.waiter p)) :
    Step s (.unlock p) ({ s with wListLock := none }.setPhase p (.asleep true))
  | notify {all} (hlock : s.wListLock = none) :
    Step s (.notify all) { s with wListLock := some (.notify all) }
  | popNone {all} (hlock : s.wListLock = some (.notify all)) (hl : s.waitList = []) :
    Step s .popFront { s with wListLock := none }
  | popFront {all p l} (hlock : s.wListLock = some (.notify all))
      (hl : s.waitList = p :: l) :
    Step s .popFront { s with
      waitList := l
      wListLock := some (.popped all p)
      popped := Function.update s.popped p true }
  | compareExchange {all p} (hlock : s.wListLock = some (.popped all p)) :
    Step s .compareExchange (if ((s.cvStatus p).notify s.this).2 then
      { s with
        cvStatus := Function.update s.cvStatus p ((s.cvStatus p).notify s.this).1
        wListLock := some (.claimed all p) }
      else CondVar.goOn { s with
        cvStatus := Function.update s.cvStatus p ((s.cvStatus p).notify s.this).1 } all)
  | enable {all p} (hlock : s.wListLock = some (.claimed all p)) :
    Step s .enable ((s.enableImmediately p).goOn all)
  | timeoutCallback {p} (hsl : s.sl = none) (harmed : s.armed p = true) :
    Step s (.timeoutCallback p) { s with
      armed := Function.update s.armed p false
      cvStatus := Function.update s.cvStatus p (s.cvStatus p).timeout.1
      called := Function.update s.called p true
      sl := if (s.cvStatus p).timeout.2 then some p else none }
  | timeoutEnable {p} (hsl : s.sl = some p) :
    Step s .timeoutEnable { s.enableImmediately p with sl := none }
  | resume {p expired} (hph : s.phase p = .asleep false) (hen : 0 < s.enables p) :
    Step s (.resume p expired) (s.setPhase p .idle)
  | resumeTimed {p expired} (hph : s.phase p = .asleep true)
      (hen : 0 < s.enables p) (hsl : s.sl = none) :
    Step s (.resume p expired) ({ s with
      armed := Function.update s.armed p (s.armed p && expired) }.setPhase p .awake)
  | waitEnd {p} (hph : s.phase p = .awake) : Step s (.waitEnd p false) (s.setPhase p .idle)
  | waitTimeout {p} (hph : s.phase p = .awake) (hlock : s.wListLock = none) :
    Step s (.waitEnd p true) ({ s with waitList := remove s.heap s.waitList p }.setPhase p .idle)
  | elsewhere {p w} (hph : s.phase p = .idle) (hp : p ∉ s.waitList) :
    Step s (.elsewhere p w) { s with
      cvStatus := Function.update s.cvStatus p w
      timedWait := Function.update s.timedWait p false }

variable {s t : CondVar} {p : Ptr}

theorem step_cases {l : Label} (h : step s l = some t) : Step s l t := by
  cases l with
  | wait p =>
    simp only [step, Option.ite_none_right_eq_some, Option.some.injEq] at h
    obtain ⟨⟨hph, hlock, hp⟩, rfl⟩ := h
    exact .wait hph hlock hp
  | waitUntil p =>
    simp only [step, Option.ite_none_right_eq_some, Option.some.injEq] at h
    obtain ⟨⟨hph, hlock, hp, harmed, hsl⟩, rfl⟩ := h
    exact .waitUntil hph hlock hp harmed hsl
  | setTimeout p =>
    simp only [step, Option.ite_none_right_eq_some, Option.some.injEq] at h
    obtain ⟨⟨hph, hsl⟩, rfl⟩ := h
    exact .setTimeout hph hsl
  | unlock p =>
    simp only [step, Option.ite_none_right_eq_some, Option.some.injEq] at h
    obtain ⟨⟨hph, hlock⟩, rfl⟩ := h
    exact .unlock hph hlock
  | notify all =>
    simp only [step, Option.ite_none_right_eq_some, Option.some.injEq] at h
    obtain ⟨hlock, rfl⟩ := h
    exact .notify hlock
  | popFront =>
    simp only [step] at h
    split at h
    · next hlock =>
      split at h
      · next hl =>
        cases h
        exact .popNone hlock hl
      · next hl =>
        cases h
        exact .popFront hlock hl
    · cases h
  | compareExchange =>
    simp only [step] at h
    split at h
    · next hlock =>
      cases h
      exact .compareExchange hlock
    · cases h
  | enable =>
    simp only [step] at h
    split at h
    · next hlock =>
      cases h
      exact .enable hlock
    · cases h
  | timeoutCallback p =>
    simp only [step, Option.ite_none_right_eq_some, Option.some.injEq] at h
    obtain ⟨⟨hsl, harmed⟩, rfl⟩ := h
    exact .timeoutCallback hsl harmed
  | timeoutEnable =>
    simp only [step] at h
    split at h
    · next hsl =>
      cases h
      exact .timeoutEnable hsl
    · cases h
  | resume p expired =>
    simp only [step] at h
    split at h
    · next hph =>
      rw [Option.ite_none_right_eq_some, Option.some.injEq] at h
      obtain ⟨hen, rfl⟩ := h
      exact .resume hph hen
    · next hph =>
      rw [Option.ite_none_right_eq_some, Option.some.injEq] at h
      obtain ⟨⟨hen, hsl⟩, rfl⟩ := h
      exact .resumeTimed hph hen hsl
    · cases h
  | waitEnd p timeout =>
    simp only [step, Option.ite_none_right_eq_some] at h
    obtain ⟨hph, h⟩ := h
    cases timeout with
    | false =>
      cases h
      exact .waitEnd hph
    | true =>
      simp only [if_true, Option.ite_none_right_eq_some, Option.some.injEq] at h
      obtain ⟨hlock, rfl⟩ := h
      exact .waitTimeout hph hlock
  | elsewhere p w =>
    simp only [step, Option.ite_none_right_eq_some, Option.some.injEq] at h
    obtain ⟨⟨hph, hp⟩, rfl⟩ := h
    exact .elsewhere hph hp

/-! ## The end of a wait by timeout -/

theorem mem_remove {h : Heap} {l : List Ptr} {q : Ptr} :
    q ∈ remove h l p ↔ q ∈ l ∧ (h q).id ≠ (h p).id := by
  simp [remove, taskEq]

/-- The removal takes out `p` alone exactly when no other waiter has the `id` of `p`. -/
theorem remove_eq_filter_iff (h : Heap) (l : List Ptr) (p : Ptr) :
    remove h l p = l.filter (· ≠ p) ↔ ∀ q ∈ l, q ≠ p → (h q).id ≠ (h p).id := by
  constructor
  · intro heq q hq hne
    have hmem : q ∈ remove h l p := by
      rw [heq]
      simpa [hne] using hq
    exact (mem_remove.mp hmem).2
  · intro hid
    refine List.filter_congr fun q hq => ?_
    by_cases hqp : q = p
    · simp [hqp, taskEq]
    · simp [hqp, taskEq, hid q hq hqp]

/-- When the wait of `p` ends by timeout, the wait list is afterwards what it was without `p`, and
every other waiter is still linked, exactly when no other waiter has the `id` of `p`. -/
theorem timeout_removes_one_iff (ht : step s (.waitEnd p true) = some t) :
    (t.waitList = s.waitList.filter (· ≠ p) ↔
      ∀ q ∈ s.waitList, q ≠ p → (s.heap q).id ≠ (s.heap p).id) ∧
    ((∀ q ∈ s.waitList, q ≠ p → q ∈ t.waitList) ↔
      ∀ q ∈ s.waitList, q ≠ p → (s.heap q).id ≠ (s.heap p).id) := by
  have hlist : t.waitList = remove s.heap s.waitList p := by
    cases step_cases ht with
    | waitTimeout => rfl
  rw [hlist]
  refine ⟨remove_eq_filter_iff s.heap s.waitList p, ?_⟩
  refine forall₃_congr fun q hq hne => ?_
  rw [mem_remove]
  exact and_iff_right hq

/-- A real-time task waits with id 7 and a batch task with id 0, for which the time is over. -/
def distinctIds : Heap := fun p => if p = 0 then { taskType := .realTime, id := 7 } else {}

/-- Task 0 waits, task 1 waits until its time is over. -/
def expiryRun : List Label :=
  [.wait 0, .waitUntil 1, .setTimeout 1, .unlock 1, .timeoutCallback 1, .timeoutEnable,
    .resume 1 false]

theorem timeout_removes_one_expiryRun :
    ∃ s t, run step (initial 1 distinctIds fun _ => .zero) expiryRun = some s ∧
      step s (.waitEnd 1 true) = some t ∧ t.waitList = s.waitList.filter (· ≠ 1) := by
  have hend : ((run step (initial 1 distinctIds fun _ => .zero) expiryRun).bind fun s =>
      (step s (.waitEnd 1 true)).map fun _ => (s.waitList, (s.heap 0).id, (s.heap 1).id)) =
        some ([0, 1], 7, 0) := by decide
  obtain ⟨s, hs, hstep⟩ := Option.bind_eq_some_iff.mp hend
  obtain ⟨t, ht, heq⟩ := Option.map_eq_some_iff.mp hstep
  simp only [Prod.mk.injEq] at heq
  obtain ⟨hlist, hid0, hid1⟩ := heq
  refine ⟨s, t, hs, ht, (timeout_removes_one_iff ht).1.mpr ?_⟩
  rw [hlist]
  intro q hq hne
  obtain rfl : q = 0 := by simpa [hne] using hq
  simp [hid0, hid1]

/-- Two batch tasks wait, the time of task 1 is over, and task 0 is unlinked with it. The
`notify_all` that follows finds nobody to wake, and task 0 sleeps on. -/
theorem timeout_removes_both_expiryRun :
    (run step (initial 1 (fun _ => {}) fun _ => .zero) expiryRun).map (·.waitList) =
      some [0, 1] ∧
    (run step (initial 1 (fun _ => {}) fun _ => .zero) (expiryRun ++ [.waitEnd 1 true])).map
      (·.waitList) = some [] ∧
    (run step (initial 1 (fun _ => {}) fun _ => .zero)
      (expiryRun ++ [.waitEnd 1 true, .notify true, .popFront])).map (fun s =>
        (s.phase 0, s.enables 0, s.wListLock)) = some (.asleep false, 0, none) := by
  decide

end JamSched.Sync
