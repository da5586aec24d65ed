import JamSched.Exec.Promise
import JamSched.Core.Task
import JamSched.Machine.Run

/-!
# Local named executions

`CreateLocalNamedInteractiveExecution` and its two siblings put a registered function into a task
and give the caller the future of its outcome; `async` does the same for a function at hand. The
task may be suspended inside of the function, and also inside of `set_ready`: while it waits for the
lock of the condition variable, with `mutex_` held, and in a callback of `then`, without it. An
interactive task that waits in the cancel stack may be cancelled at all of these places, a
real-time task is deleted when it is swapped out, and every task may go with the queue it is in.
-/
namespace JamSched.Exec

open Machine

/-- How far a task has come. -/
inductive Place where
  /-- Before the function has returned or thrown. -/
  | body
  /-- In `set_ready`, up to `lock.unlock()`. -/
  | notifying
  /-- In the callback of `then`, or behind it. -/
  | callback
  /-- `TASK_FINISHED`. -/
  | finished
  | deleted
  deriving DecidableEq, Repr

variable {ε V Args Ω : Type}

/-- A task with its promise. `Ω` is what the function depends on besides its arguments. -/
structure Execution (ε V Args Ω : Type) where
  taskType : TaskType
  handler : Handler
  tFunction : Args → Ω → Outcome ε V
  tArgs : Args
  state : SharedState ε V := {}
  place : Place := .body
  /-- The task is not in a queue. -/
  running : Bool := false
  /-- An exception has left a task or the scheduler. -/
  terminated : Bool := false
  /-- The scheduler spins on a `mutex_` that no one will unlock. -/
  stuck : Bool := false
  /-- What the caller is to get: the outcome of the function, the cancellation, or the broken
  promise of a task deleted before either. -/
  due : Option (Outcome ε V) := none

inductive Label (Ω : Type) where
  /-- The scheduler switches to the task. -/
  | dispatch
  /-- The task is swapped out and enabled again. -/
  | suspend
  /-- The function returns or throws. -/
  | finish (w : Ω)
  /-- The end of `notify_all` in `set_ready`. -/
  | unlock
  /-- The function of the task is at its end. -/
  | exit
  | endTask
  /-- `GetNextTask` cancels the task at the bottom of the cancel stack. -/
  | cancel
  /-- The task is deleted in its queue. -/
  | drop

namespace Execution

def cancellation : Thrown ε := .invalidArgument "Local Named Execution Cancelled"

/-- `delete`: the last pointer to the promise goes. -/
def delete (x : Execution ε V Args Ω) : Execution ε V Args Ω :=
  if x.state.mutex then { x with stuck := true }
  else { x with
    state := x.state.abandon
    place := .deleted
    running := false
    due := x.due.or (some (.throws (futureError .brokenPromise))) }

/-- `onCancel`, then `delete`. -/
def cancel (x : Execution ε V Args Ω) : Execution ε V Args Ω :=
  let t := { x with due := some (.throws cancellation) }
  if x.state.mutex then { t with stuck := true }
  else match x.state.setException cancellation with
    | .ok st => { t with state := st.unlock }.delete
    | .error _ => { t with terminated := true }

/-- What a task does that runs, and what may happen to one that is in a queue. -/
def move (x : Execution ε V Args Ω) : Label Ω → Option (Execution ε V Args Ω)
  | .dispatch =>
    if x.running = false ∧ x.place ≠ .deleted then some { x with running := true } else none
  | .suspend =>
    if x.running = true ∧ x.place ≠ .finished ∧ x.taskType ≠ .realTime then
      some { x with running := false }
    else none
  | .finish w =>
    if x.running = true ∧ x.place = .body then
      let o := x.tFunction x.tArgs w
      match x.handler.execute x.state o with
      | .ok st => some { x with state := st, place := .notifying, due := some o }
      | .error _ => some { x with terminated := true, due := some o }
    else none
  | .unlock =>
    if x.running = true ∧ x.place = .notifying then
      some { x with state := x.state.unlock, place := .callback }
    else none
  | .exit =>
    if x.running = true ∧ x.place = .callback then some { x with place := .finished } else none
  | .endTask =>
    if x.running = true ∧ (x.place = .finished ∨ x.taskType = .realTime) then some x.delete
    else none
  | .cancel =>
    if x.running = false ∧ x.place ≠ .deleted ∧ x.taskType = .interactive then some x.cancel
    else none
  | .drop => if x.running = false ∧ x.place ≠ .deleted then some x.delete else none

def step (x : Execution ε V Args Ω) (l : Label Ω) : Option (Execution ε V Args Ω) :=
  if x.terminated = false ∧ x.stuck = false then x.move l else none

end Execution

/-! ## The functions that create executions -/

/-- `std::any_cast` of the entry in `lexecFuncMap` to `std::function<T(Args...)>`; `none` where it
throws, as for a name that is not registered. -/
abbrev LexecFuncMap (ε V Args Ω : Type) := String → Option (Args → Ω → Outcome ε V)

def createLocalNamedExecution (taskType : TaskType) (lexecFuncMap : LexecFuncMap ε V Args Ω)
    (eName : String) (eArgs : Args) : Option (Execution ε V Args Ω) :=
  (lexecFuncMap eName).map fun tFunction =>
    { taskType, handler := .stdException, tFunction, tArgs := eArgs }

def createLocalNamedInteractiveExecution :
    LexecFuncMap ε V Args Ω → String → Args → Option (Execution ε V Args Ω) :=
  createLocalNamedExecution .interactive

def createLocalNamedBatchExecution :
    LexecFuncMap ε V Args Ω → String → Args → Option (Execution ε V Args Ω) :=
  createLocalNamedExecution .batch

def createLocalNamedRealTimeExecution :
    LexecFuncMap ε V Args Ω → String → Args → Option (Execution ε V Args Ω) :=
  createLocalNamedExecution .realTime

def async (f : Args → Ω → Outcome ε V) (args : Args) : Execution ε V Args Ω :=
  { taskType := .batch, handler := .all, tFunction := f, tArgs := args }

/-- The scheduler goes on, `get()` gives what it is to give, and the promise is satisfied once as
soon as there is something to give. -/
def Transports (x : Execution ε V Args Ω) : Prop :=
  x.terminated = false ∧ x.stuck = false ∧ x.state.getValue = x.due ∧
    x.state.readies = x.due.toList.length

/-- The handler passes on what the function throws, a cancellation comes before the promise is
satisfied, and no task is deleted inside of `set_ready`. -/
def PassesOn (x : Execution ε V Args Ω) : Label Ω → Prop
  | .finish w => ∀ e, x.tFunction x.tArgs w = .throws e → x.handler.capture e = some e
  | .cancel => x.state.satisfied = false
  | .endTask | .drop => x.state.mutex = false
  | _ => True

instance [DecidableEq ε] [DecidableEq V] (x : Execution ε V Args Ω) : Decidable (Transports x) :=
  inferInstanceAs (Decidable (_ ∧ _ ∧ _ ∧ _))

/-! ## Runs -/

variable {x y : Execution ε V Args Ω} {l : Label Ω}

/-- A promise is untouched inside of the function, and afterwards holds what is due. -/
structure Inv (x : Execution ε V Args Ω) : Prop where
  terminated : x.terminated = false
  stuck : x.stuck = false
  body : x.place = .body → x.state = {} ∧ x.due = none
  done : x.place ≠ .body →
    ∃ r, x.due = some r ∧ x.state = .settled (decide (x.place = .notifying)) r

theorem Inv.transports (h : Inv x) : Transports x := by
  refine ⟨h.terminated, h.stuck, ?_⟩
  by_cases hp : x.place = .body
  · obtain ⟨hstate, hdue⟩ := h.body hp
    rw [hstate, hdue]
    exact ⟨rfl, rfl⟩
  · obtain ⟨r, hdue, hstate⟩ := h.done hp
    rw [hstate, hdue]
    simp

theorem Inv.delete (h : Inv x) (hm : x.state.mutex = false) : Inv x.delete := by
  rw [Execution.delete, if_neg (by simp [hm])]
  constructor
  case terminated => exact h.terminated
  case stuck => exact h.stuck
  case body => simp
  case done =>
    intro _
    by_cases hp : x.place = .body
    · obtain ⟨hstate, hdue⟩ := h.body hp
      exact ⟨.throws (futureError .brokenPromise), by simp [hdue],
        by simp [hstate, SharedState.abandon_unsatisfied]⟩
    · obtain ⟨r, hdue, hstate⟩ := h.done hp
      have hn : x.place ≠ .notifying := by
        rw [hstate, SharedState.settled_mutex] at hm
        simpa using hm
      exact ⟨r, by simp [hdue], by simp [hstate, hn]⟩

theorem Inv.cancel (h : Inv x) (hs : x.state.satisfied = false) : Inv x.cancel := by
  have hp : x.place = .body := by
    by_contra hp
    obtain ⟨r, -, hstate⟩ := h.done hp
    simp [hstate] at hs
  obtain ⟨hstate, -⟩ := h.body hp
  simp only [Execution.cancel, hstate, SharedState.setException_unsatisfied]
  simp only [Execution.delete, SharedState.settled_unlock, SharedState.settled_mutex,
    SharedState.settled_abandon]
  constructor
  case terminated => exact h.terminated
  case stuck => exact h.stuck
  case body => simp
  case done => simp

/-- A cancellation finds the promise satisfied: the scheduler waits for the lock of a task that
will not run, or the second satisfaction throws. -/
theorem not_transports_cancel (h : Inv x) (hs : x.state.satisfied ≠ false) :
    ¬ Transports x.cancel := by
  have hp : x.place ≠ .body := by
    intro hp
    simp [(h.body hp).1] at hs
  obtain ⟨r, -, hstate⟩ := h.done hp
  rintro ⟨hterminated, hstuck, -⟩
  cases hm : decide (x.place = .notifying) with
  | true => simp [Execution.cancel, hstate, hm] at hstuck
  | false =>
    simp [Execution.cancel, hstate, hm, SharedState.setException_settled] at hterminated

/-- A step to another place, without an outcome. -/
theorem Inv.goOn (h : Inv x) {running : Bool} {place : Place} (hb : x.place ≠ .body)
    (hp : place ≠ .body) {state : SharedState ε V}
    (hs : ∀ r, x.state = .settled (decide (x.place = .notifying)) r →
      state = .settled (decide (place = .notifying)) r) :
    Inv { x with running, place, state } where
  terminated := h.terminated
  stuck := h.stuck
  body hplace := absurd hplace hp
  done _ := by
    obtain ⟨r, hdue, hstate⟩ := h.done hb
    exact ⟨r, hdue, hs r hstate⟩

theorem Inv.running (h : Inv x) (running : Bool) : Inv { x with running } where
  terminated := h.terminated
  stuck := h.stuck
  body := h.body
  done := h.done

theorem Inv.finish (h : Inv x) {w : Ω} (hp : PassesOn x (.finish w))
    (hy : x.move (.finish w) = some y) : Inv y := by
  simp only [Execution.move] at hy
  split at hy
  · next hc =>
    obtain ⟨hstate, hdue⟩ := h.body hc.2
    have hex : x.handler.execute x.state (x.tFunction x.tArgs w) =
        .ok (.settled true (x.tFunction x.tArgs w)) := by
      rw [hstate]
      cases ho : x.tFunction x.tArgs w with
      | returns v => exact execute_returns _ v
      | throws e => exact execute_caught (hp e ho)
    rw [hex] at hy
    cases hy
    exact ⟨h.terminated, h.stuck, by simp, by simp⟩
  · cases hy

/-- The handler does not catch the object, or makes another one of it. -/
theorem not_transports_finish (h : Inv x) {w : Ω} (hp : ¬ PassesOn x (.finish w))
    (hy : x.move (.finish w) = some y) : ¬ Transports y := by
  simp only [PassesOn, not_forall] at hp
  obtain ⟨e, ho, he⟩ := hp
  simp only [Execution.move] at hy
  split at hy
  · next hc =>
    rw [(h.body hc.2).1, ho] at hy
    cases hcap : x.handler.capture e with
    | none =>
      rw [execute_uncaught hcap] at hy
      cases hy
      simp [Transports]
    | some p =>
      rw [execute_caught hcap] at hy
      cases hy
      intro ht
      have hpe : p = e := by simpa using ht.2.2.1
      exact he (hpe ▸ hcap)
  · cases hy

theorem move_of_step (hy : x.step l = some y) : x.move l = some y := by
  simp only [Execution.step] at hy
  split at hy
  · exact hy
  · cases hy

theorem Inv.step (h : Inv x) (hp : PassesOn x l) (hy : x.step l = some y) : Inv y := by
  replace hy := move_of_step hy
  cases l with
  | finish w => exact h.finish hp hy
  | dispatch | suspend =>
    simp only [Execution.move] at hy
    split at hy
    · cases hy
      exact h.running _
    · cases hy
  | unlock =>
    simp only [Execution.move] at hy
    split at hy
    · next hc =>
      cases hy
      exact h.goOn (by simp [hc.2]) (by simp) fun r hr => by simp [hr]
    · cases hy
  | exit =>
    simp only [Execution.move] at hy
    split at hy
    · next hc =>
      cases hy
      exact h.goOn (by simp [hc.2]) (by simp) fun r hr => by simp [hr, hc.2]
    · cases hy
  | endTask | drop =>
    simp only [Execution.move] at hy
    split at hy
    · cases hy
      exact h.delete hp
    · cases hy
  | cancel =>
    simp only [Execution.move] at hy
    split at hy
    · cases hy
      exact h.cancel hp
    · cases hy

theorem not_transports_step (h : Inv x) (hp : ¬ PassesOn x l) (hy : x.step l = some y) :
    ¬ Transports y := by
  replace hy := move_of_step hy
  cases l with
  | finish w => exact not_transports_finish h hp hy
  | endTask | drop =>
    simp only [Execution.move] at hy
    split at hy
    · cases hy
      rintro ⟨-, hstuck, -⟩
      simp_all [PassesOn, Execution.delete]
    · cases hy
  | cancel =>
    simp only [Execution.move] at hy
    split at hy
    · cases hy
      exact not_transports_cancel h hp
    · cases hy
  | _ => exact absurd trivial hp

theorem transports_iff_passesOn {taskType : TaskType} {handler : Handler}
    {f : Args → Ω → Outcome ε V} {args : Args} {ls : List (Label Ω)}
    (hr : run Execution.step { taskType, handler, tFunction := f, tArgs := args } ls = some y) :
    Always Execution.step Transports { taskType, handler, tFunction := f, tArgs := args } ls ↔
      Along Execution.step PassesOn { taskType, handler, tFunction := f, tArgs := args } ls :=
  always_iff_along_of_invariant (I := Inv) (fun _ h => h.transports)
    (fun _ _ _ h hp hy => h.step hp hy) (fun _ _ _ h hp hy => not_transports_step h hp hy)
    ⟨rfl, rfl, fun _ => ⟨rfl, rfl⟩, fun hp => absurd rfl hp⟩ hr

/-! ## The outcome at the caller -/

/-- What the function throws has the type `std::exception` itself, a cancellation comes before the
promise is satisfied, and no task is deleted inside of `set_ready`. -/
def PlainException (x : Execution ε V Args Ω) : Label Ω → Prop
  | .finish w => ∀ e, x.tFunction x.tArgs w = .throws e → e = .exception
  | .cancel => x.state.satisfied = false
  | .endTask | .drop => x.state.mutex = false
  | _ => True

instance [DecidableEq ε] (x : Execution ε V Args Ω) (l : Label Ω) :
    Decidable (PlainException x l) :=
  match l with
  | .finish w => match h : x.tFunction x.tArgs w with
    | .returns v => isTrue (by simp [PlainException, h])
    | .throws e => decidable_of_iff (e = .exception) (by simp [PlainException, h])
  | .cancel => inferInstanceAs (Decidable (x.state.satisfied = false))
  | .endTask | .drop => inferInstanceAs (Decidable (x.state.mutex = false))
  | .dispatch | .suspend | .unlock | .exit => isTrue trivial

/-- What the creating function has fixed. -/
theorem step_fixed (hy : x.step l = some y) :
    y.handler = x.handler ∧ y.taskType = x.taskType := by
  have hdel (z : Execution ε V Args Ω) :
      z.delete.handler = z.handler ∧ z.delete.taskType = z.taskType := by
    simp only [Execution.delete]
    split <;> exact ⟨rfl, rfl⟩
  have hcancel : x.cancel.handler = x.handler ∧ x.cancel.taskType = x.taskType := by
    simp only [Execution.cancel]
    split
    · exact ⟨rfl, rfl⟩
    · split
      · exact hdel _
      · exact ⟨rfl, rfl⟩
  replace hy := move_of_step hy
  cases l <;> grind [Execution.move]

/-- A registered addition, a function that throws a `std::runtime_error`, and one that throws a
number. -/
def sampleMap : LexecFuncMap String Int (Int × Int) Unit := fun eName =>
  if eName = "testExec" then some fun args _ => .returns (args.1 + args.2)
  else if eName = "fail" then some fun _ _ => .throws (.derived "runtime_error(no data)")
  else if eName = "failWithNumber" then some fun _ _ => .throws (.other "42")
  else none

def wholeRun : List (Label Unit) :=
  [.dispatch, .suspend, .dispatch, .finish (), .unlock, .exit, .endTask]

/-- `async` passes on every object that its function throws. -/
theorem async_transports_iff {f : Args → Ω → Outcome ε V} {args : Args} {ls : List (Label Ω)}
    (hr : run Execution.step (async f args) ls = some y) :
    Always Execution.step Transports (async f args) ls ↔
      Along Execution.step (fun x l => (l = .endTask ∨ l = .drop) → x.state.mutex = false)
        (async f args) ls := by
  rw [async, transports_iff_passesOn hr]
  refine along_congr_of_run (I := fun x => x.handler = .all ∧ x.taskType = .batch)
    (fun x l y h _ hy => ?_) ?_ ⟨rfl, rfl⟩ hr
  · obtain ⟨hh, ht⟩ := step_fixed hy
    exact ⟨hh.trans h.1, ht.trans h.2⟩
  · rintro x l y ⟨hh, ht⟩ hy
    have hy' := move_of_step hy
    cases l with
    | finish w =>
      refine iff_of_true (fun e _ => ?_) (by simp)
      rw [hh]
      exact capture_all e
    | cancel => simp [Execution.move, ht] at hy'
    | _ => simp [PassesOn]

end JamSched.Exec
