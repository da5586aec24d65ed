import JamSched.Core.Task
import JamSched.Machine.Run

/-!
# The threads of one process

The workers, `StealScheduler`, with every critical section of theirs as one step, and the
main thread beside them. The queues of the main scheduler are one list here from which it
takes any task: which one it takes, and when, is the subject of `JamSched.Rib`. A `StealFrom`
is two steps, since it holds the victim's lock first and its own lock afterwards, and so is
`StealScheduler::EndTask`, whose two statements other threads can come between. Waking a task
is two steps as well: its scheduler is read before that scheduler's lock is taken.

`Active()` of a thread is the task that was left last until `EndTask` has been called for it.
-/
namespace JamSched.Steal

/-- Where a thread stands. In each case `a` is `Active()` of the thread and `q` is what
`GetNextTask` has returned. -/
inductive Thread where
  /-- `RunSchedulerMainLoop`, between two calls of `GetNextTask`. -/
  | loop
  /-- In `GetNextTask`, without a lock. -/
  | next (a : Option Ptr)
  /-- Between the two critical sections of `StealFrom`. -/
  | steal (a : Option Ptr) (tasksToSteal : List Ptr)
  /-- The main thread, with `qMutex` released, handing expired tasks to workers. -/
  | handOver (a : Option Ptr) (toStealTasks : List Ptr)
  /-- Before the switch of contexts. -/
  | switch (a : Option Ptr) (q : Option Ptr)
  /-- The other context is entered, `EndTask` of the task that was left comes next. -/
  | endSet (a : Ptr) (q : Option Ptr)
  /-- In `StealScheduler::EndTask`, before the test of the status. -/
  | endTest (a : Ptr) (q : Option Ptr)
  | run (p : Ptr)
  deriving DecidableEq, Repr

structure Pool where
  /-- `thiefs.size()`. -/
  nThiefs : Nat := 1
  /-- `isReady` of a worker, or the queues of the main scheduler. -/
  isReady : SchedId → List Ptr := fun _ => []
  sizeOfQueue : Nat → Nat := fun _ => 0
  heap : Heap := fun _ => {}
  fresh : Ptr := 0
  /-- Tasks in a wait list or in the timer. -/
  blocked : List Ptr := []
  /-- Tasks being woken, with the scheduler that was read. -/
  waking : List (Ptr × SchedId) := []
  thread : SchedId → Thread := fun _ => .loop
  /-- Every deletion, the latest first, with the thread that made it. -/
  deleted : List (Ptr × SchedId) := []
  /-- Tasks that were entered at least once. -/
  executed : List Ptr := []
  /-- Tasks that were created with `canSteal = false`, or as real-time tasks. -/
  unstealable : List Ptr := []
  /-- The thread on which a task has finished. -/
  finishedOn : Ptr → Option SchedId := fun _ => none

/-- The walk of `StealFrom` from the back of the victim's queue, given from back to front:
what stays, and what is taken. -/
def takeStealable (h : Heap) : Nat → List Ptr → List Ptr × List Ptr
  | 0, l => (l, [])
  | _ + 1, [] => ([], [])
  | n + 1, p :: l =>
    if (h p).isStealable then
      let r := takeStealable h n l
      (r.1, p :: r.2)
    else
      let r := takeStealable h (n + 1) l
      (p :: r.1, r.2)

namespace Pool

variable (s : Pool)

/-- The threads of the process. -/
def isThread : SchedId → Bool
  | .rib => true
  | .thief i => i < s.nThiefs

@[simps] def setThread (x : SchedId) (th : Thread) : Pool :=
  { s with thread := Function.update s.thread x th }

@[simps] def setReady (x : SchedId) (l : List Ptr) : Pool :=
  { s with isReady := Function.update s.isReady x l }

@[simps] def addSize (i n : Nat) : Pool :=
  { s with sizeOfQueue := Function.update s.sizeOfQueue i (s.sizeOfQueue i + n) }

@[simps] def subSize (i n : Nat) : Pool :=
  { s with sizeOfQueue := Function.update s.sizeOfQueue i (s.sizeOfQueue i - n) }

@[simps] def write (p : Ptr) (f : TaskInterface → TaskInterface) : Pool :=
  { s with heap := s.heap.modify p f }

/-- `sizeOfQueue++` and the insertion into `isReady`, at the front or at the back. -/
def push (x : SchedId) (front : Bool) (p : Ptr) : Pool :=
  let t := s.setReady x (if front then p :: s.isReady x else s.isReady x ++ [p])
  match x with
  | .rib => t
  | .thief i => t.addSize i 1

/-- `Enable` and `EnableImmediately` of a scheduler. The main scheduler links no real-time
task. -/
def enable (x : SchedId) (front : Bool) (p : Ptr) : Pool :=
  let t := if x = .rib ∧ (s.heap p).taskType = .realTime then s else s.push x front p
  t.write p ({ · with status := .ready })

/-- `delete`: the hooks of the task leave the lists they are linked in. -/
@[simps] def delete (x : SchedId) (p : Ptr) : Pool :=
  { s with
    isReady := fun y => (s.isReady y).erase p
    blocked := s.blocked.erase p
    deleted := (p, x) :: s.deleted }

/-- The context of `q`, or the main loop, goes on. -/
def enter (x : SchedId) : Option Ptr → Pool
  | none => s.setThread x .loop
  | some q => { s.setThread x (.run q) with executed := q :: s.executed }

/-- `GetNextTask` has returned `q`. -/
def returns (x : SchedId) (a q : Option Ptr) : Pool :=
  if a = q then s.enter x q else s.setThread x (.switch a q)

/-- The end of `StealScheduler::GetNextTask`. -/
def pop (i : Nat) : Option Pool :=
  match s.thread (.thief i), s.isReady (.thief i) with
  | .next a, p :: l =>
    some (((s.setReady (.thief i) l).subSize i 1).write p
      ({ · with isStealable := false, status := .running }) |>.returns (.thief i) a (some p))
  | _, _ => none

def stealableCount (j : Nat) : Nat := (s.isReady (.thief j)).countP fun p => (s.heap p).isStealable

/-- What stays in the queue of worker `j` and what a `StealFrom` takes from it. -/
def loot (j : Nat) : List Ptr × List Ptr :=
  let l := s.isReady (.thief j)
  if 1 < s.stealableCount j then
    let r := takeStealable s.heap (min (s.stealableCount j) (l.length / 2)) l.reverse
    (r.1.reverse, r.2)
  else (l, [])

/-- The first critical section of `StealFrom`, under the lock of the victim `j`. -/
def stealOut (i j : Nat) : Option Pool :=
  match s.thread (.thief i) with
  | .next a =>
    if i ≠ j ∧ i < s.nThiefs ∧ j < s.nThiefs then
      let r := s.loot j
      some ((((s.setReady (.thief j) r.1).subSize j r.2.length).addSize i r.2.length).setThread
        (.thief i) (.steal a r.2))
    else none
  | _ => none

/-- The second one, under the thief's own lock: `Steal`, `sizeOfQueue++` and `push_front` for
every task. -/
def stealIn (i : Nat) : Option Pool :=
  match s.thread (.thief i) with
  | .steal a got =>
    some (({ s with heap := fun p => if p ∈ got then (s.heap p).steal (.thief i) else s.heap p
      }.setReady (.thief i) (got.reverse ++ s.isReady (.thief i))).addSize i got.length |>.setThread
        (.thief i) (.next a))
  | _ => none

/-- The main scheduler takes a task from its queues; with an interactive task active it
returns `nullptr` instead. -/
def pick (p : Ptr) : Option Pool :=
  match s.thread .rib with
  | .next a =>
    if p ∈ s.isReady .rib ∧ ∀ b ∈ a, (s.heap b).taskType ≠ .interactive then
      some ((s.setReady .rib ((s.isReady .rib).erase p)).returns .rib a (some p))
    else none
  | _ => none

/-- The main scheduler takes expired interactive tasks out to hand them over. -/
def collect (l : List Ptr) : Option Pool :=
  match s.thread .rib with
  | .next a =>
    if 0 < s.nThiefs ∧ l.Nodup ∧ (∀ b ∈ a, (s.heap b).taskType ≠ .interactive) ∧
        ∀ p ∈ l, p ∈ s.isReady .rib ∧ (s.heap p).taskType = .interactive ∧
          (s.heap p).isStealable = true ∧ (s.heap p).stack.canSteal = true then
      some ((s.setReady .rib ((s.isReady .rib).filter (· ∉ l))).setThread .rib (.handOver a l))
    else none
  | _ => none

/-- One task of the hand-over goes to worker `i`, or is deleted when `GetMinThief` finds
none. -/
def give (i : Option Nat) : Option Pool :=
  match s.thread .rib with
  | .handOver a (p :: l) =>
    match i with
    | some i =>
      if i < s.nThiefs then
        some (((s.write p (·.steal (.thief i))).enable (.thief i) true p).setThread .rib
          (.handOver a l))
      else none
    | none => some ((s.delete .rib p).setThread .rib (.handOver a l))
  | .handOver a [] => some (s.setThread .rib (.next a))
  | _ => none

/-- The main scheduler cancels an interactive task of its queues. -/
def cancel (p : Ptr) : Option Pool :=
  match s.thread .rib with
  | .next a =>
    if p ∈ s.isReady .rib ∧ (s.heap p).taskType = .interactive ∧
        ∀ b ∈ a, (s.heap b).taskType ≠ .interactive then
      some (s.delete .rib p)
    else none
  | _ => none

/-- The switch of contexts: the context of `Active()` is saved. -/
def swap (x : SchedId) : Option Pool :=
  match s.thread x with
  | .switch none q => some (s.enter x q)
  | .switch (some a) q => some (s.setThread x (.endSet a q))
  | _ => none

/-- `EndTask` of the scheduler of `a`: all of it for the main scheduler, the first statement
for a worker. -/
def endSet (x : SchedId) : Option Pool :=
  match s.thread x with
  | .endSet a q =>
    match (s.heap a).scheduler with
    | .rib =>
      if (s.heap a).taskType = .realTime ∨ (s.heap a).status = .finished then
        some ((s.delete x a).enter x q)
      else some (s.enter x q)
    | .thief _ =>
      some ((s.write a fun t => if t.stack.canSteal then { t with isStealable := true } else t)
        |>.setThread x (.endTest a q))
  | _ => none

/-- The second statement of `StealScheduler::EndTask`. -/
def endTest (x : SchedId) : Option Pool :=
  match s.thread x with
  | .endTest a q =>
    some (if (s.heap a).status = .finished then (s.delete x a).enter x q else s.enter x q)
  | _ => none

end Pool

inductive Label where
  /-- The main loop of a thread calls `GetNextTask`. -/
  | next (x : SchedId)
  | pop (i : Nat)
  /-- `GetNextTask` returns `nullptr`. -/
  | quit (x : SchedId)
  | stealOut (i j : Nat)
  | stealIn (i : Nat)
  | pick (p : Ptr)
  | collect (l : List Ptr)
  | give (i : Option Nat)
  | cancel (p : Ptr)
  | swap (x : SchedId)
  | endSet (x : SchedId)
  | endTest (x : SchedId)
  /-- `ctask::Yield` of the task that runs on the thread. -/
  | yield (x : SchedId)
  /-- It waits on a condition variable or sleeps. -/
  | block (x : SchedId)
  | finish (x : SchedId)
  /-- Some thread takes a task out of a wait list or the timer and reads its scheduler. -/
  | wakeRead (p : Ptr)
  /-- That thread calls `EnableImmediately` of the scheduler it read. -/
  | wakePush (p : Ptr) (x : SchedId)
  /-- A task of the main scheduler is created. -/
  | create (taskType : TaskType) (stack : StackKind) (canSteal : Bool)
  /-- A stealable batch task is created for worker `i`. -/
  | createFor (i : Nat) (stack : StackKind) (front : Bool)
  deriving DecidableEq, Repr

/-- The worker from which the step takes tasks, in the first critical section of `StealFrom`. -/
def Label.victim : Label → Option Nat
  | .stealOut _ j => some j
  | _ => none

namespace Pool

variable (s : Pool)

/-- Allocate a task. -/
def alloc (t : TaskInterface) (pinned : Bool) : Pool :=
  { s with
    heap := s.heap.modify s.fresh fun _ => t
    fresh := s.fresh + 1
    unstealable := if pinned then s.fresh :: s.unstealable else s.unstealable }

/-- The three `Create` functions, as far as the task starts with the main scheduler: a batch
task only if it is not stealable, a real-time task never stealable. -/
def create (taskType : TaskType) (stack : StackKind) (canSteal : Bool) : Option Pool :=
  if taskType = .batch ∧ canSteal = true then none
  else
    let isStealable := canSteal && decide (taskType = .interactive)
    some ((s.alloc { taskType, stack, isStealable } !isStealable).push .rib false s.fresh)

def createFor (i : Nat) (stack : StackKind) (front : Bool) : Option Pool :=
  if i < s.nThiefs then
    some ((s.alloc { taskType := .batch, stack, scheduler := .thief i } false).push
      (.thief i) front s.fresh)
  else none

end Pool

def step (s : Pool) : Label → Option Pool
  | .next x =>
    if s.isThread x ∧ s.thread x = .loop then some (s.setThread x (.next none)) else none
  | .pop i => s.pop i
  | .quit x => match s.thread x with
    | .next a => some (s.returns x a none)
    | _ => none
  | .stealOut i j => s.stealOut i j
  | .stealIn i => s.stealIn i
  | .pick p => s.pick p
  | .collect l => s.collect l
  | .give i => s.give i
  | .cancel p => s.cancel p
  | .swap x => s.swap x
  | .endSet x => s.endSet x
  | .endTest x => s.endTest x
  | .yield x => match s.thread x with
    | .run p => if (s.heap p).status ≠ .finished then
        some ((s.enable (s.heap p).scheduler false p).setThread x (.next (some p))) else none
    | _ => none
  | .block x => match s.thread x with
    | .run p => some ({ s with blocked := p :: s.blocked }.setThread x (.next (some p)))
    | _ => none
  | .finish x => match s.thread x with
    | .run p => some ({ s.write p ({ · with status := .finished, notified := true }) with
        finishedOn := Function.update s.finishedOn p (some x) }.setThread x (.next (some p)))
    | _ => none
  | .wakeRead p =>
    if p ∈ s.blocked then
      some { s with
        blocked := s.blocked.erase p, waking := (p, (s.heap p).scheduler) :: s.waking }
    else none
  | .wakePush p x =>
    if (p, x) ∈ s.waking then
      some ({ s with waking := s.waking.erase (p, x) }.enable x true p)
    else none
  | .create taskType stack canSteal => s.create taskType stack canSteal
  | .createFor i stack front => s.createFor i stack front

/-- All threads in their main loops, no task created. -/
def initial (nThiefs : Nat) : Pool := { nThiefs }

end JamSched.Steal
