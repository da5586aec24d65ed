import JamSched.Rib.Cancel

/-!
# The main scheduler

The fields of `RIBScheduler` and the place at which the main thread stands. A place is a
point of `GetNextTask` or `GetAnInteractiveBatchTask` between two of the moments that other
threads, or the clock, can see: a lock is taken or released, or the clock is read.

The workers appear through `Size()` only. What a worker does with a task that was handed to
it is the subject of `JamSched.Steal`.
-/
namespace JamSched.Rib

structure RealTimeSchedule where
  sTime : Int
  eTime : Int
  taskId : Nat
  deriving DecidableEq, Repr

/-- `END_OF_RT_SLOT_SPIN_MAX_US`, in nanoseconds. -/
def endOfRtSlotSpinMax : Int := 200000

/-- The two calls of `GetAnInteractiveBatchTask` in `GetNextTask`. -/
inductive Site where
  | slot | noSchedule
  deriving DecidableEq, Repr

/-- Where the main thread stands. -/
inductive Pc where
  /-- The loop of `RunSchedulerMainLoop`. -/
  | mainLoop
  /-- A task executes on the main thread. -/
  | running
  /-- The head of the loop of `GetNextTask`. -/
  | top
  /-- `cvQMutex.wait_until` in the case of a real-time task. -/
  | rtWait
  /-- Spinning for the end of a real-time slot. -/
  | rtSpin (ceTime : Int)
  /-- Before `if (idxRealTimeTask < currentSchedule.size())`. -/
  | slot
  /-- The condition of the loop that serves other tasks inside a slot. -/
  | slotLoop
  | slotCall
  | slotWait
  /-- No slot is left: before the test that both schedules are empty. -/
  | noSchedule
  | noScheduleCall
  | noScheduleWait
  /-- `qMutex` is released and the expired tasks in hand go to the workers. -/
  | handOver (site : Site) (toStealTasks : List Ptr)
  | afterHandOver (site : Site)
  /-- `taskStartTime = Clock::now()` before a batch or interactive task is returned. -/
  | startTask (p : Ptr)
  /-- `GetNextTask` has returned. -/
  | ret (next : Option Ptr)
  | stopped
  /-- `currentSchedule[idxRealTimeTask]` was evaluated with an index past the end. -/
  | outOfRange
  /-- The thread spins for the `qMutex` it holds. -/
  | deadlock
  deriving DecidableEq, Repr

/-- The main thread is inside `GetNextTask`. -/
def Pc.inGetNextTask : Pc → Bool
  | .mainLoop | .running | .ret _ | .stopped | .outOfRange | .deadlock => false
  | _ => true

structure State where
  toContinue : Bool := true
  rtScheduleNormal : List RealTimeSchedule := []
  rtScheduleGreedy : List RealTimeSchedule := []
  currentSchedule : List RealTimeSchedule := []
  idxRealTimeTask : Nat := 0
  /-- How many cycles were started; `numberOfPeriods` is this less one, modulo `2 ^ 32`. -/
  cycles : Nat := 0
  schedulerStartTime : Int := 0
  cycleStartTime : Int := 0
  currentTime : Int := 0
  taskStartTime : Int := 0
  vClockI : Int := 0
  vClockB : Int := 0
  jitters : List Int := []
  bQueue : List Ptr := []
  iEDFPriorityQueue : List Ptr := []
  iCancelStack : List Ptr := []
  rtRegisterTable : List Ptr := []
  /-- `Size()` of every worker. -/
  thiefSizes : List Nat := []
  /-- Tasks that were linked into the queue of a worker. -/
  handed : List Ptr := []
  /-- Tasks of the main scheduler that are linked in a wait list or in the timer. -/
  waiting : List Ptr := []
  deleted : List Ptr := []
  /-- Tasks that were taken from the cancel stack and whose `onCancel` was called. -/
  cancelled : List Ptr := []
  heap : Heap := fun _ => {}
  /-- The next address that `new` returns. -/
  fresh : Ptr := 0
  notifier : Ptr → Waitable := fun p => ⟨p, []⟩
  /-- The futures that `onCancel` of a task completes. -/
  cancelFutures : Ptr → List Waitable := fun _ => []
  /-- `TaskInterface::Active()` on the main thread. -/
  active : Option Ptr := none
  /-- The latest reading of the clock. -/
  clock : Int := 0
  pc : Pc := .mainLoop

namespace State

def activeType (s : State) : Option TaskType := s.active.map fun p => (s.heap p).taskType

/-- `currentSchedule[idxRealTimeTask]`. -/
def slotNow (s : State) : Option RealTimeSchedule := s.currentSchedule[s.idxRealTimeTask]?

/-- `delete`: the auto-unlink hooks of a task leave the lists they are linked in. -/
def delete (s : State) (p : Ptr) : State :=
  { s with
    deleted := p :: s.deleted
    bQueue := s.bQueue.erase p
    iEDFPriorityQueue := s.iEDFPriorityQueue.erase p
    iCancelStack := s.iCancelStack.erase p
    waiting := s.waiting.erase p }

/-- `Enable` and `EnableImmediately`, which differ in the end of `bQueue` they use. A
real-time task is linked nowhere. -/
def enable (s : State) (immediately : Bool) (p : Ptr) : State :=
  { s with
    iEDFPriorityQueue :=
      if (s.heap p).taskType = .interactive then edfInsert s.heap p s.iEDFPriorityQueue
      else s.iEDFPriorityQueue
    bQueue :=
      if (s.heap p).taskType = .batch then
        if immediately then p :: s.bQueue else s.bQueue ++ [p]
      else s.bQueue
    heap := s.heap.modify p ({ · with status := .ready }) }

/-- `EndTask`: a real-time task is deleted whatever its status. -/
def endTask (s : State) (p : Ptr) : State :=
  match (s.heap p).taskType with
  | .realTime => s.delete p
  | .batch => if (s.heap p).status = .finished then s.delete p else s
  | .interactive => if (s.heap p).status = .finished then s.delete p else s

/-- `SetSchedule`. -/
def setSchedule (s : State) (normal greedy : List RealTimeSchedule) : State :=
  match normal.getLast?, greedy.getLast? with
  | some n, some g =>
    if n.eTime ≠ g.eTime then s
    else { s with rtScheduleNormal := normal, rtScheduleGreedy := greedy }
  | _, _ => s

/-- Allocate a task object. -/
def create (s : State) (t : TaskInterface) : State :=
  { s with heap := s.heap.modify s.fresh fun _ => t, fresh := s.fresh + 1 }

end State

/-- Whether the main thread holds `qMutex` at a place, so that no other thread takes it. -/
def Pc.holdsQMutex : Pc → Bool
  | .slotLoop | .slotCall | .startTask _ | .deadlock => true
  | _ => false

end JamSched.Rib
