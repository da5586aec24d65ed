import JamSched.Rib.Dispatch
import JamSched.Machine.Run

/-!
# GetNextTask and the machine of the main thread

`GetNextTask` is one loop: it accounts for the task that was active, waits for the end of a
real-time slot, looks at the slot of `idxRealTimeTask`, and starts the next cycle when no
slot is left. The active task is looked at again in every turn, also after a turn that only
moved the index or started a cycle.

A label says who moves: the main thread, the task that runs on it, or another thread that
creates or wakes a task, sets a schedule or shuts the scheduler down.
-/
namespace JamSched.Rib

namespace State

/-- The head of the loop and the case of a batch or an interactive task. -/
def stepTop (s : State) (now : Int) : State :=
  if !s.toContinue then { s with pc := .ret none }
  else match s.active with
    | none => { s with pc := .slot }
    | some p => match (s.heap p).taskType with
      | .batch => { s with vClockB := s.vClockB + (now - s.taskStartTime), pc := .slot }
      | .realTime => match s.slotNow with
        | none => { s with pc := .outOfRange }
        | some slot =>
          if slot.eTime > endOfRtSlotSpinMax then { s with pc := .rtWait }
          else { s with pc := .rtSpin slot.eTime }
      | .interactive =>
        { s with
          vClockI := s.vClockI + (now - s.taskStartTime)
          heap := s.heap.modify p fun t => { t with burst := t.burst - (now - s.taskStartTime) }
          pc := .ret none }

/-- `cvQMutex.wait_until` of the real-time case, whose predicate is that a schedule is set or
the scheduler stops. -/
def stepRtWait (s : State) (now : Int) : State :=
  match s.slotNow with
  | none => { s with pc := .outOfRange }
  | some slot =>
    if !(s.rtScheduleGreedy.isEmpty && s.rtScheduleNormal.isEmpty && s.toContinue) ||
        s.cycleStartTime + (slot.eTime - endOfRtSlotSpinMax) ≤ now then
      if !s.toContinue then { s with pc := .ret none } else { s with pc := .rtSpin slot.eTime }
    else s

def stepRtSpin (s : State) (ceTime now : Int) : State :=
  if now - s.cycleStartTime < ceTime then s
  else { s with idxRealTimeTask := s.idxRealTimeTask + 1, pc := .slot }

/-- The clock reading lies in the slot, both ends included. -/
def inSlot (s : State) (slot : RealTimeSchedule) (now : Int) : Bool :=
  slot.sTime ≤ now - s.cycleStartTime && now - s.cycleStartTime ≤ slot.eTime

/-- `rtRegisterTable.find(taskId)`: any registered task of that id, none for the id `0` of a
slot without real-time task. -/
def findRegistered (s : State) (taskId pick : Nat) : Option Ptr :=
  if taskId = 0 then none
  else
    let equals := s.rtRegisterTable.filter fun p => (s.heap p).id = taskId
    equals[pick % equals.length]?

def stepSlot (s : State) (e : Env) : State :=
  match s.slotNow with
  | none => { s with pc := .noSchedule }
  | some slot =>
    if s.inSlot slot e.now then
      match s.findRegistered slot.taskId e.pick with
      | some p =>
        { s with
          currentTime := e.now
          rtRegisterTable := s.rtRegisterTable.erase p
          jitters := s.jitters ++ [e.now - s.cycleStartTime - slot.sTime]
          pc := .ret (some p) }
      | none => { s with currentTime := e.now, pc := .slotLoop }
    else { s with currentTime := e.now, idxRealTimeTask := s.idxRealTimeTask + 1, pc := .top }

def stepSlotLoop (s : State) (now : Int) : State :=
  match s.slotNow with
  | none => { s with pc := .outOfRange }
  | some slot =>
    if s.toContinue && now - s.cycleStartTime ≤ slot.eTime - endOfRtSlotSpinMax then
      { s with pc := .slotCall }
    else { s with pc := .top }

def stepSlotCall (s : State) (now : Int) : State :=
  { s with currentTime := now }.enterInteractiveBatch .slot

def stepSlotWait (s : State) (now : Int) : State :=
  match s.slotNow with
  | none => { s with pc := .outOfRange }
  | some slot =>
    if !(s.bQueue.isEmpty && s.iEDFPriorityQueue.isEmpty && s.iCancelStack.isEmpty &&
        s.toContinue) || s.cycleStartTime + slot.eTime - endOfRtSlotSpinMax ≤ now then
      if !s.toContinue then { s with pc := .ret none } else { s with pc := .slotLoop }
    else s

/-- The schedule of the next cycle. -/
def nextSchedule (s : State) (coin : Bool) : List RealTimeSchedule :=
  if s.rtScheduleNormal.isEmpty then s.rtScheduleGreedy
  else if s.rtScheduleGreedy.isEmpty then s.rtScheduleNormal
  else if coin then s.rtScheduleNormal else s.rtScheduleGreedy

def stepNoSchedule (s : State) (e : Env) : State :=
  if s.rtScheduleGreedy.isEmpty && s.rtScheduleNormal.isEmpty then
    { s with pc := .noScheduleCall }
  else
    { s with
      currentSchedule := s.nextSchedule e.coin
      cycles := s.cycles + 1
      idxRealTimeTask := 0
      cycleStartTime := e.now
      pc := .top }

/-- The caller of `GetNextTask`: `SwapOut` of the active task, which returns at once when it
got itself, or `RunSchedulerMainLoop`. The context that is entered runs `EndTask` of the one
that was left. -/
def stepRet (s : State) (next : Option Ptr) : State :=
  match s.active, next with
  | none, none => { s with pc := .mainLoop }
  | none, some q => { s with active := some q, pc := .running }
  | some a, none => { s.endTask a with active := none, pc := .mainLoop }
  | some a, some q =>
    if a = q then { s with pc := .running }
    else { s.endTask a with active := some q, pc := .running }

/-- One step of the main thread outside of tasks. -/
def mainStep (s : State) (e : Env) : Option State :=
  match s.pc with
  | .mainLoop => some { s with pc := if s.toContinue then .top else .stopped }
  | .top => some (s.stepTop e.now)
  | .rtWait => some (s.stepRtWait e.now)
  | .rtSpin ceTime => some (s.stepRtSpin ceTime e.now)
  | .slot => some (s.stepSlot e)
  | .slotLoop => some (s.stepSlotLoop e.now)
  | .slotCall => some (s.stepSlotCall e.now)
  | .slotWait => some (s.stepSlotWait e.now)
  | .noSchedule => some (s.stepNoSchedule e)
  | .noScheduleCall => some (s.enterInteractiveBatch .noSchedule)
  | .noScheduleWait => some { s with pc := .noSchedule }
  | .handOver site [] => some { s with pc := .afterHandOver site }
  | .handOver site (p :: ps) => some { s.handOverOne p with pc := .handOver site ps }
  | .afterHandOver site => some (s.leaveInteractiveBatch site e)
  | .startTask p => some { s with taskStartTime := e.now, pc := .ret (some p) }
  | .ret next => some (s.stepRet next)
  | .running | .stopped | .outOfRange | .deadlock => none

end State

/-- What a task does to leave the processor. -/
inductive TaskAction where
  /-- `ctask::Yield`. -/
  | yield
  /-- Wait on a condition variable, or sleep. -/
  | block
  /-- `SpinMutex::lock` with that many failed attempts before the next success or yield. -/
  | lock (fails : Nat)
  /-- Return from the task function, or `ctask::Exit`. -/
  | finish
  deriving DecidableEq, Repr

inductive Label where
  | main (e : Env)
  | task (a : TaskAction)
  | createRealTime (stack : StackKind) (id : Nat)
  | createInteractive (stack : StackKind) (canSteal : Bool) (deadline burst : Int)
  /-- `thief` is the worker that `CreateBatchTask` chooses for a stealable task. -/
  | createBatch (stack : StackKind) (canSteal : Bool) (burst : Int) (thief : Nat)
  /-- Another thread, or the timer, passes a waiting task to `EnableImmediately`. -/
  | wake (p : Ptr)
  | setSchedule (normal greedy : List RealTimeSchedule)
  | shutDown
  /-- The workers go on: their sizes change. -/
  | thiefs (sizes : List Nat)
  /-- Tasks join `p` or wait for the futures its `onCancel` completes. -/
  | waiters (p : Ptr) (notifier : Waitable) (futures : List Waitable)

namespace State

/-- `Enable` of the task itself, then `SwapOut`. -/
def yieldActive (s : State) (p : Ptr) : State := { s.enable false p with pc := .top }

def taskStep (s : State) (p : Ptr) : TaskAction → State
  | .yield => if (s.heap p).status ≠ .finished then s.yieldActive p else s
  | .block => { s with waiting := p :: s.waiting, pc := .top }
  | .lock fails =>
    if (s.heap p).status ≠ .finished ∧ 0 < spinYields fails 1 then s.yieldActive p else s
  | .finish =>
    { s with
      heap := s.heap.modify p ({ · with status := .finished, notified := true })
      pc := .top }

/-- `CreateBatchTask`: a stealable task starts in the queue of a worker. -/
def createBatch (s : State) (stack : StackKind) (canSteal : Bool) (burst : Int)
    (thief : Nat) : Option State :=
  if canSteal then
    if thief < s.thiefSizes.length then
      some { s.create { taskType := .batch, stack, scheduler := .thief thief, burst } with
        handed := s.fresh :: s.handed
        thiefSizes := s.thiefSizes.modify thief (· + 1) }
    else none
  else if s.pc.holdsQMutex then none
  else some { s.create { taskType := .batch, stack, isStealable := false, burst } with
    bQueue := s.bQueue ++ [s.fresh] }

def createInteractive (s : State) (stack : StackKind) (canSteal : Bool)
    (deadline burst : Int) : State :=
  let t := s.create { taskType := .interactive, stack, isStealable := canSteal, deadline, burst }
  { t with iEDFPriorityQueue := edfInsert t.heap s.fresh s.iEDFPriorityQueue }

def createRealTime (s : State) (stack : StackKind) (id : Nat) : State :=
  { s.create { taskType := .realTime, stack, isStealable := false, id } with
    rtRegisterTable := s.fresh :: s.rtRegisterTable }

end State

/-- The machine of the main scheduler. The clock never runs back. -/
def step (s : State) : Label → Option State
  | .main e => if s.clock ≤ e.now then ({ s with clock := e.now }).mainStep e else none
  | .task a => match s.pc, s.active with
    | .running, some p => some (s.taskStep p a)
    | _, _ => none
  | .createRealTime stack id =>
    if s.pc.holdsQMutex then none else some (s.createRealTime stack id)
  | .createInteractive stack canSteal deadline burst =>
    if s.pc.holdsQMutex then none else some (s.createInteractive stack canSteal deadline burst)
  | .createBatch stack canSteal burst thief => s.createBatch stack canSteal burst thief
  | .wake p =>
    if s.pc.holdsQMutex ∨ p ∉ s.waiting then none
    else some ({ s with waiting := s.waiting.erase p }.enable true p)
  | .setSchedule normal greedy => some (s.setSchedule normal greedy)
  | .shutDown => some { s with toContinue := false }
  | .thiefs sizes => if sizes.length = s.thiefSizes.length then some { s with thiefSizes := sizes }
    else none
  | .waiters p notifier futures =>
    some { s with
      notifier := Function.update s.notifier p notifier
      cancelFutures := Function.update s.cancelFutures p futures }

/-- The scheduler as its constructor leaves it, with `RunSchedulerMainLoop` entered. -/
def initial (thiefSizes : List Nat) (start : Int) : State :=
  { thiefSizes, schedulerStartTime := start, clock := start }

end JamSched.Rib
