import JamSched.Rib.State

/-!
# GetAnInteractiveBatchTask

The function holds `qMutex` except while it hands expired tasks to the workers, so it is
three steps here: up to the hand-over, the hand-over of one task, and what follows it. The
queues can change between the steps.
-/
namespace JamSched.Rib

/-- What the environment supplies to one step of the main thread. -/
structure Env where
  /-- The value of `Clock::now()`. -/
  now : Int
  /-- The answer of `Decider::DecideNextScheduleToRun`. -/
  coin : Bool := true
  /-- Which of the registered tasks of one id `rtRegisterTable.find` yields. -/
  pick : Nat := 0
  /-- How often each spin mutex on the way is found taken. -/
  spins : Lock → Nat := fun _ => 0

/-- The loop of `GetMinThief` at worker `i`. -/
def getMinThiefFrom (i : Nat) (minThief : Option Nat) (minSize : Nat) : List Nat → Option Nat
  | [] => minThief
  | nsz :: sizes =>
    if nsz = 0 then some i
    else if minSize > nsz then getMinThiefFrom (i + 1) (some i) nsz sizes
    else getMinThiefFrom (i + 1) minThief minSize sizes

/-- `GetMinThief`: the search starts from `std::numeric_limits<unsigned int>::max()`. -/
def getMinThief (sizes : List Nat) : Option Nat := getMinThiefFrom 0 none (2 ^ 32 - 1) sizes

theorem getMinThiefFrom_some (i : Nat) (m : Nat) (minSize : Nat) (sizes : List Nat) :
    (getMinThiefFrom i (some m) minSize sizes).isSome := by
  induction sizes generalizing i m minSize with
  | nil => rfl
  | cons n sizes ih =>
    simp only [getMinThiefFrom]
    split_ifs
    · rfl
    · exact ih _ _ _
    · exact ih _ _ _

/-- `GetMinThief` fails exactly when no worker has a `Size()` below `2 ^ 32 - 1`. -/
theorem getMinThief_eq_none (sizes : List Nat) :
    getMinThief sizes = none ↔ ∀ n ∈ sizes, 2 ^ 32 - 1 ≤ n := by
  have h (i : Nat) : getMinThiefFrom i none (2 ^ 32 - 1) sizes = none ↔
      ∀ n ∈ sizes, 2 ^ 32 - 1 ≤ n := by
    induction sizes generalizing i with
    | nil => simp [getMinThiefFrom]
    | cons n sizes ih =>
      simp only [getMinThiefFrom, List.forall_mem_cons]
      split_ifs with h₀ h₁
      · simp [h₀]
      · have := getMinThiefFrom_some (i + 1) i n sizes
        rw [Option.isSome_iff_ne_none] at this
        simp only [this, false_iff]
        omega
      · rw [ih]
        have hn : 2 ^ 32 - 1 ≤ n := by omega
        exact (and_iff_right hn).symm
  exact h 0

/-- Where the caller of `GetAnInteractiveBatchTask` goes on when it got `nullptr`. -/
def Site.wait : Site → Pc
  | .slot => .slotWait
  | .noSchedule => .noScheduleWait

namespace State

/-- The three-way decision at the head of the function: `none` returns `nullptr`. -/
def decideQueue (s : State) : Option TaskType :=
  if s.bQueue.isEmpty && s.iEDFPriorityQueue.isEmpty && s.iCancelStack.isEmpty then none
  else if !s.bQueue.isEmpty && s.iEDFPriorityQueue.isEmpty && s.iCancelStack.isEmpty then
    some .batch
  else if s.bQueue.isEmpty && (!s.iEDFPriorityQueue.isEmpty || !s.iCancelStack.isEmpty) then
    some .interactive
  else if s.vClockB > s.vClockI then some .interactive else some .batch

/-- `deadline - burst + schedulerStartTime < currentTime`. -/
def isExpired (s : State) (p : Ptr) : Bool :=
  (s.heap p).deadline - (s.heap p).burst + s.schedulerStartTime < s.currentTime

/-- The expired task may go to a worker. -/
def canHandOver (s : State) (p : Ptr) : Bool :=
  !s.thiefSizes.isEmpty && (s.heap p).isStealable && (s.heap p).stack.canSteal

/-- The loop that empties the expired head of `iEDFPriorityQueue`, with the cancel stack and
`toStealTasks` as accumulators. -/
def collectExpired (s : State) : (edf stack steal : List Ptr) → List Ptr × List Ptr × List Ptr
  | [], stack, steal => ([], stack, steal)
  | p :: edf, stack, steal =>
    if s.isExpired p then
      if s.canHandOver p then collectExpired s edf stack (steal ++ [p])
      else collectExpired s edf (p :: stack) steal
    else (p :: edf, stack, steal)

/-- The function returns `nullptr` to its caller. -/
def noInteractiveBatch (s : State) (site : Site) : State := { s with pc := site.wait }

def enterInteractiveBatch (s : State) (site : Site) : State :=
  match s.decideQueue, s.bQueue with
  | some .batch, p :: bs => { s with bQueue := bs, pc := .startTask p }
  | some .interactive, _ =>
    let r := s.collectExpired s.iEDFPriorityQueue s.iCancelStack []
    { s with iEDFPriorityQueue := r.1, iCancelStack := r.2.1, pc := .handOver site r.2.2 }
  | _, _ => s.noInteractiveBatch site

/-- One task of `toStealTasks`: `Steal` and `EnableImmediately` of the least loaded worker,
or `delete` when `GetMinThief` finds none. -/
def handOverOne (s : State) (p : Ptr) : State :=
  match getMinThief s.thiefSizes with
  | some i =>
    { s with
      heap := s.heap.modify p fun t => { t.steal (.thief i) with status := .ready }
      thiefSizes := s.thiefSizes.modify i (· + 1)
      handed := p :: s.handed }
  | none => s.delete p

/-- The thread that cancels: `Yield` in a spin mutex needs an unfinished active task. -/
def caller (s : State) (e : Env) : Caller where
  active := s.active.bind fun a =>
    if (s.heap a).status = .finished then none else some (s.heap a).scheduler
  spins := e.spins

/-- Cancelling `p` makes the thread try to take the `qMutex` it holds. -/
def CancelDeadlocks (s : State) (e : Env) (p : Ptr) : Prop :=
  .qMutex .rib ∈ cancelLocks (s.caller e) (s.cancelFutures p) (s.notifier p)

instance (s : State) (e : Env) (p : Ptr) : Decidable (s.CancelDeadlocks e p) :=
  inferInstanceAs (Decidable (_ ∈ _))

/-- The effect of cancelling the task at the back of the stack. -/
def cancelBack (s : State) (p : Ptr) : State :=
  { s.delete p with
    iCancelStack := s.iCancelStack.dropLast
    cancelled := p :: s.cancelled
    heap := s.heap.modify p ({ · with notified := true }) }

/-- `while (iCancelStack.size() > 3)`: `none` when the thread blocks itself on the way. The
loop shortens the stack in every turn, so its length is fuel enough. -/
def cancelLoop (e : Env) : Nat → State → Option State
  | 0, s => some s
  | fuel + 1, s =>
    match s.iCancelStack.getLast? with
    | some p =>
      if 3 < s.iCancelStack.length then
        if s.CancelDeadlocks e p then none else cancelLoop e fuel (s.cancelBack p)
      else some s
    | none => some s

/-- The earliest deadline first, then the latest of the expired tasks. -/
def takeInteractive (s : State) (site : Site) : State :=
  match s.iEDFPriorityQueue, s.iCancelStack with
  | p :: edf, _ => { s with iEDFPriorityQueue := edf, pc := .startTask p }
  | [], p :: stack => { s with iCancelStack := stack, pc := .startTask p }
  | [], [] => s.noInteractiveBatch site

/-- What follows the hand-over: the cancelling loop, then the choice of a task. -/
def leaveInteractiveBatch (s : State) (site : Site) (e : Env) : State :=
  match s.cancelLoop e s.iCancelStack.length with
  | none => { s with pc := .deadlock }
  | some s => s.takeInteractive site

end State

/-- The decision for the batch queue is made only when it has a task. -/
theorem decideQueue_batch {s : State} (h : s.decideQueue = some .batch) : s.bQueue ≠ [] := by
  intro hb
  cases he : s.iEDFPriorityQueue <;> cases hc : s.iCancelStack <;>
    simp [State.decideQueue, hb, he, hc] at h

/-- What every cancellation preserves, the loop preserves. -/
theorem cancelLoop_rule {I : State → Prop}
    (hI : ∀ s p, s.iCancelStack.getLast? = some p → I s → I (s.cancelBack p)) {e : Env}
    {fuel : Nat} {s t : State} (hs : I s) (h : s.cancelLoop e fuel = some t) : I t := by
  induction fuel generalizing s with
  | zero =>
    obtain rfl : s = t := by simpa [State.cancelLoop] using h
    exact hs
  | succ fuel ih =>
    simp only [State.cancelLoop] at h
    split at h
    · rename_i p hp
      split_ifs at h
      · exact ih (hI s p hp hs) h
      · obtain rfl : s = t := by simpa using h
        exact hs
    · obtain rfl : s = t := by simpa using h
      exact hs

/-- What the function returns after the cancelling loop. -/
theorem takeInteractive_cases (t : State) (site : Site) :
    (∃ p edf, t.iEDFPriorityQueue = p :: edf ∧
      t.takeInteractive site = { t with iEDFPriorityQueue := edf, pc := .startTask p }) ∨
    (∃ p stack, t.iEDFPriorityQueue = [] ∧ t.iCancelStack = p :: stack ∧
      t.takeInteractive site = { t with iCancelStack := stack, pc := .startTask p }) ∨
    (t.iEDFPriorityQueue = [] ∧ t.iCancelStack = [] ∧
      t.takeInteractive site = { t with pc := site.wait }) := by
  cases hedf : t.iEDFPriorityQueue with
  | cons p edf => exact .inl ⟨p, edf, rfl, by simp [State.takeInteractive, hedf]⟩
  | nil =>
    cases hstack : t.iCancelStack with
    | cons p stack =>
      exact .inr (.inl ⟨p, stack, rfl, rfl, by simp [State.takeInteractive, hedf, hstack]⟩)
    | nil =>
      refine .inr (.inr ⟨rfl, rfl, ?_⟩)
      simp [State.takeInteractive, hedf, hstack, State.noInteractiveBatch]

end JamSched.Rib
