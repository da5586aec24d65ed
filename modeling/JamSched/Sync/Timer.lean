import JamSched.Core.Task
import JamSched.Core.Wheel
import JamSched.Machine.Run

/-!
# The timer

`Timer` with any number of tasks that sleep or wait with a timeout. Whoever calls `SetTimeout`
advances the wheel, but only `NotifyAllTimeouts` empties the expired queue, so the entry of a
waiting task can be expired and not yet delivered when a notifier wakes the task. Back in
`SetTimeout` the task unlinks its entry only `if (!timeout_expired(..))`, and leaves it in the
expired queue otherwise: the callback then comes after the wait, and the next `timeout_init`
overwrites a linked entry. Apart from that, and from real-time tasks that `EndTask` deletes
inside of a timed wait, an entry is linked only while its task waits.
-/
namespace JamSched.Timer

open Machine

/-- Where a task stands in its calls of `SetTimeout`. -/
inductive Phase where
  /-- In none. -/
  | idle
  /-- Asleep in the variant without a lock, which only the timer ends. -/
  | sleeping
  /-- Asleep in a variant with a lock, as in `wait_until`. -/
  | waiting
  /-- Enabled, about to go on in `SetTimeout`. -/
  | woken
  | deleted
  deriving DecidableEq, Repr

structure State where
  taskType : Ptr → TaskType := fun _ => .batch
  timingWheel : Wheel Ptr Nat := { curtime := 0 }
  /-- `NotifyAllTimeouts` holds `sl`. -/
  notifying : Bool := false
  phase : Ptr → Phase := fun _ => .idle
  /-- Calls of `TimeoutCallback` for a task that is in no `SetTimeout`. -/
  strays : List Ptr := []
  /-- Calls of `timeout_init` for an entry that is linked. -/
  clobbered : List Ptr := []

inductive Label where
  /-- `SetTimeout` without a lock, up to `SwapOut`. -/
  | sleep (p : Ptr) (now dt : Nat)
  /-- `SetTimeout` with a lock, up to `SwapOut`. -/
  | setTimeout (p : Ptr) (now dt : Nat)
  /-- `NotifyAllTimeouts` takes `sl` and advances the wheel. -/
  | notifyAllTimeouts (now : Nat)
  /-- Its loop: `timeouts_get` and `TimeoutCallback`. -/
  | timeoutCallback
  /-- The expired queue is empty. -/
  | notifyEnd
  /-- `notify_one` or `notify_all` wakes the task. -/
  | notify (p : Ptr)
  /-- The rest of `SetTimeout` with a lock, behind `SwapOut`. -/
  | returns (p : Ptr)
  /-- `EndTask` deletes the task. -/
  | endTask (p : Ptr)
  deriving DecidableEq, Repr

namespace State

variable (s : State)

def setPhase (p : Ptr) (ph : Phase) : State := { s with phase := Function.update s.phase p ph }

/-- The beginning of all variants of `SetTimeout`: advance the wheel, `timeout_init`, link. -/
def arm (p : Ptr) (now dt : Nat) (ph : Phase) : State :=
  let w := s.timingWheel.update now
  { s with
    timingWheel := w.add p dt
    clobbered := if 0 < w.links p then p :: s.clobbered else s.clobbered }.setPhase p ph

/-- `TimeoutCallback` for a task in each of its phases. It enables no task that a notifier has
woken. -/
def callback (p : Ptr) : State :=
  match s.phase p with
  | .waiting => s.setPhase p .woken
  | .sleeping => s.setPhase p .idle
  | .woken => s
  | .idle | .deleted => { s with strays := p :: s.strays }

end State

/-- A task is deleted after it has returned; a real-time task also while it waits. -/
def step (s : State) : Label → Option State
  | .sleep p now dt =>
    if s.phase p = .idle ∧ s.notifying = false then some (s.arm p now dt .sleeping) else none
  | .setTimeout p now dt =>
    if s.phase p = .idle ∧ s.notifying = false then some (s.arm p now dt .waiting) else none
  | .notifyAllTimeouts now =>
    if s.notifying = false then
      some { s with timingWheel := s.timingWheel.update now, notifying := true }
    else none
  | .timeoutCallback =>
    if s.notifying = true then
      s.timingWheel.get.map fun r => { s with timingWheel := r.2 }.callback r.1
    else none
  | .notifyEnd =>
    if s.notifying = true ∧ s.timingWheel.expired = [] then some { s with notifying := false }
    else none
  | .notify p => if s.phase p = .waiting then some (s.setPhase p .woken) else none
  | .returns p =>
    if s.phase p = .woken ∧ s.notifying = false then
      some ({ s with timingWheel := if p ∉ s.timingWheel.expired then s.timingWheel.del p
        else s.timingWheel }.setPhase p .idle)
    else none
  | .endTask p =>
    if s.phase p = .idle ∨ s.taskType p = .realTime ∧ s.phase p ≠ .deleted then
      some (s.setPhase p .deleted)
    else none

/-- No task in a call of the timer. -/
def initial (taskType : Ptr → TaskType) : State := { taskType }

variable {s t : State} {p q : Ptr} {l : Label}

/-- The task whose `SetTimeout` the step ends. -/
def Label.returning : Label → Option Ptr
  | .returns p => some p
  | _ => none

/-- The task that the step deletes. -/
def Label.ended : Label → Option Ptr
  | .endTask p => some p
  | _ => none

/-- No task returns from `SetTimeout` while its entry is in the expired queue, and none is deleted
inside of a call of the timer. -/
def Clean (s : State) (l : Label) : Prop :=
  (∀ p ∈ l.returning, p ∉ s.timingWheel.expired) ∧ ∀ p ∈ l.ended, s.phase p = .idle

instance (s : State) (l : Label) : Decidable (Clean s l) :=
  inferInstanceAs (Decidable ((∀ p ∈ l.returning, p ∉ s.timingWheel.expired) ∧
    ∀ p ∈ l.ended, s.phase p = .idle))

/-- How often the entry of a task may be linked. -/
def Phase.room : Phase → Nat
  | .sleeping | .waiting | .woken => 1
  | .idle | .deleted => 0

/-- An entry is linked at most once, and only inside of a call. -/
structure Tidy (s : State) : Prop where
  links : ∀ p, s.timingWheel.links p ≤ (s.phase p).room
  strays : s.strays = []
  clobbered : s.clobbered = []

/-- Only task `q` changes its phase, and no other entry is linked or unlinked. -/
theorem Tidy.setPhase (h : Tidy s) {w : Wheel Ptr Nat} {ph : Phase}
    (hq : w.links q ≤ ph.room) (hne : ∀ p, p ≠ q → w.links p = s.timingWheel.links p) :
    Tidy ({ s with timingWheel := w }.setPhase q ph) := by
  refine ⟨fun p => ?_, h.strays, h.clobbered⟩
  by_cases hpq : p = q
  · simpa [State.setPhase, hpq] using hq
  · simpa [State.setPhase, hpq, hne p hpq] using h.links p

theorem Tidy.arm (h : Tidy s) (hidle : s.phase q = .idle) (now dt : Nat) {ph : Phase}
    (hph : ph.room = 1) : Tidy (s.arm q now dt ph) := by
  have hzero : s.timingWheel.links q = 0 := by simpa [hidle, Phase.room] using h.links q
  have hclob : (if 0 < (s.timingWheel.update now).links q then q :: s.clobbered
      else s.clobbered) = s.clobbered := by simp [hzero]
  rw [State.arm, hclob]
  refine h.setPhase ?_ fun p hp => ?_
  · simp [Wheel.links_add, hzero, hph]
  · simp [Wheel.links_add, Ne.symm hp]

theorem Tidy.callback (h : Tidy s) {w : Wheel Ptr Nat} (hget : s.timingWheel.get = some (q, w)) :
    Tidy (State.callback { s with timingWheel := w } q) := by
  have hlinks := Wheel.links_get hget
  have hroom := h.links q
  have hself : s.timingWheel.links q = w.links q + 1 := by simpa using hlinks q
  have hne (p : Ptr) (hp : p ≠ q) : w.links p = s.timingWheel.links p := by
    simpa [Ne.symm hp] using (hlinks p).symm
  unfold State.callback
  split
  · rename_i hph
    refine h.setPhase ?_ hne
    simp only [show s.phase q = .waiting from hph, Phase.room] at hroom ⊢
    omega
  · rename_i hph
    refine h.setPhase ?_ hne
    simp only [show s.phase q = .sleeping from hph, Phase.room] at hroom ⊢
    omega
  · rename_i hph
    refine ⟨fun p => ?_, h.strays, h.clobbered⟩
    have := h.links p
    have := hlinks p
    dsimp only
    omega
  all_goals
    rename_i hph
    have : (s.phase q).room = 0 := by rw [show s.phase q = _ from hph]; rfl
    omega

/-- `SetTimeout` returns: its entry is unlinked exactly when it is not in the expired queue. -/
theorem returns_unlinked_iff (ht : step s (.returns p) = some t) :
    t.timingWheel.links p = 0 ↔ p ∉ s.timingWheel.expired := by
  simp only [step] at ht
  split at ht
  · cases ht
    by_cases hp : p ∈ s.timingWheel.expired
    · have := Wheel.links_pos_of_expired hp
      simp only [State.setPhase, hp, not_true_eq_false, if_false, iff_false]
      omega
    · simp [State.setPhase, hp]
  · cases ht

theorem Tidy.step (h : Tidy s) (hc : Clean s l) (ht : Timer.step s l = some t) : Tidy t := by
  cases l with
  | sleep q now dt =>
    simp only [Timer.step] at ht
    split at ht
    · rename_i hq
      cases ht
      exact h.arm hq.1 now dt rfl
    · cases ht
  | setTimeout q now dt =>
    simp only [Timer.step] at ht
    split at ht
    · rename_i hq
      cases ht
      exact h.arm hq.1 now dt rfl
    · cases ht
  | notifyAllTimeouts now =>
    simp only [Timer.step] at ht
    split at ht
    · cases ht
      exact ⟨fun p => by simpa using h.links p, h.strays, h.clobbered⟩
    · cases ht
  | timeoutCallback =>
    simp only [Timer.step] at ht
    split at ht
    · obtain ⟨⟨q, w⟩, hget, rfl⟩ := Option.map_eq_some_iff.mp ht
      exact h.callback hget
    · cases ht
  | notifyEnd =>
    simp only [Timer.step] at ht
    split at ht
    · cases ht
      exact ⟨h.links, h.strays, h.clobbered⟩
    · cases ht
  | notify q =>
    simp only [Timer.step] at ht
    split at ht
    · rename_i hq
      cases ht
      refine h.setPhase ?_ fun _ _ => rfl
      simpa [hq, Phase.room] using h.links q
    · cases ht
  | returns q =>
    have hexp : q ∉ s.timingWheel.expired := hc.1 q rfl
    simp only [Timer.step, hexp, not_false_eq_true, if_true] at ht
    split at ht
    · cases ht
      exact h.setPhase (by simp) fun p hp => Wheel.links_del_of_ne _ hp
    · cases ht
  | endTask q =>
    have hidle : s.phase q = .idle := hc.2 q rfl
    simp only [Timer.step] at ht
    split at ht
    · cases ht
      refine h.setPhase ?_ fun _ _ => rfl
      simpa [hidle, Phase.room] using h.links q
    · cases ht

/-- In every run in which no task returns from `SetTimeout` with its entry in the expired queue
and none is deleted inside of a call: the entry of a task that has returned, or was deleted, is
linked nowhere, the callback is never invoked for a wait that is over, and `timeout_init` never
meets a linked entry; and whether a return keeps to this is decided by that condition. -/
theorem entry_unlinked {taskType : Ptr → TaskType} {ls : List Label}
    (hr : run Timer.step (initial taskType) ls = some s)
    (hc : Along Timer.step Clean (initial taskType) ls) :
    (∀ p, s.phase p = .idle ∨ s.phase p = .deleted → s.timingWheel.links p = 0) ∧
      s.strays = [] ∧ s.clobbered = [] ∧
    ∀ p t, Timer.step s (.returns p) = some t →
      (t.timingWheel.links p = 0 ↔ p ∉ s.timingWheel.expired) := by
  have htidy : Tidy s := by
    refine run_invariant_along (fun _ _ _ h hl ht => h.step hl ht) ?_ hc hr
    exact ⟨fun p => by simp [initial, Wheel.links], rfl, rfl⟩
  refine ⟨fun p hp => ?_, htidy.strays, htidy.clobbered, fun p t => returns_unlinked_iff⟩
  have := htidy.links p
  rcases hp with hp | hp <;> simpa [hp, Phase.room] using this

/-- Task 0 waits until 100 and is notified in time; it returns before its time. -/
def timelyRun : List Label :=
  [.setTimeout 0 0 100, .notify 0, .returns 0, .setTimeout 0 50 200, .notifyAllTimeouts 210,
    .timeoutCallback, .notifyEnd, .returns 0, .endTask 0]

theorem entry_unlinked_timelyRun :
    ∃ s, run Timer.step (initial fun _ => .batch) timelyRun = some s ∧ s.phase 0 = .deleted ∧
      s.timingWheel.links 0 = 0 := by
  have hend : (run Timer.step (initial fun _ => .batch) timelyRun).map (·.phase 0) =
      some .deleted := by decide
  obtain ⟨s, hs, hphase⟩ := Option.map_eq_some_iff.mp hend
  exact ⟨s, hs, hphase, (entry_unlinked hs (by decide)).1 0 (.inr hphase)⟩

/-- Task 0 waits until 100. At 150 task 1 sets a timeout and so advances the wheel; task 0 is
notified and returns before `NotifyAllTimeouts` runs. -/
def expiredRun : List Label :=
  [.setTimeout 0 0 100, .setTimeout 1 150 200, .notify 0, .returns 0]

/-- The entry of task 0 stays in the expired queue: the next wait of the task overwrites it while
it is linked, or the callback comes for the wait that is over, also after the task was deleted. -/
theorem entry_linked_expiredRun :
    (run Timer.step (initial fun _ => .batch) expiredRun).map (fun s =>
      (s.phase 0, s.timingWheel.links 0)) = some (.idle, 1) ∧
    (run Timer.step (initial fun _ => .batch) (expiredRun ++ [.setTimeout 0 160 300])).map
      (·.clobbered) = some [0] ∧
    (run Timer.step (initial fun _ => .batch)
      (expiredRun ++ [.endTask 0, .notifyAllTimeouts 160, .timeoutCallback])).map (fun s =>
        (s.phase 0, s.strays)) = some (.deleted, [0]) := by
  decide

end JamSched.Timer
