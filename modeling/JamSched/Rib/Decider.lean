import Mathlib.Algebra.Group.Nat.Defs
import JamSched.Rib.Control

/-!
# The decider

`Decider` keeps, for every interactive task that was created in a cycle, when it arrived and by
when it has to be done, both counted from the start of the cycle. The dispatcher counts
deadlines from the start of the scheduler. The decider goes from one to the other by
subtracting a period for each cycle, so the two agree on a deadline when the cycle began as
many periods after the scheduler as the counter says.

Times of the decider are microseconds. `numberOfPeriods` is an unsigned 32-bit counter that
starts at `-1`; products and differences of `long` are meant not to overflow.
-/
namespace JamSched.Rib

open Machine

/-- `duration_cast` of nanoseconds to microseconds rounds towards zero. -/
def microseconds (d : Int) : Int := d.tdiv 1000

structure ITaskEntry where
  deadline : Int
  burst : Int
  arrival : Int
  deriving DecidableEq, Repr

structure Decider where
  /-- Not initialised before the first schedule is set. -/
  period : Int
  interactiveTaskRecord : List ITaskEntry := []
  deriving DecidableEq, Repr

namespace Decider

/-- `NotifyChangeOfSchedule`, as far as the records are concerned. -/
def notifyChangeOfSchedule (d : Decider) (normal : List RealTimeSchedule) : Decider :=
  match normal.getLast? with
  | some slot => { d with period := microseconds slot.eTime }
  | none => d

/-- `RecordInteractiveJobArrival` at the clock reading `now`. -/
def recordInteractiveJobArrival (d : Decider) (numberOfPeriods : Nat) (now cycleStartTime : Int)
    (deadline burst : Int) : Decider :=
  { d with interactiveTaskRecord := d.interactiveTaskRecord ++
      [⟨deadline - numberOfPeriods * d.period, burst, microseconds (now - cycleStartTime)⟩] }

/-- `DecideNextScheduleToRun` forgets the records. Which schedule it chooses is left to the
environment of the machine. -/
def decideNextScheduleToRun (d : Decider) : Decider := { d with interactiveTaskRecord := [] }

end Decider

/-- `numberOfPeriods`. -/
def State.numberOfPeriods (s : State) : Nat := (s.cycles + (2 ^ 32 - 1)) % 2 ^ 32

/-- What a step tells the decider; `now` is the clock when a task is created. -/
def Decider.next (d : Decider) (s : State) (l : Label) (now : Int) : Decider :=
  match l with
  | .setSchedule normal greedy => match normal.getLast?, greedy.getLast? with
    | some n, some g => if n.eTime ≠ g.eTime then d else d.notifyChangeOfSchedule normal
    | _, _ => d
  | .createInteractive _ _ deadline burst =>
    d.recordInteractiveJobArrival s.numberOfPeriods now s.cycleStartTime
      (microseconds deadline) (microseconds burst)
  | .main _ => match s.pc with
    | .noSchedule =>
      if s.rtScheduleNormal.isEmpty || s.rtScheduleGreedy.isEmpty then d
      else d.decideNextScheduleToRun
    | _ => d
  | _ => d

/-- The machine of the main scheduler with its decider. -/
def decidedStep (x : State × Decider) (l : Label × Int) : Option (State × Decider) :=
  observe (fun s (l : Label × Int) => step s l.1) (fun d s l => d.next s l.1 l.2) x l

/-- The record of the task `p` agrees, to the microsecond, with the deadline that the dispatcher
uses for it. -/
def Agrees (s : State) (p : Ptr) (entry : ITaskEntry) : Prop :=
  (1000 * entry.deadline -
    (s.schedulerStartTime + (s.heap p).deadline - s.cycleStartTime)).natAbs < 1000

/-- A step that creates an interactive task records it with a deadline that agrees. -/
def RecordsDeadline (x : State × Decider) (l : Label × Int) : Prop :=
  ∀ y, decidedStep x l = some y → ∀ stack canSteal deadline burst,
    l.1 = .createInteractive stack canSteal deadline burst →
    ∃ entry, y.2.interactiveTaskRecord = x.2.interactiveTaskRecord ++ [entry] ∧
      Agrees y.1 x.1.fresh entry

/-- An interactive task is created in a cycle that began `numberOfPeriods` periods after the
scheduler, up to the part of a microsecond that the conversion of its deadline drops. -/
def CreatedAligned (x : State × Decider) (l : Label × Int) : Prop :=
  match l.1 with
  | .createInteractive _ _ deadline _ =>
    (x.1.cycleStartTime - x.1.schedulerStartTime - 1000 * (x.1.numberOfPeriods * x.2.period) -
      deadline.tmod 1000).natAbs < 1000
  | _ => True

instance (x : State × Decider) (l : Label × Int) : Decidable (CreatedAligned x l) :=
  match l with
  | (.createInteractive _ _ _ _, _) => inferInstanceAs (Decidable (_ < _))
  | (.main _, _) | (.task _, _) | (.createRealTime _ _, _) | (.createBatch _ _ _ _, _)
  | (.wake _, _) | (.setSchedule _ _, _) | (.shutDown, _) | (.thiefs _, _)
  | (.waiters _ _ _, _) => inferInstanceAs (Decidable True)

/-- What the record of a task is off by. -/
theorem record_error (deadline start cycleStart n : Int) :
    1000 * (microseconds deadline - n) - (start + deadline - cycleStart) =
      cycleStart - start - 1000 * n - deadline.tmod 1000 := by
  have := Int.tmod_add_mul_tdiv deadline 1000
  simp only [microseconds]
  omega

theorem agrees_record (s t : State) (d : Decider) (now : Int) {stack : StackKind}
    {canSteal : Bool} {deadline burst : Int}
    (hs : step s (.createInteractive stack canSteal deadline burst) = some t) :
    Agrees t s.fresh ⟨microseconds deadline - s.numberOfPeriods * d.period, microseconds burst,
        microseconds (now - s.cycleStartTime)⟩ ↔
      CreatedAligned (s, d) (.createInteractive stack canSteal deadline burst, now) := by
  have ht : s.createInteractive stack canSteal deadline burst = t := by
    simp only [step, Option.ite_none_left_eq_some, Option.some.injEq] at hs
    exact hs.2
  have hdl : (t.heap s.fresh).deadline = deadline := by
    rw [← ht]
    simp [State.createInteractive, State.create]
  have hstart : t.schedulerStartTime = s.schedulerStartTime := by
    rw [← ht]
    rfl
  have hcycle : t.cycleStartTime = s.cycleStartTime := by
    rw [← ht]
    rfl
  simp only [Agrees, CreatedAligned, hdl, hstart, hcycle, record_error]

/-- A step that creates an interactive task records it with a deadline that agrees exactly when
the cycle is aligned. -/
theorem recordsDeadline_iff {x y : State × Decider} {l : Label × Int}
    (hs : decidedStep x l = some y) : RecordsDeadline x l ↔ CreatedAligned x l := by
  obtain ⟨s, d⟩ := x
  obtain ⟨l, now⟩ := l
  simp only [RecordsDeadline, hs, Option.some.injEq, forall_eq']
  obtain ⟨t, ht, rfl⟩ := observe_eq_some.mp hs
  cases l with
  | createInteractive stack canSteal deadline burst =>
    rw [← agrees_record s t d now ht]
    constructor
    · intro h
      obtain ⟨entry, hrec, hagree⟩ := h stack canSteal deadline burst rfl
      obtain rfl : _ = entry := List.singleton_inj.mp (List.append_cancel_left hrec)
      exact hagree
    · intro h stack' canSteal' deadline' burst' heq
      exact ⟨_, rfl, h⟩
  | _ => exact iff_of_true (by simp) trivial

/-- In a run of the scheduler with its decider, every interactive task is recorded with a
deadline that agrees with the one of the dispatcher exactly when every interactive task is
created in a cycle that began `numberOfPeriods` periods after the scheduler. -/
theorem deadlines_agree_iff (thiefSizes : List Nat) (start period : Int)
    (ls : List (Label × Int)) (x : State × Decider)
    (hr : run decidedStep (initial thiefSizes start, { period }) ls = some x) :
    Along decidedStep RecordsDeadline (initial thiefSizes start, { period }) ls ↔
      Along decidedStep CreatedAligned (initial thiefSizes start, { period }) ls :=
  along_congr_of_run (I := fun _ => True) (fun _ _ _ _ _ _ => trivial)
    (fun _ _ _ _ hs => recordsDeadline_iff hs) trivial hr

/-- Before the first cycle no task is created aligned: the counter stands at its largest value,
while the cycle seems to have begun before the scheduler. -/
theorem not_createdAligned_of_first {x : State × Decider} (hcycles : x.1.cycles = 0)
    (hcycle : x.1.cycleStartTime ≤ x.1.schedulerStartTime) (hperiod : 1 ≤ x.2.period)
    (stack : StackKind) (canSteal : Bool) (deadline burst now : Int) :
    ¬ CreatedAligned x (.createInteractive stack canSteal deadline burst, now) := by
  have hn : x.1.numberOfPeriods = 2 ^ 32 - 1 := by simp [State.numberOfPeriods, hcycles]
  have hmod := Int.tmod_lt_of_pos deadline (show (0 : Int) < 1000 by omega)
  have hmod' := Int.lt_tmod_of_pos deadline (show (0 : Int) < 1000 by omega)
  simp only [CreatedAligned, hn]
  omega

/-- One schedule of one slot for both modes. -/
def oneSlot : List RealTimeSchedule := [⟨0, 1000000, 0⟩]

/-- The first cycle begins right when the scheduler starts, and then a task is created with a
deadline of 5 ms. -/
def alignedRun : List (Label × Int) :=
  [(.setSchedule oneSlot oneSlot, 0), (.main { now := 0 }, 0), (.main { now := 0 }, 0),
    (.main { now := 0 }, 0), (.main { now := 0 }, 0),
    (.createInteractive .standAlone false 5000000 1000, 20000)]

theorem deadlines_agree_alignedRun : ∃ x,
    run decidedStep (initial [0] 0, { period := 0 }) alignedRun = some x ∧ x.1.cycles = 1 ∧
    x.2.interactiveTaskRecord = [⟨5000, 1, 20⟩] ∧
    Along decidedStep RecordsDeadline (initial [0] 0, { period := 0 }) alignedRun :=
  ⟨_, rfl, by decide, by decide,
    (deadlines_agree_iff [0] 0 0 alignedRun _ rfl).mpr (by decide)⟩

/-- The same task, created before the first cycle. -/
theorem deadlines_differ_firstTask : ∃ x y,
    run decidedStep (initial [0] 0, { period := 0 }) [(.setSchedule oneSlot oneSlot, 0)] =
      some x ∧
    decidedStep x (.createInteractive .standAlone false 5000000 1000, 0) = some y ∧
    y.2.interactiveTaskRecord = [⟨5000 - 4294967295000, 1, 0⟩] ∧
    y.1.schedulerStartTime + (y.1.heap x.1.fresh).deadline - y.1.cycleStartTime = 5000000 :=
  ⟨_, _, rfl, rfl, by decide, by decide⟩

end JamSched.Rib
