import JamSched.Rib.Lifecycle

/-!
# Deleted tasks are settled

The two steps that delete a task before its time are the hand-over without a worker, and
`EndTask` of a real-time task that has given up the processor. Runs without them delete a task
only when it has finished or was cancelled, and its notifier was notified.
-/
namespace JamSched.Rib

open Machine

/-- The task gives up the processor and has not finished. -/
def TaskAction.leaves : TaskAction → Bool
  | .yield | .block => true
  | .lock fails => 20 ≤ fails
  | .finish => false

/-- A real-time task keeps the processor until it finishes, and a hand-over finds a worker. -/
def Gentle (s : State) : Label → Prop
  | .task a => s.activeType = some .realTime → a.leaves = false
  | .main _ => match s.pc with
    | .handOver _ (_ :: _) => ∃ n ∈ s.thiefSizes, n < 2 ^ 32 - 1
    | _ => True
  | _ => True

namespace Lifecycle

variable {s t : State}

theorem taskStep (h : Lifecycle s) {p : Ptr} (ha : s.active = some p) (hpc : s.pc = .running)
    {a : TaskAction} (hg : Gentle s (.task a)) : Lifecycle (s.taskStep p a) := by
  have hplaced := h.placed.taskStep ha a hpc
  have hrt (hl : a.leaves = true) : (s.heap p).taskType ≠ .realTime := by
    intro hty
    have := hg (by simp [State.activeType, ha, hty])
    simp [hl] at this
  cases a with
  | yield =>
    simp only [State.taskStep] at hplaced ⊢
    split at hplaced
    · rename_i hst
      rw [if_pos hst]
      exact h.yieldActive ha hpc (hrt rfl) hplaced
    · rename_i hst
      rw [if_neg hst]
      exact h
  | block => exact h.block ha hpc (hrt rfl) hplaced
  | lock fails =>
    simp only [State.taskStep] at hplaced ⊢
    split at hplaced
    · rename_i hst
      rw [if_pos hst]
      have hfails : 20 ≤ fails := (spinYields_pos fails).mp hst.2
      exact h.yieldActive ha hpc (hrt (by simpa [TaskAction.leaves] using hfails)) hplaced
    · rename_i hst
      rw [if_neg hst]
      exact h
  | finish => exact h.finish ha hpc hplaced

theorem createBatch {stack : StackKind} {canSteal : Bool} {burst : Int} {thief : Nat}
    (h : Lifecycle s) (hs : s.createBatch stack canSteal burst thief = some t) :
    Lifecycle t := by
  have hplaced := h.placed.createBatch hs
  simp only [State.createBatch] at hs
  split_ifs at hs
  · rw [Option.some.injEq] at hs
    subst hs
    refine h.of_created hplaced rfl rfl (fun q => ?_) rfl rfl rfl rfl rfl rfl
    simp [State.places, State.served, State.create, List.count_cons]
    omega
  · rw [Option.some.injEq] at hs
    subst hs
    refine h.of_created hplaced rfl rfl (fun q => ?_) rfl rfl rfl rfl rfl rfl
    simp [State.places, State.served, State.create, List.count_cons]
    omega

theorem step {l : Label} (h : Lifecycle s) (hg : Gentle s l) (hs : step s l = some t) :
    Lifecycle t := by
  have hplaced := h.placed.step hs
  cases l with
  | main e =>
    simp only [Rib.step, Option.ite_none_right_eq_some] at hs
    have h' : Lifecycle { s with clock := e.now } := h.of_eq rfl rfl
    refine h'.mainStep hs.2 fun site p ps hpc hnone => ?_
    have hpc : s.pc = .handOver site (p :: ps) := hpc
    simp only [Gentle, hpc] at hg
    obtain ⟨n, hn, hlt⟩ := hg
    exact absurd ((getMinThief_eq_none _).mp hnone n hn) (by omega)
  | task a =>
    simp only [Rib.step] at hs
    split at hs
    · rename_i p hpc ha
      rw [Option.some.injEq] at hs
      exact hs ▸ h.taskStep ha hpc hg
    · cases hs
  | createRealTime stack id =>
    simp only [Rib.step, Option.ite_none_left_eq_some, Option.some.injEq] at hs
    obtain ⟨-, rfl⟩ := hs
    refine h.of_created hplaced rfl rfl (fun q => ?_) rfl rfl rfl rfl rfl rfl
    simp [State.places, State.served, State.createRealTime, State.create, List.count_cons]
    omega
  | createInteractive stack canSteal deadline burst =>
    simp only [Rib.step, Option.ite_none_left_eq_some, Option.some.injEq] at hs
    obtain ⟨-, rfl⟩ := hs
    refine h.of_created hplaced rfl rfl (fun q => ?_) rfl rfl rfl rfl rfl rfl
    simp [State.places, State.served, State.createInteractive, State.create]
    omega
  | createBatch stack canSteal burst thief => exact h.createBatch hs
  | wake p =>
    simp only [Rib.step, Option.ite_none_left_eq_some, Option.some.injEq, not_or,
      not_not] at hs
    obtain ⟨⟨-, hp⟩, rfl⟩ := hs
    exact h.wake hp hplaced
  | setSchedule normal greedy =>
    simp only [Rib.step, Option.some.injEq] at hs
    rcases setSchedule_eq s normal greedy with heq | heq <;> rw [← hs, heq]
    · exact h
    · exact h.of_eq rfl rfl
  | shutDown =>
    simp only [Rib.step, Option.some.injEq] at hs
    exact hs ▸ h.of_eq rfl rfl
  | thiefs sizes =>
    simp only [Rib.step, Option.ite_none_right_eq_some, Option.some.injEq] at hs
    exact hs.2 ▸ h.of_eq rfl rfl
  | waiters p notifier futures =>
    simp only [Rib.step, Option.some.injEq] at hs
    exact hs ▸ h.of_eq rfl rfl

end Lifecycle

theorem lifecycle_initial (thiefSizes : List Nat) (start : Int) :
    Lifecycle (initial thiefSizes start) := by
  refine ⟨placed_initial thiefSizes start, fun p hp => ?_, ?_, ?_, fun p hp => ?_, ?_, ?_⟩
  · exact absurd hp (Nat.not_lt_zero p)
  · simp [initial]
  · simp [initial]
  · exact absurd hp (Nat.not_lt_zero p)
  · simp [initial]
  · simp [initial]

instance (s : State) : DecidablePred (Gentle s)
  | .task a => inferInstanceAs (Decidable (s.activeType = some .realTime → a.leaves = false))
  | .main _ => match h : s.pc with
    | .handOver _ (_ :: _) =>
      decidable_of_iff (∃ n ∈ s.thiefSizes, n < 2 ^ 32 - 1) (by simp [Gentle, h])
    | .handOver _ [] | .mainLoop | .running | .top | .rtWait | .rtSpin _ | .slot | .slotLoop
    | .slotCall | .slotWait | .noSchedule | .noScheduleCall | .noScheduleWait
    | .afterHandOver _ | .startTask _ | .ret _ | .stopped | .outOfRange | .deadlock =>
      isTrue (by simp [Gentle, h])
  | .createRealTime .. | .createInteractive .. | .createBatch .. | .wake _ | .setSchedule ..
  | .shutDown | .thiefs _ | .waiters .. => isTrue trivial

instance (s : State) (p : Ptr) : Decidable (s.Settled p) := inferInstanceAs (Decidable (_ ∨ _))

/-- A slot of 100 microseconds with a task, then 900 for other tasks. -/
def sharedSchedule : List RealTimeSchedule := [⟨0, 100000, 1⟩, ⟨100000, 1000000, 0⟩]

/-- A real-time task leaves the processor by `a` in its slot, and a batch task follows. -/
def sharedRun (a : TaskAction) : List Label :=
  [Label.setSchedule sharedSchedule sharedSchedule, .createRealTime .sharedCopy 1,
    .createBatch .sharedCopy false 0 0] ++
    [0, 0, 0, 0, 0, 10, 20].map (fun now => Label.main { now }) ++ [Label.task a] ++
    [50000, 100000, 100010, 100020, 100030, 100040, 100050].map fun now => Label.main { now }

end JamSched.Rib
