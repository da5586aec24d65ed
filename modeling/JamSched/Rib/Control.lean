import JamSched.Rib.Placed

/-!
# The loop of GetNextTask

The index, the schedule of the cycle and the start of the cycle are written by the loop
alone: by the end of a real-time slot, a skipped slot and the start of a cycle. Serving
batch and interactive tasks, switching to a task, and everything other threads do leaves
them as they are.
-/
namespace JamSched.Rib

/-- The index names a slot. -/
def State.HasSlot (s : State) : Prop := s.idxRealTimeTask < s.currentSchedule.length

theorem slotNow_eq_none {s : State} : s.slotNow = none ↔ ¬ s.HasSlot := by
  simp [State.slotNow, State.HasSlot]

theorem hasSlot_of_slotNow {s : State} {slot : RealTimeSchedule} (h : s.slotNow = some slot) :
    s.HasSlot := by
  by_contra hs
  rw [slotNow_eq_none.mpr hs] at h
  cases h

/-- The part of the state that only the loop of `GetNextTask` writes. -/
def State.loop (s : State) : List RealTimeSchedule × Nat × Nat × Int :=
  (s.currentSchedule, s.idxRealTimeTask, s.cycles, s.cycleStartTime)

/-- What serving other tasks and switching to a task leave alone. -/
def State.control (s : State) :=
  (s.loop, s.clock, s.rtScheduleNormal, s.rtScheduleGreedy, s.rtRegisterTable,
    fun p => (s.heap p).id)

theorem loop_of_control {s t : State} (h : t.control = s.control) : t.loop = s.loop :=
  congrArg Prod.fst h

theorem hasSlot_congr {s t : State} (h : t.loop = s.loop) : t.HasSlot ↔ s.HasSlot := by
  simp only [State.loop, Prod.mk.injEq] at h
  rw [State.HasSlot, State.HasSlot, h.1, h.2.1]

/-- Places that a call of `GetAnInteractiveBatchTask` from `site` leads to. -/
inductive Serving (site : Site) : Pc → Prop
  | startTask (p : Ptr) : Serving site (.startTask p)
  | handOver (l : List Ptr) : Serving site (.handOver site l)
  | afterHandOver : Serving site (.afterHandOver site)
  | wait : Serving site site.wait
  | deadlock : Serving site .deadlock

theorem enterInteractiveBatch_control (s : State) (site : Site) :
    (s.enterInteractiveBatch site).control = s.control ∧
      Serving site (s.enterInteractiveBatch site).pc := by
  simp only [State.enterInteractiveBatch]
  split
  · exact ⟨rfl, .startTask _⟩
  · exact ⟨rfl, .handOver _⟩
  · exact ⟨rfl, .wait⟩

/-- A write to another field of a task. -/
theorem control_modify (s : State) (p : Ptr) (f : TaskInterface → TaskInterface)
    (hf : ∀ t, (f t).id = t.id) : { s with heap := s.heap.modify p f }.control = s.control := by
  simp only [State.control, State.loop, Heap.modify_field (·.id) _ _ _ _ hf]

theorem handOverOne_control (s : State) (p : Ptr) : (s.handOverOne p).control = s.control := by
  simp only [State.handOverOne]
  split
  · refine control_modify s p _ fun t => ?_
    simp only [TaskInterface.steal]
    split <;> rfl
  · rfl

theorem cancelBack_control (s : State) (p : Ptr) : (s.cancelBack p).control = s.control :=
  control_modify s p ({ · with notified := true }) fun _ => rfl

theorem cancelLoop_control {e : Env} {fuel : Nat} {s t : State}
    (h : s.cancelLoop e fuel = some t) : t.control = s.control :=
  cancelLoop_rule (I := fun u => u.control = s.control)
    (fun u p _ hu => (cancelBack_control u p).trans hu) rfl h

theorem leaveInteractiveBatch_control (s : State) (site : Site) (e : Env) :
    (s.leaveInteractiveBatch site e).control = s.control ∧
      Serving site (s.leaveInteractiveBatch site e).pc := by
  simp only [State.leaveInteractiveBatch]
  split
  · exact ⟨rfl, .deadlock⟩
  · rename_i u hu
    have hc := cancelLoop_control hu
    simp only [State.takeInteractive]
    split
    · exact ⟨hc, .startTask _⟩
    · exact ⟨hc, .startTask _⟩
    · exact ⟨hc, .wait⟩

/-- A switch leaves the slot alone and either runs what was returned or goes back to the
main loop. -/
theorem stepRet_control (s : State) (next : Option Ptr) :
    (s.stepRet next).control = s.control ∧
      ((s.stepRet next).pc = .mainLoop ∧ (s.stepRet next).active = none ∧ next = none ∨
        (s.stepRet next).pc = .running ∧ (s.stepRet next).active = next ∧ next ≠ none) := by
  obtain ⟨u, hu, heq⟩ := stepRet_cases s next
  have hcontrol : u.control = s.control := by
    rcases hu with rfl | ⟨a, rfl⟩ <;> rfl
  rw [heq]
  cases next with
  | none => exact ⟨hcontrol, .inl ⟨rfl, rfl, rfl⟩⟩
  | some q => exact ⟨hcontrol, .inr ⟨rfl, rfl, by simp⟩⟩

/-- Steps of other threads and of the running task leave the slot alone; at most the task
gives the processor back. -/
structure Outside (s : State) (l : Label) (t : State) : Prop where
  loop : t.loop = s.loop
  clock : t.clock = s.clock
  active : t.active = s.active
  pc : t.pc = s.pc ∨ s.pc = .running ∧ t.pc = .top
  fixed : ∀ p < s.fresh, (t.heap p).taskType = (s.heap p).taskType ∧ (t.heap p).id = (s.heap p).id
  registered : s.rtRegisterTable ⊆ t.rtRegisterTable
  plan : t.rtScheduleNormal = s.rtScheduleNormal ∧ t.rtScheduleGreedy = s.rtScheduleGreedy ∨
    l = .setSchedule t.rtScheduleNormal t.rtScheduleGreedy

theorem Outside.refl (s : State) (l : Label) : Outside s l s :=
  ⟨rfl, rfl, rfl, .inl rfl, fun _ _ => ⟨rfl, rfl⟩, List.Subset.refl _, .inl ⟨rfl, rfl⟩⟩

theorem enable_fixed (s : State) (immediately : Bool) (p q : Ptr) :
    ((s.enable immediately p).heap q).taskType = (s.heap q).taskType ∧
      ((s.enable immediately p).heap q).id = (s.heap q).id :=
  ⟨Heap.modify_field (·.taskType) _ _ _ _ fun _ => rfl,
    Heap.modify_field (·.id) _ _ _ _ fun _ => rfl⟩

theorem taskStep_outside {s : State} {p : Ptr} (hpc : s.pc = .running) (a : TaskAction) :
    Outside s (.task a) (s.taskStep p a) := by
  have hyield (a : TaskAction) : Outside s (.task a) (s.yieldActive p) :=
    ⟨rfl, rfl, rfl, .inr ⟨hpc, rfl⟩, fun q _ => enable_fixed s false p q, List.Subset.refl _,
      .inl ⟨rfl, rfl⟩⟩
  cases a with
  | yield =>
    simp only [State.taskStep]
    split
    · exact hyield _
    · exact .refl s _
  | block => exact ⟨rfl, rfl, rfl, .inr ⟨hpc, rfl⟩, fun _ _ => ⟨rfl, rfl⟩, List.Subset.refl _,
      .inl ⟨rfl, rfl⟩⟩
  | lock fails =>
    simp only [State.taskStep]
    split
    · exact hyield _
    · exact .refl s _
  | finish =>
    refine ⟨rfl, rfl, rfl, .inr ⟨hpc, rfl⟩, fun q _ => ⟨?_, ?_⟩, List.Subset.refl _,
      .inl ⟨rfl, rfl⟩⟩
    · exact Heap.modify_field (·.taskType) _ _ _ _ fun _ => rfl
    · exact Heap.modify_field (·.id) _ _ _ _ fun _ => rfl

/-- A label of another thread, or of the task that runs. -/
theorem step_outside {s t : State} {l : Label} (hl : ∀ e, l ≠ .main e)
    (hs : step s l = some t) : Outside s l t := by
  have fixed_of_create (task : TaskInterface) (p : Ptr) (hp : p < s.fresh) :
      ((s.create task).heap p).taskType = (s.heap p).taskType ∧
        ((s.create task).heap p).id = (s.heap p).id := by
    simp [State.create, Heap.modify_of_ne _ _ (Nat.ne_of_lt hp)]
  cases l with
  | main e => exact absurd rfl (hl e)
  | task a =>
    simp only [Rib.step] at hs
    split at hs
    · rename_i p hpc ha
      rw [Option.some.injEq] at hs
      subst hs
      exact taskStep_outside hpc a
    · cases hs
  | createRealTime stack id =>
    simp only [Rib.step, Option.ite_none_left_eq_some, Option.some.injEq] at hs
    obtain ⟨-, rfl⟩ := hs
    exact ⟨rfl, rfl, rfl, .inl rfl, fixed_of_create _, List.subset_cons_self _ _,
      .inl ⟨rfl, rfl⟩⟩
  | createInteractive stack canSteal deadline burst =>
    simp only [Rib.step, Option.ite_none_left_eq_some, Option.some.injEq] at hs
    obtain ⟨-, rfl⟩ := hs
    exact ⟨rfl, rfl, rfl, .inl rfl, fixed_of_create _, List.Subset.refl _,
      .inl ⟨rfl, rfl⟩⟩
  | createBatch stack canSteal burst thief =>
    simp only [Rib.step, State.createBatch] at hs
    split_ifs at hs
    · rw [Option.some.injEq] at hs
      subst hs
      exact ⟨rfl, rfl, rfl, .inl rfl, fixed_of_create _, List.Subset.refl _,
        .inl ⟨rfl, rfl⟩⟩
    · rw [Option.some.injEq] at hs
      subst hs
      exact ⟨rfl, rfl, rfl, .inl rfl, fixed_of_create _, List.Subset.refl _,
        .inl ⟨rfl, rfl⟩⟩
  | wake p =>
    simp only [Rib.step, Option.ite_none_left_eq_some, Option.some.injEq] at hs
    obtain ⟨-, rfl⟩ := hs
    exact ⟨rfl, rfl, rfl, .inl rfl, fun q _ => enable_fixed _ true p q, List.Subset.refl _,
      .inl ⟨rfl, rfl⟩⟩
  | setSchedule normal greedy =>
    simp only [Rib.step, Option.some.injEq] at hs
    rcases setSchedule_eq s normal greedy with heq | heq <;> rw [← hs, heq]
    · exact .refl s _
    · exact ⟨rfl, rfl, rfl, .inl rfl, fun _ _ => ⟨rfl, rfl⟩, List.Subset.refl _, .inr rfl⟩
  | shutDown =>
    simp only [Rib.step, Option.some.injEq] at hs
    subst hs
    exact ⟨rfl, rfl, rfl, .inl rfl, fun _ _ => ⟨rfl, rfl⟩, List.Subset.refl _,
      .inl ⟨rfl, rfl⟩⟩
  | thiefs sizes =>
    simp only [Rib.step, Option.ite_none_right_eq_some, Option.some.injEq] at hs
    obtain ⟨-, rfl⟩ := hs
    exact ⟨rfl, rfl, rfl, .inl rfl, fun _ _ => ⟨rfl, rfl⟩, List.Subset.refl _,
      .inl ⟨rfl, rfl⟩⟩
  | waiters p notifier futures =>
    simp only [Rib.step, Option.some.injEq] at hs
    subst hs
    exact ⟨rfl, rfl, rfl, .inl rfl, fun _ _ => ⟨rfl, rfl⟩, List.Subset.refl _,
      .inl ⟨rfl, rfl⟩⟩

end JamSched.Rib
