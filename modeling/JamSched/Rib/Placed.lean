import JamSched.Rib.Queues

/-!
# Allocated tasks

No step of the main thread finds a task in a new place. Two facts therefore hold in every run: a
task that is found anywhere was allocated, and no real-time task is ever linked in the queues
that `GetAnInteractiveBatchTask` serves.
-/
namespace JamSched.Rib

/-- From `s` to `t` no task is found in a new place, except that one of them may have left
it for the processor. -/
structure Narrows (s t : State) : Prop where
  reached : ∀ p, p ∈ t.places ∨ t.active = some p → p ∈ s.places ∨ s.active = some p
  served : t.served ⊆ s.served
  fresh : t.fresh = s.fresh
  taskType : ∀ p, (t.heap p).taskType = (s.heap p).taskType

theorem Narrows.trans {s t u : State} (h₁ : Narrows s t) (h₂ : Narrows t u) : Narrows s u where
  reached p hp := h₁.reached p (h₂.reached p hp)
  served := List.Subset.trans h₂.served h₁.served
  fresh := h₂.fresh.trans h₁.fresh
  taskType p := (h₂.taskType p).trans (h₁.taskType p)

theorem Shuffles.narrows {s t : State} (h : Shuffles s t) : Narrows s t where
  reached p hp := by rwa [h.active, h.places.mem_iff] at hp
  served := h.served
  fresh := h.fresh
  taskType p := congrArg Prod.fst (congrFun h.fate p)

/-- A step that shortens the lists and keeps the task in the hands of the main thread. -/
theorem Narrows.of_subset {s t : State} (hb : t.bQueue ⊆ s.bQueue)
    (he : t.iEDFPriorityQueue ⊆ s.iEDFPriorityQueue) (hc : t.iCancelStack ⊆ s.iCancelStack)
    (hr : t.rtRegisterTable ⊆ s.rtRegisterTable) (hw : t.waiting ⊆ s.waiting)
    (hh : t.handed ⊆ s.handed) (hch : t.pc.chosen ⊆ s.pc.chosen)
    (hre : t.pc.returned ⊆ s.pc.returned) (ha : t.active = s.active) (hf : t.fresh = s.fresh)
    (hm : ∀ p, (t.heap p).taskType = (s.heap p).taskType) : Narrows s t where
  reached p hp := by
    rw [ha] at hp
    refine hp.imp_left fun h => ?_
    simp only [State.places, State.served, List.mem_append] at h ⊢
    grind
  served p hp := by
    simp only [State.served, List.mem_append] at hp ⊢
    grind
  fresh := hf
  taskType := hm

theorem delete_narrows (s : State) (p : Ptr) : Narrows s (s.delete p) :=
  .of_subset List.erase_subset List.erase_subset List.erase_subset (List.Subset.refl _)
    List.erase_subset (List.Subset.refl _) (List.Subset.refl _) (List.Subset.refl _) rfl rfl
    fun _ => rfl

/-- The cleanup behind a task deletes it or leaves everything as it is. -/
theorem endTask_cases (s : State) (p : Ptr) : s.endTask p = s.delete p ∨ s.endTask p = s := by
  simp only [State.endTask]
  split
  · exact .inl rfl
  · split
    · exact .inl rfl
    · exact .inr rfl
  · split
    · exact .inl rfl
    · exact .inr rfl

/-- A switch deletes at most one task and then runs what was returned, or the main loop. -/
theorem stepRet_cases (s : State) (next : Option Ptr) :
    ∃ u, (u = s ∨ ∃ a, u = s.delete a) ∧ s.stepRet next =
      { u with active := next, pc := next.elim .mainLoop fun _ => .running } := by
  have hend (a : Ptr) : s.endTask a = s ∨ ∃ a', s.endTask a = s.delete a' :=
    (endTask_cases s a).symm.imp_right fun h => ⟨a, h⟩
  simp only [State.stepRet]
  split
  · rename_i hact
    exact ⟨s, .inl rfl, by simp [hact]⟩
  · exact ⟨s, .inl rfl, rfl⟩
  · exact ⟨_, hend _, rfl⟩
  · rename_i a q hact
    split
    · rename_i haq
      exact ⟨s, .inl rfl, by simp [hact, haq]⟩
    · exact ⟨_, hend a, rfl⟩

theorem endTask_narrows (s : State) (p : Ptr) : Narrows s (s.endTask p) := by
  rcases endTask_cases s p with h | h
  · exact h ▸ delete_narrows s p
  · rw [h]
    exact ⟨fun _ h => h, List.Subset.refl _, rfl, fun _ => rfl⟩

theorem handOver_narrows {s : State} {site : Site} {p : Ptr} {ps : List Ptr}
    (hpc : s.pc = .handOver site (p :: ps)) :
    Narrows s { s.handOverOne p with pc := .handOver site ps } := by
  have hsub : ps ⊆ s.pc.chosen := by
    rw [hpc]
    exact List.subset_cons_self p ps
  simp only [State.handOverOne]
  split
  · refine ⟨fun q hq => ?_, fun q hq => ?_, rfl, fun q => ?_⟩
    · refine hq.imp_left fun h => ?_
      simp only [State.places, State.served, hpc, Pc.chosen, Pc.returned, List.mem_append,
        List.mem_cons] at h ⊢
      grind
    · simp only [State.served, Pc.chosen, List.mem_append] at hq ⊢
      exact hq.imp_right fun h => hsub h
    · refine Heap.modify_field (·.taskType) _ _ _ _ fun t => ?_
      simp only [TaskInterface.steal]
      split <;> rfl
  · exact .of_subset List.erase_subset List.erase_subset List.erase_subset
      (List.Subset.refl _) List.erase_subset (List.Subset.refl _) hsub
      (List.nil_subset _) rfl rfl fun _ => rfl

theorem cancelBack_narrows (s : State) (p : Ptr) : Narrows s (s.cancelBack p) := by
  exact .of_subset List.erase_subset List.erase_subset (List.dropLast_subset _)
    (List.Subset.refl _) List.erase_subset (List.Subset.refl _) (List.Subset.refl _)
    (List.Subset.refl _) rfl rfl fun q => Heap.modify_field (·.taskType) _ _ _ _ fun _ => rfl

theorem cancelLoop_narrows {e : Env} {fuel : Nat} {s t : State}
    (h : s.cancelLoop e fuel = some t) : Narrows s t ∧ t.pc = s.pc := by
  refine cancelLoop_rule (I := fun u => Narrows s u ∧ u.pc = s.pc) (fun u p _ hu => ?_) ?_ h
  · exact ⟨hu.1.trans (cancelBack_narrows u p), hu.2⟩
  · exact ⟨⟨fun _ h => h, List.Subset.refl _, rfl, fun _ => rfl⟩, rfl⟩

theorem leaveInteractiveBatch_narrows {s : State} {site : Site} (e : Env)
    (hpc : s.pc = .afterHandOver site) : Narrows s (s.leaveInteractiveBatch site e) := by
  have hidle : s.pc.idle = true := by rw [hpc]; rfl
  simp only [State.leaveInteractiveBatch]
  split
  · apply Shuffles.narrows
    exact .of_ledger hidle rfl rfl
  · rename_i u hu
    obtain ⟨hn, hpu⟩ := cancelLoop_narrows hu
    rw [← hpu] at hidle
    exact hn.trans (takeInteractive_shuffles site hidle).narrows

@[simp] theorem endTask_pc (s : State) (p : Ptr) : (s.endTask p).pc = s.pc := by
  rcases endTask_cases s p with h | h <;> rw [h]
  rfl

/-- A switch moves the returned task to the processor. -/
theorem switch_narrows {s : State} {next : Option Ptr} (hpc : s.pc = .ret next) (pc : Pc)
    (hc : pc.chosen = []) (hr : pc.returned = []) :
    Narrows s { s with active := next, pc := pc } := by
  refine ⟨fun p hp => ?_, fun p hp => ?_, rfl, fun _ => rfl⟩
  · simp only [State.places, State.served, hc, hr, hpc, List.mem_append,
      List.append_nil] at hp ⊢
    rcases hp with hp | rfl
    · grind
    · simp [Pc.returned]
  · simp only [State.served, hc, List.append_nil] at hp ⊢
    exact List.mem_append_left _ hp

theorem stepRet_narrows {s : State} {next : Option Ptr} (hpc : s.pc = .ret next) :
    Narrows s (s.stepRet next) := by
  have hc : (next.elim Pc.mainLoop fun _ => .running).chosen = [] := by cases next <;> rfl
  have hr : (next.elim Pc.mainLoop fun _ => .running).returned = [] := by cases next <;> rfl
  obtain ⟨u, rfl | ⟨a, rfl⟩, heq⟩ := stepRet_cases s next <;> rw [heq]
  · exact switch_narrows hpc _ hc hr
  · have hdel : (s.delete a).pc = .ret next := hpc
    exact (delete_narrows s a).trans (switch_narrows hdel _ hc hr)

theorem mainStep_narrows {s t : State} {e : Env} (h : s.mainStep e = some t) :
    Narrows s t := by
  by_cases hpc : s.pc.Settles
  · cases hs : s.pc with
    | handOver site l =>
      cases l with
      | nil => simp [hs, Pc.Settles] at hpc
      | cons p ps =>
        rw [State.mainStep, hs, Option.some.injEq] at h
        exact h ▸ handOver_narrows hs
    | afterHandOver site =>
      rw [State.mainStep, hs, Option.some.injEq] at h
      exact h ▸ leaveInteractiveBatch_narrows e hs
    | ret next =>
      rw [State.mainStep, hs, Option.some.injEq] at h
      exact h ▸ stepRet_narrows hs
    | _ => simp [hs, Pc.Settles] at hpc
  · exact (mainStep_shuffles hpc h).narrows

/-- What holds of the tasks in every run. -/
structure Placed (s : State) : Prop where
  known : ∀ p, p ∈ s.places ∨ s.active = some p → p < s.fresh
  served : ∀ p ∈ s.served, (s.heap p).taskType ≠ .realTime

theorem mem_places_of_mem_served {s : State} {p : Ptr} (h : p ∈ s.served) : p ∈ s.places := by
  simp only [State.places, List.mem_append]
  grind

/-- Allocated tasks may appear in new places, in those that are served only if they are not
real-time tasks. -/
theorem Placed.grow {s t : State} (h : Placed s) (hf : s.fresh ≤ t.fresh)
    (hk : ∀ p, p ∈ t.places ∨ t.active = some p →
      (p ∈ s.places ∨ s.active = some p) ∨ p < t.fresh)
    (hs : ∀ p ∈ t.served, p ∈ s.served ∨ (t.heap p).taskType ≠ .realTime)
    (ht : ∀ p < s.fresh, (t.heap p).taskType = (s.heap p).taskType) : Placed t where
  known p hp := (hk p hp).elim (fun h' => Nat.lt_of_lt_of_le (h.known p h') hf) id
  served p hp := by
    rcases hs p hp with hp' | hp'
    · rw [ht p (h.known p (.inl (mem_places_of_mem_served hp')))]
      exact h.served p hp'
    · exact hp'

theorem Placed.of_narrows {s t : State} (h : Placed s) (hn : Narrows s t) : Placed t :=
  h.grow (Nat.le_of_eq hn.fresh.symm) (fun p hp => .inl (hn.reached p hp))
    (fun _ hp => .inl (hn.served hp)) fun p _ => hn.taskType p

/-- `Enable` of an allocated task, from whichever place it was taken. -/
theorem Placed.enable {s : State} (h : Placed s) (immediately : Bool) {p : Ptr}
    (hp : p < s.fresh) : Placed (s.enable immediately p) := by
  have hty (q : Ptr) : ((s.enable immediately p).heap q).taskType = (s.heap q).taskType :=
    Heap.modify_field (·.taskType) _ _ _ _ fun _ => rfl
  have hserved (q : Ptr) (hq : q ∈ (s.enable immediately p).served) :
      q ∈ s.served ∨ (q = p ∧ (s.heap q).taskType ≠ .realTime) := by
    simp only [State.served, State.enable, List.mem_append] at hq ⊢
    split_ifs at hq <;> simp_all <;> grind
  refine h.grow (Nat.le_refl _) (fun q hq => ?_) (fun q hq => ?_) fun q _ => hty q
  · simp only [State.places, List.mem_append] at hq ⊢
    rcases hq with (((((hq | hq) | hq) | hq) | hq) | hq)
    · rcases hserved q hq with hq | ⟨rfl, -⟩
      · exact .inl (by grind)
      · exact .inr hp
    all_goals exact .inl (by grind [State.enable])
  · rw [hty]
    exact (hserved q hq).imp_right And.right

/-- A new task has an address that was found nowhere. -/
theorem create_taskType {s : State} {p : Ptr} (t : TaskInterface) (hp : p < s.fresh) :
    ((s.create t).heap p).taskType = (s.heap p).taskType := by
  simp [State.create, Heap.modify_of_ne _ _ (Nat.ne_of_lt hp)]

theorem Placed.created {s t : State} (h : Placed s) (task : TaskInterface)
    (hf : t.fresh = s.fresh + 1) (hh : t.heap = (s.create task).heap)
    (ha : t.active = s.active) (hp : ∀ p ∈ t.places, p ∈ s.places ∨ p = s.fresh)
    (hs : ∀ p ∈ t.served, p ∈ s.served ∨ p = s.fresh ∧ task.taskType ≠ .realTime) :
    Placed t := by
  refine h.grow (hf ▸ Nat.le_succ _) (fun p hp' => ?_) (fun p hp' => ?_) fun p hp' => ?_
  · rw [ha] at hp'
    rcases hp' with hp' | hp'
    · rcases hp p hp' with hp' | rfl
      · exact .inl (.inl hp')
      · exact .inr (hf ▸ Nat.lt_succ_self _)
    · exact .inl (.inr hp')
  · rcases hs p hp' with hp' | ⟨rfl, hty⟩
    · exact .inl hp'
    · rw [hh]
      simpa [State.create] using Or.inr hty
  · rw [hh]
    exact create_taskType task hp'

theorem Placed.taskStep {s : State} (h : Placed s) {p : Ptr} (hp : s.active = some p)
    (a : TaskAction) (hpc : s.pc = .running) : Placed (s.taskStep p a) := by
  have hlt : p < s.fresh := h.known p (.inr hp)
  have hidle : s.pc.chosen = [] ∧ s.pc.returned = [] := by rw [hpc]; exact ⟨rfl, rfl⟩
  have hyield : Placed (s.yieldActive p) := by
    refine (h.enable false hlt).of_narrows ?_
    refine .of_subset ?_ ?_ ?_ ?_ ?_ ?_ ?_ ?_ rfl rfl fun _ => rfl <;>
      simp [State.yieldActive, State.enable, Pc.chosen, Pc.returned]
  cases a with
  | yield =>
    simp only [State.taskStep]
    split
    · exact hyield
    · exact h
  | block =>
    refine h.grow (Nat.le_refl _) (fun q hq => ?_) (fun q hq => ?_) fun _ _ => rfl
    · simp only [State.taskStep, State.places, State.served, List.mem_append, List.mem_cons,
        Pc.chosen, Pc.returned] at hq ⊢
      by_cases hqp : q = p
      · exact .inr (hqp ▸ hlt)
      · exact .inl (by grind)
    · rw [State.served, hidle.1]
      exact .inl hq
  | lock fails =>
    simp only [State.taskStep]
    split
    · exact hyield
    · exact h
  | finish =>
    refine h.of_narrows (.of_subset ?_ ?_ ?_ ?_ ?_ ?_ ?_ ?_ rfl rfl fun q => ?_)
    any_goals simp [State.taskStep, Pc.chosen, Pc.returned]
    exact Heap.modify_field (·.taskType) _ _ _ _ fun _ => rfl

theorem Placed.createBatch {s t : State} (h : Placed s) {stack : StackKind} {canSteal : Bool}
    {burst : Int} {thief : Nat} (hs : s.createBatch stack canSteal burst thief = some t) :
    Placed t := by
  simp only [State.createBatch] at hs
  split_ifs at hs
  · rw [Option.some.injEq] at hs
    subst hs
    refine h.created _ rfl rfl rfl (fun q hq => ?_) fun q hq => .inl hq
    simp only [State.places, List.mem_append, List.mem_cons] at hq ⊢
    by_cases hqf : q = s.fresh
    · exact .inr hqf
    · exact .inl (by simp only [State.create, State.served, List.mem_append] at hq ⊢; grind)
  · rw [Option.some.injEq] at hs
    subst hs
    refine h.created _ rfl rfl rfl (fun q hq => ?_) fun q hq => ?_
    · by_cases hqf : q = s.fresh
      · exact .inr hqf
      · simp only [State.places, State.served, State.create, List.mem_append,
          List.mem_singleton] at hq ⊢
        exact .inl (by grind)
    · by_cases hqf : q = s.fresh
      · exact .inr ⟨hqf, by simp⟩
      · simp only [State.served, State.create, List.mem_append, List.mem_singleton] at hq ⊢
        exact .inl (by grind)

theorem Placed.createInteractive {s : State} (h : Placed s) (stack : StackKind)
    (canSteal : Bool) (deadline burst : Int) :
    Placed (s.createInteractive stack canSteal deadline burst) := by
  refine h.created _ rfl rfl rfl (fun q hq => ?_) fun q hq => ?_
  · by_cases hqf : q = s.fresh
    · exact .inr hqf
    · simp only [State.places, State.served, State.createInteractive, State.create,
        List.mem_append, mem_edfInsert] at hq ⊢
      exact .inl (by grind)
  · by_cases hqf : q = s.fresh
    · exact .inr ⟨hqf, by simp⟩
    · simp only [State.served, State.createInteractive, State.create, List.mem_append,
        mem_edfInsert] at hq ⊢
      exact .inl (by grind)

theorem Placed.createRealTime {s : State} (h : Placed s) (stack : StackKind) (id : Nat) :
    Placed (s.createRealTime stack id) := by
  refine h.created _ rfl rfl rfl (fun q hq => ?_) fun q hq => .inl hq
  by_cases hqf : q = s.fresh
  · exact .inr hqf
  · simp only [State.places, State.served, State.createRealTime, State.create,
      List.mem_append, List.mem_cons] at hq ⊢
    exact .inl (by grind)

theorem setSchedule_eq (s : State) (normal greedy : List RealTimeSchedule) :
    s.setSchedule normal greedy = s ∨ s.setSchedule normal greedy =
      { s with rtScheduleNormal := normal, rtScheduleGreedy := greedy } := by
  simp only [State.setSchedule]
  split
  · split
    · exact .inl rfl
    · exact .inr rfl
  · exact .inl rfl

/-- A change of fields that say nothing about tasks. -/
theorem Placed.of_eq {s t : State} (h : Placed s) (hpc : t.pc = s.pc)
    (hl : t.ledger = s.ledger) : Placed t := by
  simp only [State.ledger, Prod.mk.injEq] at hl
  obtain ⟨hb, he, hc, hr, hw, hh, -, -, ha, hf, hm⟩ := hl
  have hs : t.served = s.served := by rw [State.served, State.served, hb, he, hc, hpc]
  have hp : t.places = s.places := by rw [State.places, State.places, hs, hr, hw, hh, hpc]
  refine h.of_narrows ⟨fun p => by rw [hp, ha]; exact id, hs ▸ List.Subset.refl _, hf, ?_⟩
  exact fun p => congrArg Prod.fst (congrFun hm p)

theorem Placed.step {s t : State} {l : Label} (h : Placed s) (hs : step s l = some t) :
    Placed t := by
  cases l with
  | main e =>
    simp only [Rib.step] at hs
    split at hs
    · have hs' : Placed { s with clock := e.now } := h.of_eq rfl rfl
      exact hs'.of_narrows (mainStep_narrows hs)
    · cases hs
  | task a =>
    simp only [Rib.step] at hs
    split at hs
    · rename_i p hpc ha
      rw [Option.some.injEq] at hs
      exact hs ▸ h.taskStep ha a hpc
    · cases hs
  | createRealTime stack id =>
    simp only [Rib.step, Option.ite_none_left_eq_some, Option.some.injEq] at hs
    exact hs.2 ▸ h.createRealTime stack id
  | createInteractive stack canSteal deadline burst =>
    simp only [Rib.step, Option.ite_none_left_eq_some, Option.some.injEq] at hs
    exact hs.2 ▸ h.createInteractive stack canSteal deadline burst
  | createBatch stack canSteal burst thief => exact h.createBatch hs
  | wake p =>
    simp only [Rib.step, Option.ite_none_left_eq_some, Option.some.injEq, not_or,
      not_not] at hs
    obtain ⟨⟨-, hp⟩, rfl⟩ := hs
    have hlt : p < s.fresh := by
      refine h.known p (.inl ?_)
      simp only [State.places, List.mem_append]
      grind
    refine Placed.enable (h.of_narrows ?_) true hlt
    refine .of_subset ?_ ?_ ?_ ?_ List.erase_subset ?_ ?_ ?_ rfl rfl fun _ => rfl <;>
      exact List.Subset.refl _
  | setSchedule normal greedy =>
    simp only [Rib.step, Option.some.injEq] at hs
    rcases setSchedule_eq s normal greedy with heq | heq <;> rw [← hs, heq]
    · exact h
    · exact h.of_eq rfl rfl
  | shutDown =>
    simp only [Rib.step, Option.some.injEq] at hs
    exact hs ▸ h.of_eq rfl rfl
  | thiefs sizes =>
    simp only [Rib.step, Option.ite_none_right_eq_some, Option.some.injEq] at hs
    exact hs.2 ▸ h.of_eq rfl rfl
  | waiters p notifier futures =>
    simp only [Rib.step, Option.some.injEq] at hs
    exact hs ▸ h.of_eq rfl rfl

theorem placed_initial (thiefSizes : List Nat) (start : Int) :
    Placed (initial thiefSizes start) := by
  constructor <;> simp [initial, State.places, State.served, Pc.chosen, Pc.returned]

end JamSched.Rib
