import JamSched.Rib.Control

/-!
# What a step does to the active task

The clocks of `GetAnInteractiveBatchTask`, the start of the last dispatch and the active task
are written at three places only: the head of the loop, the return of a task, and the switch
to it. Every other step of the main thread is quiet. Quiet steps also leave the keys of all
tasks alone and take tasks out of the treap at most; other threads insert into it.
-/
namespace JamSched.Rib

/-- What the head of the loop reads and writes. -/
def State.accounts (s : State) : Int × Int × Int × Option Ptr :=
  (s.vClockB, s.vClockI, s.taskStartTime, s.active)

/-- Places at which no task is dispatched, accounted for or switched to. -/
def Pc.plain : Pc → Bool
  | .top | .running | .startTask _ | .ret _ => false
  | _ => true

/-- The frame of a step from a plain place. -/
structure Quiet (s t : State) : Prop where
  accounts : t.accounts = s.accounts
  toContinue : t.toContinue = s.toContinue
  keys : ∀ p, (t.heap p).keys = (s.heap p).keys
  edf : t.iEDFPriorityQueue.Sublist s.iEDFPriorityQueue
  registered : t.rtRegisterTable = s.rtRegisterTable
  running : t.pc ≠ .running
  returned : ∀ p, t.pc ≠ .ret (some p)

/-- Everything a step of the main thread can do to the active task and its account. -/
inductive Turn (s : State) (e : Env) : State → Prop
  | top (hpc : s.pc = .top) : Turn s e (s.stepTop e.now)
  | start (p : Ptr) (hpc : s.pc = .startTask p) :
      Turn s e { s with taskStartTime := e.now, pc := .ret (some p) }
  | switch (next : Option Ptr) (hpc : s.pc = .ret next) : Turn s e (s.stepRet next)
  | dispatch {slot : RealTimeSchedule} {p : Ptr} (hpc : s.pc = .slot)
      (hslot : s.slotNow = some slot) (hin : s.inSlot slot e.now = true)
      (hfind : s.findRegistered slot.taskId e.pick = some p) :
      Turn s e { s with
        currentTime := e.now
        rtRegisterTable := s.rtRegisterTable.erase p
        jitters := s.jitters ++ [e.now - s.cycleStartTime - slot.sTime]
        pc := .ret (some p) }
  | quiet {t : State} (hpc : s.pc.plain = true) (h : Quiet s t) : Turn s e t

section Quiet

variable {s t u : State} {e : Env}

/-- A step that only moves the main thread, the index and the clock of the cycle. -/
theorem Quiet.of_eq (ha : t.accounts = s.accounts) (hc : t.toContinue = s.toContinue)
    (hh : t.heap = s.heap) (he : t.iEDFPriorityQueue = s.iEDFPriorityQueue)
    (hr : t.rtRegisterTable = s.rtRegisterTable) (hrun : t.pc ≠ .running)
    (hret : ∀ p, t.pc ≠ .ret (some p)) : Quiet s t :=
  ⟨ha, hc, fun p => by rw [hh], he ▸ List.Sublist.refl _, hr, hrun, hret⟩

/-- The frame of the steps that serve batch and interactive tasks. -/
structure Serves (s t : State) : Prop where
  accounts : t.accounts = s.accounts
  toContinue : t.toContinue = s.toContinue
  keys : ∀ p, (t.heap p).keys = (s.heap p).keys
  edf : t.iEDFPriorityQueue.Sublist s.iEDFPriorityQueue
  registered : t.rtRegisterTable = s.rtRegisterTable

theorem Serves.refl (s : State) : Serves s s :=
  ⟨rfl, rfl, fun _ => rfl, List.Sublist.refl _, rfl⟩

theorem Serves.trans (h₁ : Serves s t) (h₂ : Serves t u) : Serves s u where
  accounts := h₂.accounts.trans h₁.accounts
  toContinue := h₂.toContinue.trans h₁.toContinue
  keys p := (h₂.keys p).trans (h₁.keys p)
  edf := h₂.edf.trans h₁.edf
  registered := h₂.registered.trans h₁.registered

theorem Serves.quiet (h : Serves s t) (hrun : t.pc ≠ .running)
    (hret : ∀ p, t.pc ≠ .ret (some p)) : Quiet s t :=
  ⟨h.accounts, h.toContinue, h.keys, h.edf, h.registered, hrun, hret⟩

theorem collectExpired_sublist (s : State) (edf stack steal : List Ptr) :
    (s.collectExpired edf stack steal).1.Sublist edf := by
  induction edf generalizing stack steal with
  | nil => exact List.Sublist.refl _
  | cons p edf ih =>
    simp only [State.collectExpired]
    split
    · split
      · exact (ih _ _).trans (List.sublist_cons_self p edf)
      · exact (ih _ _).trans (List.sublist_cons_self p edf)
    · exact List.Sublist.refl _

theorem enterInteractiveBatch_serves (s : State) (site : Site) :
    Serves s (s.enterInteractiveBatch site) := by
  simp only [State.enterInteractiveBatch]
  split
  · exact ⟨rfl, rfl, fun _ => rfl, List.Sublist.refl _, rfl⟩
  · exact ⟨rfl, rfl, fun _ => rfl, collectExpired_sublist s _ _ _, rfl⟩
  · exact ⟨rfl, rfl, fun _ => rfl, List.Sublist.refl _, rfl⟩

theorem handOverOne_serves (s : State) (p : Ptr) : Serves s (s.handOverOne p) := by
  simp only [State.handOverOne]
  split
  · refine ⟨rfl, rfl, fun q => ?_, List.Sublist.refl _, rfl⟩
    exact Heap.modify_field TaskInterface.keys _ _ _ _ fun t => t.steal_keys _
  · exact ⟨rfl, rfl, fun _ => rfl, List.erase_sublist, rfl⟩

theorem cancelBack_serves (s : State) (p : Ptr) : Serves s (s.cancelBack p) := by
  refine ⟨rfl, rfl, fun q => ?_, List.erase_sublist, rfl⟩
  exact Heap.modify_field TaskInterface.keys _ _ _ _ fun _ => rfl

theorem cancelLoop_serves {fuel : Nat} (h : s.cancelLoop e fuel = some t) : Serves s t :=
  cancelLoop_rule (fun u p _ hu => hu.trans (cancelBack_serves u p)) (Serves.refl s) h

theorem takeInteractive_serves (s : State) (site : Site) :
    Serves s (s.takeInteractive site) := by
  obtain ⟨p, edf, hedf, heq⟩ | ⟨p, stack, -, -, heq⟩ | ⟨-, -, heq⟩ := takeInteractive_cases s site
  · rw [heq]
    exact ⟨rfl, rfl, fun _ => rfl, hedf ▸ List.sublist_cons_self p edf, rfl⟩
  · rw [heq]
    exact ⟨rfl, rfl, fun _ => rfl, List.Sublist.refl _, rfl⟩
  · rw [heq]
    exact ⟨rfl, rfl, fun _ => rfl, List.Sublist.refl _, rfl⟩

theorem leaveInteractiveBatch_serves (s : State) (site : Site) (e : Env) :
    Serves s (s.leaveInteractiveBatch site e) := by
  simp only [State.leaveInteractiveBatch]
  split
  · exact ⟨rfl, rfl, fun _ => rfl, List.Sublist.refl _, rfl⟩
  · rename_i u hu
    exact (cancelLoop_serves hu).trans (takeInteractive_serves u site)

/-- A call of `GetAnInteractiveBatchTask` returns nothing by itself. -/
theorem Serving.quiet {site : Site} (hs : Serving site t.pc) (h : Serves s t) : Quiet s t := by
  generalize hpc : t.pc = pc at hs
  cases hs <;> refine h.quiet ?_ ?_ <;> cases site <;> simp [hpc, Site.wait]

end Quiet

theorem mainStep_turn {s t : State} {e : Env} (h : s.mainStep e = some t) : Turn s e t := by
  cases hpc : s.pc with
  | mainLoop =>
    obtain rfl : _ = t := by simpa [State.mainStep, hpc] using h
    refine .quiet (by rw [hpc]; rfl) (.of_eq rfl rfl rfl rfl rfl ?_ ?_) <;> cases s.toContinue <;>
      simp
  | top =>
    obtain rfl : _ = t := by simpa [State.mainStep, hpc] using h
    exact .top hpc
  | rtWait =>
    obtain rfl : _ = t := by simpa [State.mainStep, hpc] using h
    refine .quiet (by rw [hpc]; rfl) ?_
    simp only [State.stepRtWait]
    split
    · exact .of_eq rfl rfl rfl rfl rfl (by simp) (by simp)
    split
    · split <;> exact .of_eq rfl rfl rfl rfl rfl (by simp) (by simp)
    · exact .of_eq rfl rfl rfl rfl rfl (by simp [hpc]) (by simp [hpc])
  | rtSpin ceTime =>
    obtain rfl : _ = t := by simpa [State.mainStep, hpc] using h
    refine .quiet (by rw [hpc]; rfl) ?_
    simp only [State.stepRtSpin]
    split
    · exact .of_eq rfl rfl rfl rfl rfl (by simp [hpc]) (by simp [hpc])
    · exact .of_eq rfl rfl rfl rfl rfl (by simp) (by simp)
  | slot =>
    obtain rfl : _ = t := by simpa [State.mainStep, hpc] using h
    simp only [State.stepSlot]
    split
    · exact .quiet (by rw [hpc]; rfl) (.of_eq rfl rfl rfl rfl rfl (by simp) (by simp))
    rename_i slot hslot
    split
    · rename_i hin
      split
      · rename_i p hp
        exact .dispatch hpc hslot hin hp
      · exact .quiet (by rw [hpc]; rfl) (.of_eq rfl rfl rfl rfl rfl (by simp) (by simp))
    · exact .quiet (by rw [hpc]; rfl) (.of_eq rfl rfl rfl rfl rfl (by simp) (by simp))
  | slotLoop =>
    obtain rfl : _ = t := by simpa [State.mainStep, hpc] using h
    refine .quiet (by rw [hpc]; rfl) ?_
    simp only [State.stepSlotLoop]
    split
    · exact .of_eq rfl rfl rfl rfl rfl (by simp) (by simp)
    · split <;> exact .of_eq rfl rfl rfl rfl rfl (by simp) (by simp)
  | slotCall =>
    obtain rfl : _ = t := by simpa [State.mainStep, hpc] using h
    have hserves : Serves s { s with currentTime := e.now } :=
      ⟨rfl, rfl, fun _ => rfl, List.Sublist.refl _, rfl⟩
    have hcontrol := (enterInteractiveBatch_control { s with currentTime := e.now } .slot).2
    exact .quiet (by rw [hpc]; rfl) (hcontrol.quiet
      (hserves.trans (enterInteractiveBatch_serves _ _)))
  | slotWait =>
    obtain rfl : _ = t := by simpa [State.mainStep, hpc] using h
    refine .quiet (by rw [hpc]; rfl) ?_
    simp only [State.stepSlotWait]
    split
    · exact .of_eq rfl rfl rfl rfl rfl (by simp) (by simp)
    split
    · split <;> exact .of_eq rfl rfl rfl rfl rfl (by simp) (by simp)
    · exact .of_eq rfl rfl rfl rfl rfl (by simp [hpc]) (by simp [hpc])
  | noSchedule =>
    obtain rfl : _ = t := by simpa [State.mainStep, hpc] using h
    refine .quiet (by rw [hpc]; rfl) ?_
    simp only [State.stepNoSchedule]
    split <;> exact .of_eq rfl rfl rfl rfl rfl (by simp) (by simp)
  | noScheduleCall =>
    obtain rfl : _ = t := by simpa [State.mainStep, hpc] using h
    exact .quiet (by rw [hpc]; rfl) ((enterInteractiveBatch_control s _).2.quiet
      (enterInteractiveBatch_serves s _))
  | noScheduleWait =>
    obtain rfl : _ = t := by simpa [State.mainStep, hpc] using h
    exact .quiet (by rw [hpc]; rfl) (.of_eq rfl rfl rfl rfl rfl (by simp) (by simp))
  | handOver site l =>
    cases l with
    | nil =>
      obtain rfl : _ = t := by simpa [State.mainStep, hpc] using h
      exact .quiet (by rw [hpc]; rfl) (.of_eq rfl rfl rfl rfl rfl (by simp) (by simp))
    | cons p ps =>
      rw [State.mainStep, hpc, Option.some.injEq] at h
      subst h
      obtain ⟨h₁, h₂, h₃, h₄, h₅⟩ := handOverOne_serves s p
      exact .quiet (by rw [hpc]; rfl) ⟨h₁, h₂, h₃, h₄, h₅, by simp, by simp⟩
  | afterHandOver site =>
    obtain rfl : _ = t := by simpa [State.mainStep, hpc] using h
    exact .quiet (by rw [hpc]; rfl) ((leaveInteractiveBatch_control s site e).2.quiet
      (leaveInteractiveBatch_serves s site e))
  | startTask p =>
    obtain rfl : _ = t := by simpa [State.mainStep, hpc] using h
    exact .start p hpc
  | ret next =>
    obtain rfl : _ = t := by simpa [State.mainStep, hpc] using h
    exact .switch next hpc
  | running | stopped | outOfRange | deadlock => simp [State.mainStep, hpc] at h

section Aside

/-- The task that a step of another thread, or of the running task, may pass to `Enable`. -/
def Label.enables (s : State) : Label → Option Ptr
  | .task _ => s.active
  | .createInteractive _ _ _ _ => some s.fresh
  | .wake p => some p
  | _ => none

/-- What other threads and the running task do to the active task, the keys and the treap. -/
structure Aside (s : State) (l : Label) (t : State) : Prop where
  outside : Outside s l t
  accounts : t.accounts = s.accounts
  toContinue : t.toContinue = true → s.toContinue = true
  keys : ∀ p < s.fresh, (t.heap p).keys = (s.heap p).keys
  edf : t.iEDFPriorityQueue = s.iEDFPriorityQueue ∨
    ∃ p, l.enables s = some p ∧ t.iEDFPriorityQueue = edfInsert t.heap p s.iEDFPriorityQueue
  times : t.schedulerStartTime = s.schedulerStartTime ∧ t.currentTime = s.currentTime
  fresh : s.fresh ≤ t.fresh
  registered : t.rtRegisterTable = s.rtRegisterTable ∨
    t.rtRegisterTable = s.fresh :: s.rtRegisterTable ∧ s.fresh < t.fresh ∧
      (t.heap s.fresh).taskType = .realTime

variable {s t : State}

theorem enable_keys (s : State) (immediately : Bool) (p q : Ptr) :
    ((s.enable immediately p).heap q).keys = (s.heap q).keys :=
  Heap.modify_field TaskInterface.keys _ _ _ _ fun _ => rfl

theorem enable_edf (s : State) (immediately : Bool) (p : Ptr) :
    (s.enable immediately p).iEDFPriorityQueue = s.iEDFPriorityQueue ∨
      (s.enable immediately p).iEDFPriorityQueue =
        edfInsert (s.enable immediately p).heap p s.iEDFPriorityQueue := by
  by_cases hty : (s.heap p).taskType = .interactive
  · refine .inr ?_
    rw [edfInsert_congr (enable_keys s immediately p)]
    simp [State.enable, hty]
  · exact .inl (by simp [State.enable, hty])

theorem create_keys (s : State) (task : TaskInterface) {p : Ptr} (hp : p < s.fresh) :
    ((s.create task).heap p).keys = (s.heap p).keys := by
  simp [State.create, Heap.modify_of_ne _ _ (Nat.ne_of_lt hp)]

theorem taskStep_aside {p : Ptr} (hpc : s.pc = .running) (hp : s.active = some p)
    (a : TaskAction) :
    Aside s (.task a) (s.taskStep p a) := by
  have hout := taskStep_outside (p := p) hpc a
  have hstay (h : s.taskStep p a = s) : Aside s (.task a) (s.taskStep p a) := by
    rw [h] at hout ⊢
    exact ⟨hout, rfl, id, fun _ _ => rfl, .inl rfl, ⟨rfl, rfl⟩, Nat.le_refl _, .inl rfl⟩
  have hyield (h : s.taskStep p a = s.yieldActive p) : Aside s (.task a) (s.taskStep p a) := by
    rw [h] at hout ⊢
    exact ⟨hout, rfl, id, fun q _ => enable_keys s false p q,
      (enable_edf s false p).imp_right fun h => ⟨p, hp, h⟩, ⟨rfl, rfl⟩, Nat.le_refl _, .inl rfl⟩
  cases a with
  | yield =>
    by_cases hst : (s.heap p).status = .finished
    · exact hstay (by simp [State.taskStep, hst])
    · exact hyield (by simp [State.taskStep, hst])
  | block => exact ⟨hout, rfl, id, fun _ _ => rfl, .inl rfl, ⟨rfl, rfl⟩, Nat.le_refl _, .inl rfl⟩
  | lock fails =>
    by_cases hy : (s.heap p).status ≠ .finished ∧ 0 < spinYields fails 1
    · exact hyield (by simp only [State.taskStep, if_pos hy])
    · exact hstay (by simp only [State.taskStep, if_neg hy])
  | finish =>
    refine ⟨hout, rfl, id, fun q _ => ?_, .inl rfl, ⟨rfl, rfl⟩, Nat.le_refl _, .inl rfl⟩
    exact Heap.modify_field TaskInterface.keys _ _ _ _ fun _ => rfl

theorem step_aside {l : Label} (hl : ∀ e, l ≠ .main e) (hs : step s l = some t) :
    Aside s l t := by
  have hout := step_outside hl hs
  cases l with
  | main e => exact absurd rfl (hl e)
  | task a =>
    simp only [Rib.step] at hs
    split at hs
    · rename_i p hpc ha
      rw [Option.some.injEq] at hs
      subst hs
      exact taskStep_aside hpc ha a
    · cases hs
  | createRealTime stack taskId =>
    simp only [Rib.step, Option.ite_none_left_eq_some, Option.some.injEq] at hs
    obtain ⟨-, rfl⟩ := hs
    refine ⟨hout, rfl, id, fun q hq => create_keys s _ hq, .inl rfl, ⟨rfl, rfl⟩, Nat.le_succ _,
      .inr ⟨rfl, ?_, ?_⟩⟩
    · exact Nat.lt_succ_self _
    · simp [State.createRealTime, State.create]
  | createInteractive stack canSteal deadline burst =>
    simp only [Rib.step, Option.ite_none_left_eq_some, Option.some.injEq] at hs
    obtain ⟨-, rfl⟩ := hs
    exact ⟨hout, rfl, id, fun q hq => create_keys s _ hq, .inr ⟨s.fresh, rfl, rfl⟩, ⟨rfl, rfl⟩,
      Nat.le_succ _, .inl rfl⟩
  | createBatch stack canSteal burst thief =>
    simp only [Rib.step, State.createBatch] at hs
    split_ifs at hs
    · rw [Option.some.injEq] at hs
      subst hs
      exact ⟨hout, rfl, id, fun q hq => create_keys s _ hq, .inl rfl, ⟨rfl, rfl⟩,
        Nat.le_succ _, .inl rfl⟩
    · rw [Option.some.injEq] at hs
      subst hs
      exact ⟨hout, rfl, id, fun q hq => create_keys s _ hq, .inl rfl, ⟨rfl, rfl⟩,
        Nat.le_succ _, .inl rfl⟩
  | wake p =>
    simp only [Rib.step, Option.ite_none_left_eq_some, Option.some.injEq] at hs
    obtain ⟨-, rfl⟩ := hs
    exact ⟨hout, rfl, id, fun q _ => enable_keys _ true p q,
      (enable_edf _ true p).imp_right fun h => ⟨p, rfl, h⟩, ⟨rfl, rfl⟩, Nat.le_refl _, .inl rfl⟩
  | setSchedule normal greedy =>
    simp only [Rib.step, Option.some.injEq] at hs
    rcases setSchedule_eq s normal greedy with heq | heq <;> rw [← hs, heq] at hout ⊢ <;>
      exact ⟨hout, rfl, id, fun _ _ => rfl, .inl rfl, ⟨rfl, rfl⟩, Nat.le_refl _, .inl rfl⟩
  | shutDown =>
    simp only [Rib.step, Option.some.injEq] at hs
    subst hs
    exact ⟨hout, rfl, by simp, fun _ _ => rfl, .inl rfl, ⟨rfl, rfl⟩, Nat.le_refl _, .inl rfl⟩
  | thiefs sizes =>
    simp only [Rib.step, Option.ite_none_right_eq_some, Option.some.injEq] at hs
    obtain ⟨-, rfl⟩ := hs
    exact ⟨hout, rfl, id, fun _ _ => rfl, .inl rfl, ⟨rfl, rfl⟩, Nat.le_refl _, .inl rfl⟩
  | waiters p notifier futures =>
    simp only [Rib.step, Option.some.injEq] at hs
    subst hs
    exact ⟨hout, rfl, id, fun _ _ => rfl, .inl rfl, ⟨rfl, rfl⟩, Nat.le_refl _, .inl rfl⟩

/-- The two ways in which the machine moves. -/
theorem step_turn {l : Label} (hs : step s l = some t) :
    (∃ e, l = .main e ∧ s.clock ≤ e.now ∧ Turn { s with clock := e.now } e t) ∨ Aside s l t := by
  cases l with
  | main e =>
    simp only [Rib.step, Option.ite_none_right_eq_some] at hs
    exact .inl ⟨e, rfl, hs.1, mainStep_turn hs.2⟩
  | _ => exact .inr (step_aside (by simp) hs)

end Aside

section Active

variable {s t : State}

theorem activeType_congr (ha : t.active = s.active)
    (hk : ∀ p, s.active = some p → (t.heap p).taskType = (s.heap p).taskType) :
    t.activeType = s.activeType := by
  cases hs : s.active with
  | none => simp [State.activeType, ha, hs]
  | some p => simp [State.activeType, ha, hs, hk p hs]

theorem stepRet_toContinue (s : State) (next : Option Ptr) :
    (s.stepRet next).toContinue = s.toContinue := by
  obtain ⟨u, rfl | ⟨a, rfl⟩, heq⟩ := stepRet_cases s next <;> rw [heq]
  rfl

end Active

section Register

/-- Only real-time tasks are registered. -/
def State.RegistersRealTime (s : State) : Prop :=
  ∀ p ∈ s.rtRegisterTable, (s.heap p).taskType = .realTime

variable {s t : State}

theorem mem_places_of_registered {p : Ptr} (hp : p ∈ s.rtRegisterTable) : p ∈ s.places := by
  simp only [State.places, List.mem_append]
  grind

theorem Turn.registered {e : Env} (h : Turn s e t) : t.rtRegisterTable ⊆ s.rtRegisterTable := by
  cases h with
  | top hpc =>
    have hl := (stepTop_ledger s e.now).1
    simp only [State.ledger, Prod.mk.injEq] at hl
    exact hl.2.2.2.1 ▸ List.Subset.refl _
  | start p hpc => exact List.Subset.refl _
  | switch next hpc =>
    have hc := (stepRet_control s next).1
    simp only [State.control, Prod.mk.injEq] at hc
    exact hc.2.2.2.2.1 ▸ List.Subset.refl _
  | dispatch hpc hslot hin hfind => exact List.erase_subset
  | quiet _ h => exact h.registered ▸ List.Subset.refl _

theorem State.RegistersRealTime.step {l : Label} (h : s.RegistersRealTime) (hq : Placed s)
    (hs : step s l = some t) : t.RegistersRealTime := by
  intro p hp
  rcases step_turn hs with ⟨e, rfl, hle, hturn⟩ | ha
  · simp only [Rib.step, Option.ite_none_right_eq_some] at hs
    rw [(mainStep_narrows hs.2).taskType]
    exact h p (hturn.registered hp)
  · have hold (hp : p ∈ s.rtRegisterTable) : (t.heap p).taskType = .realTime := by
      have hlt := hq.known p (.inl (mem_places_of_registered hp))
      rw [(ha.outside.fixed p hlt).1]
      exact h p hp
    rcases ha.registered with heq | ⟨heq, -, hty⟩
    · exact hold (heq ▸ hp)
    · rw [heq] at hp
      rcases List.mem_cons.mp hp with rfl | hp
      · exact hty
      · exact hold hp

end Register

end JamSched.Rib
