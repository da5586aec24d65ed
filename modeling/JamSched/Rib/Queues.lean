import JamSched.Rib.Step

/-!
# Where the tasks are

Most steps of the main thread read the clock and the schedule and leave every task where it
is. The others move a task between the queues, the hands of `GetAnInteractiveBatchTask` and
the processor. Only at three places does the main thread settle the fate of a task: where it
hands a task over, cancels tasks, or leaves the context of one.
-/
namespace JamSched.Rib

/-- Tasks in the hands of `GetAnInteractiveBatchTask`. -/
def Pc.chosen : Pc → List Ptr
  | .handOver _ toStealTasks => toStealTasks
  | .startTask p => [p]
  | _ => []

/-- The task `GetNextTask` has returned. -/
def Pc.returned : Pc → List Ptr
  | .ret (some p) => [p]
  | _ => []

namespace State

/-- Tasks that `GetAnInteractiveBatchTask` chooses from, and those it has chosen. -/
def served (s : State) : List Ptr :=
  s.bQueue ++ s.iEDFPriorityQueue ++ s.iCancelStack ++ s.pc.chosen

/-- Every place in which a task that does not run is found. -/
def places (s : State) : List Ptr :=
  s.served ++ s.rtRegisterTable ++ s.waiting ++ s.handed ++ s.pc.returned

/-- The fields of a task that decide its fate. -/
def fate (s : State) (p : Ptr) : TaskType × TaskStatus × Bool :=
  ((s.heap p).taskType, (s.heap p).status, (s.heap p).notified)

/-- Everything but the place of the main thread that decides where a task is. -/
def ledger (s : State) :=
  (s.bQueue, s.iEDFPriorityQueue, s.iCancelStack, s.rtRegisterTable, s.waiting, s.handed,
    s.deleted, s.cancelled, s.active, s.fresh, s.fate)

end State

/-- From `s` to `t` tasks at most change places: none is created, deleted, cancelled, woken
or finished, and the active one stays. -/
structure Shuffles (s t : State) : Prop where
  places : t.places.Perm s.places
  served : t.served ⊆ s.served
  waiting : t.waiting = s.waiting
  deleted : t.deleted = s.deleted
  cancelled : t.cancelled = s.cancelled
  active : t.active = s.active
  fresh : t.fresh = s.fresh
  fate : t.fate = s.fate
  running : t.pc ≠ .running

/-- The main thread has no task in its hands and none runs on it. -/
def Pc.idle : Pc → Bool
  | .handOver _ (_ :: _) | .startTask _ | .ret (some _) | .running => false
  | _ => true

theorem Pc.idle_iff {pc : Pc} :
    pc.idle = true ↔ pc.chosen = [] ∧ pc.returned = [] ∧ pc ≠ .running := by
  rcases pc with _ | _ | _ | _ | _ | _ | _ | _ | _ | _ | _ | _ | ⟨_, _ | _⟩ | _ | _ |
    (_ | _) | _ | _ | _ <;> simp [Pc.idle, Pc.chosen, Pc.returned]

theorem Shuffles.of_ledger {s t : State} (hs : s.pc.idle = true) (ht : t.pc.idle = true)
    (hl : t.ledger = s.ledger) : Shuffles s t := by
  rw [Pc.idle_iff] at hs ht
  simp only [State.ledger, Prod.mk.injEq] at hl
  obtain ⟨hb, he, hc, hr, hw, hh, hd, hx, ha, hf, hm⟩ := hl
  have hserved : t.served = s.served := by
    rw [State.served, State.served, hb, he, hc, hs.1, ht.1]
  refine ⟨?_, ?_, hw, hd, hx, ha, hf, hm, ht.2.2⟩
  · rw [State.places, State.places, hserved, hr, hw, hh, hs.2.1, ht.2.1]
  · rw [hserved]
    exact List.Subset.refl _

section Quiet

variable {s : State}

theorem stepTop_ledger (s : State) (now : Int) :
    (s.stepTop now).ledger = s.ledger ∧ (s.stepTop now).pc.idle = true := by
  simp only [State.stepTop]
  split
  · exact ⟨rfl, rfl⟩
  split
  · exact ⟨rfl, rfl⟩
  split
  · exact ⟨rfl, rfl⟩
  · split
    · exact ⟨rfl, rfl⟩
    · split <;> exact ⟨rfl, rfl⟩
  · -- the burst of the active task is the only field of a task that is written
    refine ⟨?_, rfl⟩
    simp only [State.ledger, Prod.mk.injEq, true_and]
    funext q
    exact Heap.modify_field (fun t => (t.taskType, t.status, t.notified)) _ _ _ _ fun _ => rfl

theorem stepRtWait_ledger (hpc : s.pc.idle = true) (now : Int) :
    (s.stepRtWait now).ledger = s.ledger ∧ (s.stepRtWait now).pc.idle = true := by
  simp only [State.stepRtWait]
  split
  · exact ⟨rfl, rfl⟩
  split
  · split <;> exact ⟨rfl, rfl⟩
  · exact ⟨rfl, hpc⟩

theorem stepRtSpin_ledger (hpc : s.pc.idle = true) (ceTime now : Int) :
    (s.stepRtSpin ceTime now).ledger = s.ledger ∧ (s.stepRtSpin ceTime now).pc.idle = true := by
  simp only [State.stepRtSpin]
  split
  · exact ⟨rfl, hpc⟩
  · exact ⟨rfl, rfl⟩

theorem stepSlotLoop_ledger (s : State) (now : Int) :
    (s.stepSlotLoop now).ledger = s.ledger ∧ (s.stepSlotLoop now).pc.idle = true := by
  simp only [State.stepSlotLoop]
  split
  · exact ⟨rfl, rfl⟩
  · split <;> exact ⟨rfl, rfl⟩

theorem stepSlotWait_ledger (hpc : s.pc.idle = true) (now : Int) :
    (s.stepSlotWait now).ledger = s.ledger ∧ (s.stepSlotWait now).pc.idle = true := by
  simp only [State.stepSlotWait]
  split
  · exact ⟨rfl, rfl⟩
  split
  · split <;> exact ⟨rfl, rfl⟩
  · exact ⟨rfl, hpc⟩

theorem stepNoSchedule_ledger (s : State) (e : Env) :
    (s.stepNoSchedule e).ledger = s.ledger ∧ (s.stepNoSchedule e).pc.idle = true := by
  simp only [State.stepNoSchedule]
  split <;> exact ⟨rfl, rfl⟩

theorem noInteractiveBatch_ledger (s : State) (site : Site) :
    (s.noInteractiveBatch site).ledger = s.ledger ∧ (s.noInteractiveBatch site).pc.idle = true := by
  cases site <;> exact ⟨rfl, rfl⟩

end Quiet

section Moves

/-- `find` yields a registered task of the id it looks for. -/
theorem findRegistered_some {s : State} {k pick : Nat} {p : Ptr}
    (h : s.findRegistered k pick = some p) : p ∈ s.rtRegisterTable ∧ (s.heap p).id = k := by
  simp only [State.findRegistered] at h
  split at h
  · cases h
  · simpa using List.mem_of_getElem? h

/-- The slot check either leaves the tasks alone or takes one out of the register table. -/
theorem stepSlot_shuffles {s : State} (e : Env) (hpc : s.pc.idle = true) :
    Shuffles s (s.stepSlot e) := by
  simp only [State.stepSlot]
  split
  · exact .of_ledger hpc rfl rfl
  split
  · split
    · rename_i p hp
      obtain ⟨hc, hr, -⟩ := Pc.idle_iff.mp hpc
      refine ⟨?_, ?_, rfl, rfl, rfl, rfl, rfl, rfl, by simp⟩
      · have hcount := fun q => (List.perm_cons_erase (findRegistered_some hp).1).count_eq q
        rw [State.places, State.served, State.places, State.served, hc, hr]
        refine List.perm_iff_count.mpr fun q => ?_
        simp only [Pc.chosen, Pc.returned, List.count_append, List.count_nil, hcount q,
          List.count_cons]
        omega
      · rw [State.served, State.served, hc]
        exact List.Subset.refl _
    · exact .of_ledger hpc rfl rfl
  · exact .of_ledger hpc rfl rfl

/-- Emptying the expired head of the treap only distributes its tasks. -/
theorem collectExpired_perm (s : State) (edf stack steal : List Ptr) :
    let r := s.collectExpired edf stack steal
    (r.1 ++ r.2.1 ++ r.2.2).Perm (edf ++ stack ++ steal) := by
  induction edf generalizing stack steal with
  | nil => simp [State.collectExpired]
  | cons p edf ih =>
    simp only [State.collectExpired]
    split
    · split
      · refine (ih stack (steal ++ [p])).trans (List.perm_iff_count.mpr fun q => ?_)
        simp only [List.count_append, List.count_cons, List.count_nil]
        omega
      · refine (ih (p :: stack) steal).trans (List.perm_iff_count.mpr fun q => ?_)
        simp only [List.count_append, List.count_cons]
        omega
    · exact .refl _

theorem Shuffles.of_served {s t : State} (hs : s.pc.returned = []) (ht : t.pc.returned = [])
    (hp : t.served.Perm s.served) (hr : t.rtRegisterTable = s.rtRegisterTable)
    (hw : t.waiting = s.waiting) (hh : t.handed = s.handed) (hd : t.deleted = s.deleted)
    (hx : t.cancelled = s.cancelled) (ha : t.active = s.active) (hf : t.fresh = s.fresh)
    (hm : t.fate = s.fate) (hrun : t.pc ≠ .running) : Shuffles s t := by
  refine ⟨?_, hp.subset, hw, hd, hx, ha, hf, hm, hrun⟩
  rw [State.places, State.places, hr, hw, hh, hs, ht]
  exact ((((hp.append_right _).append_right _).append_right _).append_right _)

/-- Up to the hand-over the function moves tasks between the places it serves. -/
theorem enterInteractiveBatch_shuffles {s : State} (site : Site) (hpc : s.pc.idle = true) :
    Shuffles s (s.enterInteractiveBatch site) := by
  obtain ⟨hc, hr, -⟩ := Pc.idle_iff.mp hpc
  simp only [State.enterInteractiveBatch]
  split
  · rename_i p bs _ hb
    refine .of_served hr rfl ?_ rfl rfl rfl rfl rfl rfl rfl rfl (by simp)
    rw [State.served, State.served, hb, hc]
    refine List.perm_iff_count.mpr fun q => ?_
    simp only [Pc.chosen, List.count_append, List.count_cons, List.count_nil]
    omega
  · refine .of_served hr rfl ?_ rfl rfl rfl rfl rfl rfl rfl rfl (by simp)
    rw [State.served, State.served, hc]
    refine List.perm_iff_count.mpr fun q => ?_
    have := (collectExpired_perm s s.iEDFPriorityQueue s.iCancelStack []).count_eq q
    simp only [Pc.chosen, List.count_append, List.count_nil] at this ⊢
    omega
  · obtain ⟨hl, hidle⟩ := noInteractiveBatch_ledger s site
    exact .of_ledger hpc hidle hl

theorem takeInteractive_shuffles {s : State} (site : Site) (hpc : s.pc.idle = true) :
    Shuffles s (s.takeInteractive site) := by
  obtain ⟨hc, hr, -⟩ := Pc.idle_iff.mp hpc
  simp only [State.takeInteractive]
  split
  · rename_i p edf hedf
    refine .of_served hr rfl ?_ rfl rfl rfl rfl rfl rfl rfl rfl (by simp)
    rw [State.served, State.served, hedf, hc]
    refine List.perm_iff_count.mpr fun q => ?_
    simp only [Pc.chosen, List.count_append, List.count_cons, List.count_nil]
    omega
  · rename_i p stack hedf hstack
    refine .of_served hr rfl ?_ rfl rfl rfl rfl rfl rfl rfl rfl (by simp)
    rw [State.served, State.served, hstack, hc]
    refine List.perm_iff_count.mpr fun q => ?_
    simp only [Pc.chosen, List.count_append, List.count_cons, List.count_nil]
    omega
  · obtain ⟨hl, hidle⟩ := noInteractiveBatch_ledger s site
    exact .of_ledger hpc hidle hl

theorem stepSlotCall_shuffles {s : State} (hpc : s.pc.idle = true) (now : Int) :
    Shuffles s (s.stepSlotCall now) := by
  have hpc' : { s with currentTime := now }.pc.idle = true := hpc
  obtain ⟨h₁, h₂, h₃, h₄, h₅, h₆, h₇, h₈, h₉⟩ := enterInteractiveBatch_shuffles .slot hpc'
  exact ⟨h₁, h₂, h₃, h₄, h₅, h₆, h₇, h₈, h₉⟩

theorem startTask_shuffles {s : State} {p : Ptr} (hpc : s.pc = .startTask p) (now : Int) :
    Shuffles s { s with taskStartTime := now, pc := .ret (some p) } := by
  refine ⟨?_, ?_, rfl, rfl, rfl, rfl, rfl, rfl, by simp⟩
  · refine List.perm_iff_count.mpr fun q => ?_
    simp only [State.places, State.served, hpc, Pc.chosen, Pc.returned, List.count_append,
      List.count_nil]
    omega
  · simp only [State.served, hpc, Pc.chosen, List.append_nil]
    exact List.subset_append_left _ _

end Moves

/-- The places at which a step of the main thread creates, changes or drops a task. -/
def Pc.Settles : Pc → Prop
  | .handOver _ (_ :: _) | .afterHandOver _ | .ret _ => True
  | _ => False

/-- Every other step of the main thread only shuffles. -/
theorem mainStep_shuffles {s t : State} {e : Env} (hpc : ¬ s.pc.Settles)
    (h : s.mainStep e = some t) : Shuffles s t := by
  cases hs : s.pc with
  | mainLoop =>
    obtain rfl : _ = t := by simpa [State.mainStep, hs] using h
    refine .of_ledger (by rw [hs]; rfl) ?_ rfl
    cases s.toContinue <;> rfl
  | top =>
    obtain rfl : _ = t := by simpa [State.mainStep, hs] using h
    obtain ⟨hl, hi⟩ := stepTop_ledger s e.now
    exact .of_ledger (by rw [hs]; rfl) hi hl
  | rtWait =>
    obtain rfl : _ = t := by simpa [State.mainStep, hs] using h
    have hidle : s.pc.idle = true := by rw [hs]; rfl
    obtain ⟨hl, hi⟩ := stepRtWait_ledger hidle e.now
    exact .of_ledger hidle hi hl
  | rtSpin ceTime =>
    obtain rfl : _ = t := by simpa [State.mainStep, hs] using h
    have hidle : s.pc.idle = true := by rw [hs]; rfl
    obtain ⟨hl, hi⟩ := stepRtSpin_ledger hidle ceTime e.now
    exact .of_ledger hidle hi hl
  | slot =>
    obtain rfl : _ = t := by simpa [State.mainStep, hs] using h
    exact stepSlot_shuffles e (by rw [hs]; rfl)
  | slotLoop =>
    obtain rfl : _ = t := by simpa [State.mainStep, hs] using h
    obtain ⟨hl, hi⟩ := stepSlotLoop_ledger s e.now
    exact .of_ledger (by rw [hs]; rfl) hi hl
  | slotCall =>
    obtain rfl : _ = t := by simpa [State.mainStep, hs] using h
    exact stepSlotCall_shuffles (by rw [hs]; rfl) e.now
  | slotWait =>
    obtain rfl : _ = t := by simpa [State.mainStep, hs] using h
    have hidle : s.pc.idle = true := by rw [hs]; rfl
    obtain ⟨hl, hi⟩ := stepSlotWait_ledger hidle e.now
    exact .of_ledger hidle hi hl
  | noSchedule =>
    obtain rfl : _ = t := by simpa [State.mainStep, hs] using h
    obtain ⟨hl, hi⟩ := stepNoSchedule_ledger s e
    exact .of_ledger (by rw [hs]; rfl) hi hl
  | noScheduleCall =>
    obtain rfl : _ = t := by simpa [State.mainStep, hs] using h
    exact enterInteractiveBatch_shuffles .noSchedule (by rw [hs]; rfl)
  | noScheduleWait =>
    obtain rfl : _ = t := by simpa [State.mainStep, hs] using h
    exact .of_ledger (by rw [hs]; rfl) rfl rfl
  | handOver site l =>
    cases l with
    | nil =>
      obtain rfl : _ = t := by simpa [State.mainStep, hs] using h
      exact .of_ledger (by rw [hs]; rfl) rfl rfl
    | cons p ps => exact absurd (by simp [hs, Pc.Settles]) hpc
  | startTask p =>
    obtain rfl : _ = t := by simpa [State.mainStep, hs] using h
    exact startTask_shuffles hs e.now
  | afterHandOver site => exact absurd (by simp [hs, Pc.Settles]) hpc
  | ret next => exact absurd (by simp [hs, Pc.Settles]) hpc
  | running | stopped | outOfRange | deadlock => simp [State.mainStep, hs] at h

end JamSched.Rib
