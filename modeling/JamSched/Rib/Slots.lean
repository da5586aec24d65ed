import JamSched.Rib.Cycle

/-!
# Real-time slots in time

For schedules without gaps the index never runs ahead of the clock: it names a slot only
after the clock has entered it. From the moment the clock enters a slot, the loop therefore
still has to check this slot, and it dispatches a task of the slot's id that is registered,
unless one of two things happens on the way. A real-time task is still active when the loop
skips the slot before, or starts the cycle; the loop then waits for the end of the slot as
if that task had run in it. Or the check comes after the slot is over.
-/
namespace JamSched.Rib

open Machine

section Service

/-- The step from `s` to `t` is the moment at which the clock enters slot `i` of a cycle: the
cycle starts, or a reading before the slot is followed by one in it. The main thread is
inside `GetNextTask` all the while. -/
structure EntersSlot (s t : State) (i : Nat) (slot : RealTimeSchedule) : Prop where
  before : s.pc.inGetNextTask = true
  after : t.pc.inGetNextTask = true
  current : t.currentSchedule[i]? = some slot
  moment : i = 0 ∧ t.cycles = s.cycles + 1 ∨
    t.cycles = s.cycles ∧ s.clock - s.cycleStartTime < slot.sTime ∧
      slot.sTime ≤ t.clock - t.cycleStartTime

/-- For slot `i` of cycle `c`: no real-time task is active when the loop skips the slot before
or starts the cycle, and the clock reading of the check of the slot is not past its end. -/
def OnTime (c i : Nat) (s : State) : Label → Prop
  | .main e =>
    (s.pc = .slot → s.cycles = c → s.idxRealTimeTask + 1 = i →
      ∀ slot ∈ s.slotNow, s.inSlot slot e.now = false → s.activeType ≠ some .realTime) ∧
    (s.pc = .noSchedule → s.cycles + 1 = c → i = 0 → s.activeType ≠ some .realTime) ∧
    (s.pc = .slot → s.cycles = c → s.idxRealTimeTask = i →
      ∀ slot ∈ s.slotNow, e.now - s.cycleStartTime ≤ slot.eTime)
  | _ => True

/-- `GetNextTask` returns a task of id `k` before the index passes slot `i` of cycle `c`. -/
def Returns (c i k : Nat) (s : State) : Prop :=
  s.cycles = c ∧ s.idxRealTimeTask ≤ i ∧ ∃ p ∈ s.pc.returned, (s.heap p).id = k

/-- Slot `i` of cycle `c` is still to be checked. -/
structure Ahead (c i : Nat) (slot : RealTimeSchedule) (s : State) : Prop where
  cycle : s.cycles = c
  slot : s.currentSchedule[i]? = some slot
  index : s.idxRealTimeTask < i ∨ s.idxRealTimeTask = i ∧ s.Watching

variable {s t : State} {e : Env} {c i k : Nat} {slot : RealTimeSchedule}

/-- A registered task of the id is found. -/
theorem findRegistered_ne_none {p : Ptr} (hk : k ≠ 0) (hp : p ∈ s.rtRegisterTable)
    (hid : (s.heap p).id = k) (pick : Nat) : s.findRegistered k pick ≠ none := by
  have hmem : p ∈ s.rtRegisterTable.filter fun p => (s.heap p).id = k := by simp [hp, hid]
  have hpos := List.length_pos_of_mem hmem
  simp only [State.findRegistered, hk, if_false, ne_eq, List.getElem?_eq_none_iff, Nat.not_le]
  exact Nat.mod_lt _ hpos

/-- Before the slot before is left, every step of the loop keeps the slot ahead. -/
theorem Ahead.of_lt (h : Ahead c i slot s) (ht : Timed s) (hlt : s.idxRealTimeTask < i)
    (hon : OnTime c i s (.main e)) (hl : LoopStep s e t) : Ahead c i slot t := by
  have hlen : i < s.currentSchedule.length := (List.getElem?_eq_some_iff.mp h.slot).1
  cases hl with
  | stays hs =>
    have hloop := loop_of_control hs.control
    simp only [State.loop, Prod.mk.injEq] at hloop
    obtain ⟨hsch, hidx, hcyc, -⟩ := hloop
    exact ⟨hcyc.trans h.cycle, hsch ▸ h.slot, .inl (hidx ▸ hlt)⟩
  | endSlot hpc hend =>
    refine ⟨h.cycle, h.slot, ?_⟩
    simp only [State.Watching, and_true]
    omega
  | skip hpc hslot hout =>
    refine ⟨h.cycle, h.slot, ?_⟩
    by_cases hi : s.idxRealTimeTask + 1 = i
    · exact .inr ⟨hi, hon.1 hpc h.cycle hi _ hslot hout⟩
    · exact .inl (by simp only; omega)
  | dispatch hpc hslot hfind => exact ⟨h.cycle, h.slot, .inl hlt⟩
  | noTask hpc hslot hfind => exact ⟨h.cycle, h.slot, .inl hlt⟩
  | rollover hpc =>
    have := ht.outside (by rw [hpc]; rfl)
    simp only [State.HasSlot] at this
    omega

/-- At the slot itself the check dispatches a registered task. -/
theorem Ahead.of_eq (h : Ahead c i slot s) (ht : Timed s) (hclk : s.clock = e.now)
    (hi : s.idxRealTimeTask = i) (hw : s.Watching) (hon : OnTime c i s (.main e))
    (hk : slot.taskId ≠ 0) {p : Ptr} (hp : p ∈ s.rtRegisterTable)
    (hid : (s.heap p).id = slot.taskId) (hl : LoopStep s e t) :
    Ahead c i slot t ∨ Returns c i slot.taskId t := by
  have hnow : s.slotNow = some slot := by rw [State.slotNow, hi]; exact h.slot
  cases hl with
  | stays hs =>
    have hloop := loop_of_control hs.control
    simp only [State.loop, Prod.mk.injEq] at hloop
    obtain ⟨hsch, hidx, hcyc, -⟩ := hloop
    exact .inl ⟨hcyc.trans h.cycle, hsch ▸ h.slot,
      .inr ⟨hidx.trans hi, hs.watching (hasSlot_of_slotNow hnow) hw⟩⟩
  | endSlot hpc hend => simp [State.Watching, hpc] at hw
  | @skip slot' hpc hslot hout =>
    obtain rfl : slot = slot' := by simpa [hnow] using hslot
    have hlate := hon.2.2 hpc h.cycle hi slot hslot
    have hreach := ht.reached (by rintro hnil; simp [State.slotNow, hnil] at hslot)
    rw [ht.current.entryTime_eq hslot] at hreach
    simp only [State.inSlot, Bool.and_eq_false_iff, decide_eq_false_iff_not] at hout
    omega
  | @dispatch slot' q hpc hslot hfind =>
    obtain rfl : slot = slot' := by simpa [hnow] using hslot
    exact .inr ⟨h.cycle, Nat.le_of_eq hi, q, by simp [Pc.returned], (findRegistered_some hfind).2⟩
  | @noTask slot' hpc hslot hfind =>
    obtain rfl : slot = slot' := by simpa [hnow] using hslot
    exact absurd hfind (findRegistered_ne_none hk hp hid _)
  | rollover hpc => simp [State.Watching, hpc] at hw

theorem Ahead.of_outside {l : Label} (h : Ahead c i slot s) (hq : Placed s)
    (ho : Outside s l t) : Ahead c i slot t := by
  have hloop := ho.loop
  simp only [State.loop, Prod.mk.injEq] at hloop
  obtain ⟨hsch, hidx, hcyc, -⟩ := hloop
  refine ⟨hcyc.trans h.cycle, hsch ▸ h.slot, ?_⟩
  rw [hidx]
  refine h.index.imp_right ?_
  rintro ⟨hi, hw⟩
  refine ⟨hi, ?_⟩
  have htype : t.activeType = s.activeType := by
    rw [State.activeType, State.activeType, ho.active]
    cases ha : s.active with
    | none => rfl
    | some p => simp [(ho.fixed p (hq.known p (.inr ha))).1]
  rcases ho.pc with hpc | ⟨hpc, -⟩
  · simpa only [State.Watching, hpc, htype] using hw
  · simp [State.Watching, hpc] at hw

/-- A registered task stays registered until it is returned. -/
theorem registered_step {l : Label} (hq : Placed s) {p : Ptr} (hp : p ∈ s.rtRegisterTable)
    (hs : step s l = some t) :
    (p ∈ t.rtRegisterTable ∨ t.loop = s.loop ∧ p ∈ t.pc.returned) ∧
      (t.heap p).id = (s.heap p).id := by
  have hlt : p < s.fresh := hq.known p (.inl (by simp [State.places, hp]))
  rcases step_cases hs with ⟨e, rfl, -, hl⟩ | ho
  · cases hl with
    | stays h =>
      have hc := h.control
      simp only [State.control, Prod.mk.injEq] at hc
      obtain ⟨-, -, -, -, htab, hids⟩ := hc
      exact ⟨.inl (htab ▸ hp), congrFun hids p⟩
    | @dispatch slot q hpc hslot hfind =>
      refine ⟨?_, rfl⟩
      by_cases hpq : p = q
      · exact .inr ⟨rfl, by simp [Pc.returned, hpq]⟩
      · exact .inl ((List.mem_erase_of_ne hpq).mpr hp)
    | endSlot | skip | noTask | rollover => exact ⟨.inl hp, rfl⟩
  · exact ⟨.inl (ho.registered hp), (ho.fixed p hlt).2⟩

/-- When the clock enters a slot, the slot is still to be checked. -/
theorem EntersSlot.ahead {l : Label} (h : EntersSlot s t i slot) (ht : Timed s)
    (hon : OnTime t.cycles i s l) (hs : step s l = some t) : Ahead t.cycles i slot t := by
  rcases step_cases hs with ⟨e, rfl, hle, hl⟩ | ho
  · rcases h.moment with ⟨rfl, hcyc⟩ | ⟨hcyc, hbefore, -⟩
    · cases hl with
      | stays hst =>
        have := congrArg (·.2.2.1) (loop_of_control hst.control)
        simp only [State.loop] at this
        omega
      | rollover hpc => exact ⟨rfl, h.current, .inr ⟨rfl, hon.2.1 hpc rfl rfl⟩⟩
      | endSlot | skip | dispatch | noTask => simp at hcyc
    · have hsch : t.currentSchedule = s.currentSchedule := by
        cases hl with
        | stays hst => exact congrArg (·.1) (loop_of_control hst.control)
        | rollover hpc => simp at hcyc
        | endSlot | skip | dispatch | noTask => rfl
      have hslot : s.currentSchedule[i]? = some slot := hsch ▸ h.current
      have hlt : s.idxRealTimeTask < i := by
        by_contra hge
        have hreach := ht.reached (by rintro hnil; simp [hnil] at hslot)
        have hmono := ht.current.entryTime_mono (Nat.le_of_not_lt hge)
        rw [ht.current.entryTime_eq hslot] at hmono
        omega
      have hs' : Ahead t.cycles i slot { s with clock := e.now } := ⟨hcyc.symm, hslot, .inl hlt⟩
      exact hs'.of_lt (ht.tick hle) hlt hon hl
  · have hloop := ho.loop
    simp only [State.loop, Prod.mk.injEq] at hloop
    rcases h.moment with ⟨-, hcyc⟩ | ⟨-, hbefore, hafter⟩
    · omega
    · rw [ho.clock, hloop.2.2.2] at hafter
      omega

/-- What is kept from the moment the clock enters the slot until a task is returned. -/
structure Awaiting (c i : Nat) (slot : RealTimeSchedule) (p : Ptr) (s : State) : Prop where
  placed : Placed s
  timed : Timed s
  ahead : Ahead c i slot s
  registered : p ∈ s.rtRegisterTable
  id : (s.heap p).id = slot.taskId

theorem Awaiting.step {l : Label} {p : Ptr} (h : Awaiting c i slot p s) (hk : slot.taskId ≠ 0)
    (hl : l.Contiguous) (hon : OnTime c i s l) (hs : step s l = some t)
    (hnot : ¬ Returns c i slot.taskId t) : Awaiting c i slot p t := by
  have hahead : Ahead c i slot t := by
    rcases step_cases hs with ⟨e, rfl, hle, hloop⟩ | ho
    · have hs' : Ahead c i slot { s with clock := e.now } := ⟨h.ahead.1, h.ahead.2, h.ahead.3⟩
      rcases h.ahead.index with hlt | ⟨hi, hw⟩
      · exact hs'.of_lt (h.timed.tick hle) hlt hon hloop
      · exact (hs'.of_eq (h.timed.tick hle) rfl hi hw hon hk h.registered h.id hloop).resolve_right
          hnot
    · exact h.ahead.of_outside h.placed ho
  obtain ⟨hreg, hid⟩ := registered_step h.placed h.registered hs
  refine ⟨h.placed.step hs, h.timed.step hl hs, hahead, hreg.resolve_right ?_, hid.trans h.id⟩
  rintro ⟨-, hret⟩
  refine hnot ⟨hahead.cycle, ?_, p, hret, hid.trans h.id⟩
  rcases hahead.index with hlt | ⟨hi, -⟩
  · exact Nat.le_of_lt hlt
  · exact Nat.le_of_eq hi

/-- Every registered task is served: if a task of the slot's id is registered when the clock
enters slot `i` of a cycle, `GetNextTask` returns a task of this id before it moves the index
past `i`, in every run that is on time for the slot. -/
theorem slot_served (thiefSizes : List Nat) (start : Int) (ls : List Label) (l : Label)
    (ms : List Label) (s t u : State) (i : Nat) (slot : RealTimeSchedule)
    (hcont : ∀ l' ∈ ls ++ l :: ms, l'.Contiguous)
    (hrun : run step (initial thiefSizes start) ls = some s) (hstep : step s l = some t)
    (henter : EntersSlot s t i slot) (hk : slot.taskId ≠ 0)
    (hreg : ∃ p ∈ t.rtRegisterTable, (t.heap p).id = slot.taskId)
    (hon : Along step (OnTime t.cycles i) s (l :: ms)) (hrest : run step t ms = some u)
    (hpast : t.cycles < u.cycles ∨ t.cycles = u.cycles ∧ i < u.idxRealTimeTask) :
    Visits step (Returns t.cycles i slot.taskId) t ms := by
  intro hnever
  obtain ⟨p, hp, hid⟩ := hreg
  have hset : Along step (fun _ l => l.Contiguous) (initial thiefSizes start) ls :=
    along_of_mem fun l' hl' => hcont l' (List.mem_append_left _ hl')
  have hs : Placed s ∧ Timed s :=
    run_invariant_along (I := fun s => Placed s ∧ Timed s)
      (fun _ _ _ h hl hs => ⟨h.1.step hs, h.2.step hl hs⟩)
      ⟨placed_initial thiefSizes start, timed_initial thiefSizes start⟩ hset hrun
  have ht : Awaiting t.cycles i slot p t :=
    ⟨hs.1.step hstep, hs.2.step (hcont l (by simp)) hstep, henter.ahead hs.2 hon.1 hstep, hp, hid⟩
  have hlabels : Along step (fun _ l => l.Contiguous) t ms :=
    along_of_mem fun l' hl' => hcont l' (by simp [hl'])
  have hu : Awaiting t.cycles i slot p u :=
    run_invariant_always (fun _ _ _ h _ hnot hl hs => h.step hk hl.1 hl.2 hs hnot) ht hnever
      (hlabels.and (hon.2 t hstep)) hrest
  have hcycle := hu.ahead.cycle
  have hindex := hu.ahead.index
  omega

instance (c i : Nat) (s : State) : DecidablePred (OnTime c i s)
  | .main _ =>
    @instDecidableAnd _ _ inferInstance (@instDecidableAnd _ _ inferInstance inferInstance)
  | .task _ | .createRealTime .. | .createInteractive .. | .createBatch .. | .wake _
  | .setSchedule .. | .shutDown | .thiefs _ | .waiters .. => isTrue trivial

instance : DecidablePred Label.Contiguous
  | .setSchedule _ _ => inferInstanceAs (Decidable (_ ∧ _))
  | .main _ | .task _ | .createRealTime .. | .createInteractive .. | .createBatch .. | .wake _
  | .shutDown | .thiefs _ | .waiters .. => isTrue trivial

instance (c i k : Nat) : DecidablePred (Returns c i k) := fun _ =>
  inferInstanceAs (Decidable (_ ∧ _ ∧ _))

/-- One slot of 100 microseconds that fills the cycle. -/
def fullSchedule : List RealTimeSchedule := [⟨0, 100000, 1⟩]

/-- Two tasks of the same id wait for their slots, and the main thread is about to start the
first cycle. -/
def beforeFirstCycle : List Label :=
  [Label.setSchedule fullSchedule fullSchedule, .createRealTime .sharedCopy 1,
    .createRealTime .sharedCopy 1] ++ [0, 0, 0].map fun now => Label.main { now }

/-- The first cycle: a task is dispatched, finishes, and the slot is waited out. -/
def firstCycle : List Label :=
  [10, 20, 30].map (fun now => Label.main { now }) ++ [Label.task .finish] ++
    [50000, 100000].map fun now => Label.main { now }

theorem slot_served_firstCycle : ∃ s t u,
    run step (initial [0] 0) beforeFirstCycle = some s ∧ step s (.main { now := 0 }) = some t ∧
      run step t firstCycle = some u ∧ u.idxRealTimeTask = 1 ∧
      Visits step (Returns t.cycles 0 1) t firstCycle := by
  refine ⟨_, _, _, rfl, rfl, rfl, rfl, ?_⟩
  refine slot_served [0] 0 beforeFirstCycle (.main { now := 0 }) firstCycle _ _ _ 0
    ⟨0, 100000, 1⟩ (by decide) rfl rfl ⟨rfl, rfl, rfl, .inl ⟨rfl, rfl⟩⟩ (by decide) (by decide)
    (by decide) rfl (.inr ⟨rfl, by decide⟩)

/-- The first cycle up to the moment at which the second one starts. -/
def upToSecondCycle : List Label :=
  beforeFirstCycle ++ [Label.main { now := 0 }] ++ firstCycle ++ [Label.main { now := 100000 }]

/-- The second cycle: the loop is in the case of a real-time task, the finished one, and
waits for the end of the slot. -/
def secondCycle : List Label := [100000, 200000].map fun now => .main { now }

/-- The slot at the start of the second cycle is lost although a task is registered. -/
theorem slot_not_served_secondCycle : ∃ s t u,
    (∀ l ∈ upToSecondCycle ++ .main { now := 100000 } :: secondCycle, l.Contiguous) ∧
      run step (initial [0] 0) upToSecondCycle = some s ∧
      step s (.main { now := 100000 }) = some t ∧ EntersSlot s t 0 ⟨0, 100000, 1⟩ ∧
      run step t secondCycle = some u ∧ t.cycles = u.cycles ∧ 0 < u.idxRealTimeTask ∧
      Always step (fun v => ∃ p ∈ v.rtRegisterTable, (v.heap p).id = 1) t secondCycle ∧
      ¬ Visits step (Returns t.cycles 0 1) t secondCycle := by
  refine ⟨_, _, _, by decide, rfl, rfl, ⟨rfl, rfl, rfl, .inl ⟨rfl, rfl⟩⟩, rfl, rfl, by decide,
    by decide, ?_⟩
  rw [Visits, not_not]
  decide

end Service

end JamSched.Rib
