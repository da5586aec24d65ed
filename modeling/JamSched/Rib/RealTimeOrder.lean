import JamSched.Rib.Cycle
import JamSched.Rib.Once

/-!
# The order of real-time dispatches

A real-time task is dispatched by one call of `GetNextTask`, and the index moves on in another
one, which the task itself makes when it leaves the processor. In between the main thread is
bound to the task: it switches to it, runs it, or waits for the end of its slot. No slot is
checked before the index has moved, unless the scheduler was shut down and no slot is ever
checked again.
-/
namespace JamSched.Rib

open Machine

/-- `GetNextTask` returns the real-time task `p`. -/
structure Dispatches (s : State) (e : Env) (t : State) (p : Ptr) : Prop where
  pc : s.pc = .slot
  step : step s (.main e) = some t
  returned : t.pc = .ret (some p)

/-- What holds of a dispatch in a slot. -/
structure Scheduled (s : State) (e : Env) (t : State) (p : Ptr) (slot : RealTimeSchedule) :
    Prop where
  current : s.slotNow = some slot
  id : (s.heap p).id = slot.taskId
  begun : slot.sTime ≤ e.now - s.cycleStartTime
  ended : e.now - s.cycleStartTime ≤ slot.eTime
  registered : p ∈ s.rtRegisterTable
  removed : p ∉ t.rtRegisterTable
  loop : t.loop = s.loop

/-- The position of the loop in the run. -/
def State.position (s : State) : Nat × Nat := (s.cycles, s.idxRealTimeTask)

/-- The lexicographic order of positions. -/
def Earlier (a b : Nat × Nat) : Prop := Prod.Lex (· < ·) (· < ·) a b

theorem earlier_iff {a b : Nat × Nat} : Earlier a b ↔ a.1 < b.1 ∨ a.1 = b.1 ∧ a.2 < b.2 :=
  Prod.lex_def

/-- The main thread is bound to a real-time task, or was shut down on the way. -/
def State.Bound (s : State) : Prop :=
  match s.pc with
  | .ret (some p) => (s.heap p).taskType = .realTime
  | .running | .top => s.activeType = some .realTime
  | .rtWait | .rtSpin _ | .outOfRange | .stopped => True
  | .ret none | .mainLoop => s.toContinue = false
  | _ => False

section Step

variable {s t : State} {e : Env} {l : Label}

/-- No step moves the position back. -/
theorem position_step (hs : Rib.step s l = some t) :
    t.position = s.position ∨ Earlier s.position t.position := by
  simp only [earlier_iff, State.position]
  rcases step_cases hs with ⟨e, rfl, -, hloop⟩ | ho
  · cases hloop with
    | stays hst =>
      have hl := hst.control
      simp only [State.control, State.loop, Prod.mk.injEq] at hl
      exact .inl (by rw [hl.1.2.1, hl.1.2.2.1])
    | endSlot => exact .inr (.inr ⟨rfl, Nat.lt_succ_self _⟩)
    | skip => exact .inr (.inr ⟨rfl, Nat.lt_succ_self _⟩)
    | dispatch => exact .inl rfl
    | noTask => exact .inl rfl
    | rollover => exact .inr (.inl (Nat.lt_succ_self _))
  · have hl := ho.loop
    simp only [State.loop, Prod.mk.injEq] at hl
    exact .inl (by rw [hl.2.1, hl.2.2.1])

theorem position_of_loop (h : t.loop = s.loop) : t.position = s.position := by
  simp only [State.loop, Prod.mk.injEq] at h
  rw [State.position, State.position, h.2.1, h.2.2.1]

/-- A bound thread stays bound until the index moves. -/
theorem State.Bound.mainStep (h : s.Bound) (hs : s.mainStep e = some t) :
    t.Bound ∧ t.position = s.position ∨ Earlier s.position t.position := by
  have hty := (mainStep_narrows hs).taskType
  cases hpc : s.pc with
  | mainLoop =>
    have hc : s.toContinue = false := by simpa [State.Bound, hpc] using h
    obtain rfl : _ = t := by simpa [State.mainStep, hpc, hc] using hs
    exact .inl ⟨trivial, rfl⟩
  | top =>
    obtain rfl : _ = t := by simpa [State.mainStep, hpc] using hs
    refine .inl ⟨?_, position_of_loop (loop_of_control (Stays.stepTop hpc e.now).control)⟩
    obtain ⟨p, ha, htype⟩ : ∃ p, s.active = some p ∧ (s.heap p).taskType = .realTime := by
      simpa [State.Bound, hpc, State.activeType, Option.map_eq_some_iff] using h
    cases hc : s.toContinue with
    | false => simp [State.stepTop, hc, State.Bound]
    | true =>
      cases hslot : s.slotNow with
      | none => simp [State.stepTop, hc, ha, htype, hslot, State.Bound]
      | some slot =>
        by_cases hlong : endOfRtSlotSpinMax < slot.eTime <;>
          simp [State.stepTop, hc, ha, htype, hslot, hlong, State.Bound]
  | rtWait =>
    obtain rfl : _ = t := by simpa [State.mainStep, hpc] using hs
    refine .inl ⟨?_, position_of_loop (loop_of_control (Stays.stepRtWait hpc e.now).control)⟩
    simp only [State.stepRtWait]
    split
    · trivial
    split
    · split
      · rename_i hc
        simpa [State.Bound] using hc
      · trivial
    · exact h
  | rtSpin ceTime =>
    obtain rfl : _ = t := by simpa [State.mainStep, hpc] using hs
    simp only [State.stepRtSpin]
    split
    · exact .inl ⟨h, rfl⟩
    · exact .inr (earlier_iff.mpr (.inr ⟨rfl, Nat.lt_succ_self _⟩))
  | ret next =>
    obtain rfl : _ = t := by simpa [State.mainStep, hpc] using hs
    obtain ⟨hcontrol, hwhere⟩ := stepRet_control s next
    refine .inl ⟨?_, position_of_loop (loop_of_control hcontrol)⟩
    cases next with
    | none =>
      obtain ⟨hpc', ha, -⟩ | ⟨-, -, hne⟩ := hwhere
      · have hc : (s.stepRet none).toContinue = s.toContinue := stepRet_toContinue s none
        simpa [State.Bound, hpc', hc, hpc] using h
      · exact absurd rfl hne
    | some q =>
      obtain ⟨-, -, hne⟩ | ⟨hpc', ha, -⟩ := hwhere
      · cases hne
      · have hq : (s.heap q).taskType = .realTime := by simpa [State.Bound, hpc] using h
        simp [State.Bound, hpc', State.activeType, ha, hty, hq]
  | running | stopped | outOfRange | deadlock => simp [State.mainStep, hpc] at hs
  | _ => simp [State.Bound, hpc] at h

/-- Other threads, and the task itself, do not release the main thread. -/
theorem State.Bound.of_aside (h : s.Bound) (hq : Placed s) (ha : Aside s l t) : t.Bound := by
  have hact : t.activeType = s.activeType := by
    refine activeType_congr ha.outside.active fun p hp => ?_
    exact (ha.outside.fixed p (hq.known p (.inr hp))).1
  have hstop (hc : s.toContinue = false) : t.toContinue = false := by
    cases hc' : t.toContinue with
    | false => rfl
    | true => simp [ha.toContinue hc'] at hc
  rcases ha.outside.pc with hpc | ⟨hrun, htop⟩
  · cases hs : s.pc with
    | ret next =>
      cases next with
      | none =>
        have hc : s.toContinue = false := by simpa [State.Bound, hs] using h
        simpa [State.Bound, hpc, hs] using hstop hc
      | some p =>
        have hp : (s.heap p).taskType = .realTime := by simpa [State.Bound, hs] using h
        have hlt := hq.known p (.inl (by simp [State.places, hs, Pc.returned]))
        simpa [State.Bound, hpc, hs, (ha.outside.fixed p hlt).1] using hp
    | mainLoop =>
      have hc : s.toContinue = false := by simpa [State.Bound, hs] using h
      simpa [State.Bound, hpc, hs] using hstop hc
    | running | top => simpa [State.Bound, hpc, hs, hact] using h
    | rtWait | rtSpin | outOfRange | stopped => simp [State.Bound, hpc, hs]
    | _ => simp [State.Bound, hs] at h
  · simpa [State.Bound, hrun, htop, hact] using h

theorem State.Bound.step (h : s.Bound) (hq : Placed s) (hs : Rib.step s l = some t) :
    t.Bound ∧ t.position = s.position ∨ Earlier s.position t.position := by
  by_cases hmain : ∃ e, l = .main e
  · obtain ⟨e, rfl⟩ := hmain
    simp only [Rib.step, Option.ite_none_right_eq_some] at hs
    have htick : { s with clock := e.now }.Bound := h
    exact htick.mainStep hs.2
  · have ha := step_aside (fun e he => hmain ⟨e, he⟩) hs
    exact .inl ⟨h.of_aside hq ha, position_of_loop ha.outside.loop⟩

/-- A dispatch serves the slot the loop stands at, and takes its task out of the table. -/
theorem Dispatches.scheduled {p : Ptr} (h : Dispatches s e t p) (hq : Once s) :
    ∃ slot, Scheduled s e t p slot := by
  obtain ⟨hpc, hs, hret⟩ := h
  simp only [Rib.step, Option.ite_none_right_eq_some] at hs
  have hturn := mainStep_turn hs.2
  cases hturn with
  | top htop => simp [hpc] at htop
  | start q hst => simp [hpc] at hst
  | switch next hsw => simp [hpc] at hsw
  | @dispatch slot q _ hslot hin hfind =>
    obtain rfl : q = p := by simpa using hret
    obtain ⟨hmem, hid⟩ := findRegistered_some hfind
    simp only [State.inSlot, Bool.and_eq_true, decide_eq_true_eq] at hin
    refine ⟨slot, hslot, hid, hin.1, hin.2, hmem, ?_, rfl⟩
    have hone := hq.once q
    simp only [State.found, State.places, List.count_append] at hone
    have hperm := (List.perm_cons_erase hmem).count_eq q
    have hmem' : q ∈ s.rtRegisterTable := hmem
    rw [List.count_cons_self] at hperm
    refine List.count_eq_zero.mp ?_
    simp only at hperm ⊢
    omega
  | quiet _ hquiet => exact absurd hret (hquiet.returned p)

/-- A task that is not registered any more is never registered again. -/
theorem not_registered_step {p : Ptr} (hlt : p < s.fresh) (hp : p ∉ s.rtRegisterTable)
    (hs : Rib.step s l = some t) : p < t.fresh ∧ p ∉ t.rtRegisterTable := by
  rcases step_turn hs with ⟨e, rfl, -, hturn⟩ | ha
  · simp only [Rib.step, Option.ite_none_right_eq_some] at hs
    have hfresh := (mainStep_narrows hs.2).fresh
    exact ⟨hfresh ▸ hlt, fun hmem => hp (hturn.registered hmem)⟩
  · refine ⟨Nat.lt_of_lt_of_le hlt ha.fresh, fun hmem => ?_⟩
    rcases ha.registered with heq | ⟨heq, -⟩
    · exact hp (heq ▸ hmem)
    · rw [heq] at hmem
      rcases List.mem_cons.mp hmem with rfl | hmem
      · exact Nat.lt_irrefl _ hlt
      · exact hp hmem

end Step

/-- After a dispatch of `p` at the position `a`. -/
structure Dispatched (a : Nat × Nat) (p : Ptr) (s : State) : Prop where
  once : Once s
  table : s.RegistersRealTime
  known : p < s.fresh
  gone : p ∉ s.rtRegisterTable
  past : Earlier a s.position ∨ s.Bound ∧ s.position = a

theorem earlier_trans {a b c : Nat × Nat} (h₁ : Earlier a b) (h₂ : Earlier b c) :
    Earlier a c := by
  rw [earlier_iff] at *
  omega

theorem Dispatched.step {a : Nat × Nat} {p : Ptr} {s t : State} {l : Label}
    (h : Dispatched a p s) (hs : Rib.step s l = some t) : Dispatched a p t := by
  obtain ⟨hlt, hgone⟩ := not_registered_step h.known h.gone hs
  refine ⟨h.once.step hs, h.table.step h.once.placed hs, hlt, hgone, ?_⟩
  rcases h.past with hpast | ⟨hbound, rfl⟩
  · rcases position_step hs with heq | hlater
    · exact .inl (heq ▸ hpast)
    · exact .inl (earlier_trans hpast hlater)
  · exact (hbound.step h.once.placed hs).symm

/-- In every run, a real-time dispatch serves the slot it is made in, and any two dispatches
have increasing positions and different tasks. -/
theorem dispatches_increase (thiefSizes : List Nat) (start : Int) (ls ms : List Label)
    (s t s' t' : State) (e e' : Env) (p p' : Ptr)
    (hr : run step (initial thiefSizes start) ls = some s) (hd : Dispatches s e t p)
    (hr' : run step t ms = some s') (hd' : Dispatches s' e' t' p') :
    Earlier s.position s'.position ∧ p ≠ p' ∧ p ∉ s'.rtRegisterTable ∧
      (∃ slot, Scheduled s e t p slot) ∧ ∃ slot, Scheduled s' e' t' p' slot := by
  have hinv : Once s ∧ s.RegistersRealTime :=
    run_invariant (I := fun s => Once s ∧ s.RegistersRealTime)
      (fun _ _ _ h hs => ⟨h.1.step hs, h.2.step h.1.placed hs⟩)
      ⟨once_initial thiefSizes start, by simp [initial, State.RegistersRealTime]⟩ hr
  obtain ⟨slot, hsched⟩ := hd.scheduled hinv.1
  have honce := hinv.1.step hd.step
  have hpos : t.position = s.position := position_of_loop hsched.loop
  have hplace : p ∈ t.places := by simp [State.places, hd.returned, Pc.returned]
  have hbound : t.Bound := by
    have hmain := hd.step
    simp only [Rib.step, Option.ite_none_right_eq_some] at hmain
    have hty := (mainStep_narrows hmain.2).taskType p
    simpa [State.Bound, hd.returned, hty] using hinv.2 p hsched.registered
  have hstart : Dispatched s.position p t :=
    ⟨honce, hinv.2.step hinv.1.placed hd.step, honce.placed.known p (.inl hplace),
      hsched.removed, .inr ⟨hbound, hpos⟩⟩
  have hend := run_invariant (I := Dispatched s.position p) (fun _ _ _ h hs => h.step hs)
    hstart hr'
  obtain ⟨slot', hsched'⟩ := hd'.scheduled hend.once
  refine ⟨?_, fun heq => hend.gone (heq ▸ hsched'.registered), hend.gone, ⟨slot, hsched⟩,
    ⟨slot', hsched'⟩⟩
  rcases hend.past with hpast | ⟨hb, -⟩
  · exact hpast
  · simp [State.Bound, hd'.pc] at hb

/-- Two slots of 100 microseconds with a task each. -/
def pairSchedule : List RealTimeSchedule := [⟨0, 100000, 1⟩, ⟨100000, 200000, 2⟩]

/-- Up to the check of the first slot. -/
def pairRun : List Label :=
  [Label.setSchedule pairSchedule pairSchedule, .createRealTime .sharedCopy 1,
    .createRealTime .sharedCopy 2] ++ List.replicate 5 (Label.main { now := 0 })

/-- The first task runs, finishes, and waits for the end of its slot. -/
def pairRest : List Label :=
  [.main { now := 10 }, .task .finish, .main { now := 20 }, .main { now := 100000 }]

theorem dispatches_increase_pairRun : ∃ s t s' t',
    run step (initial [0] 0) pairRun = some s ∧ Dispatches s { now := 10 } t 0 ∧
    run step t pairRest = some s' ∧ Dispatches s' { now := 100010 } t' 1 ∧
    Earlier s.position s'.position :=
  ⟨_, _, _, _, rfl, ⟨rfl, rfl, rfl⟩, rfl, ⟨rfl, rfl, rfl⟩,
    (dispatches_increase [0] 0 pairRun pairRest _ _ _ _ { now := 10 } { now := 100010 } 0 1 rfl
      ⟨rfl, rfl, rfl⟩ rfl ⟨rfl, rfl, rfl⟩).1⟩

end JamSched.Rib
