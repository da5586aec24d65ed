import JamSched.Rib.Turn

/-!
# The virtual clocks

`vClockB` and `vClockI` are meant to hold the processor time that was spent on batch and on
interactive tasks. The time is entered at the head of the loop of `GetNextTask`, in every turn
that finds the task active. A history beside the state keeps each dispatch with the moment at
which its task gave up the processor, so that the clocks can be compared with its sums.
-/
namespace JamSched.Rib

open Machine

/-- A task that `GetAnInteractiveBatchTask` returned, with the time of its return. -/
structure Dispatch where
  taskType : TaskType
  start : Int
  deriving DecidableEq, Repr

structure History where
  /-- The dispatch whose task has not given up the processor. -/
  current : Option Dispatch := none
  /-- The others, with the moment at which their task gave it up. -/
  done : List (Dispatch × Int) := []
  deriving DecidableEq, Repr

/-- A task gives up the processor in `SwapOut`, which enters the loop of `GetNextTask`: the
moment is the time of its first turn. -/
def History.next (h : History) (s : State) : Label → History
  | .main e => match s.pc, h.current with
    | .startTask p, _ => { h with current := some ⟨(s.heap p).taskType, e.now⟩ }
    | .top, some d => { current := none, done := (d, e.now) :: h.done }
    | _, _ => h
  | _ => h

/-- The processor time spent on tasks of one type. -/
def History.total (h : History) (type : TaskType) : Int :=
  h.done.foldr (fun x n => (if x.1.taskType = type then x.2 - x.1.start else 0) + n) 0

/-- The machine with its history. -/
abbrev recordedStep : State × History → Label → Option (State × History) :=
  observe step History.next

/-- Both virtual clocks show the time spent on their tasks. -/
def Balanced (x : State × History) : Prop :=
  x.1.vClockB = x.2.total .batch ∧ x.1.vClockI = x.2.total .interactive

instance (x : State × History) : Decidable (Balanced x) := inferInstanceAs (Decidable (_ ∧ _))

/-- At the head of the loop, no time has passed since the dispatch of the task that is still
active, unless this is the first turn since the task gave up the processor; and that turn is
not cut off by a shutdown. -/
def CountedOnce (x : State × History) : Label → Prop
  | .main e => x.1.pc = .top →
    (x.2.current = none → x.1.toContinue = true → x.1.activeType = some .batch →
      e.now = x.1.taskStartTime) ∧
    (x.2.current ≠ none → x.1.toContinue = false → e.now = x.1.taskStartTime)
  | _ => True

instance (x : State × History) (l : Label) : Decidable (CountedOnce x l) :=
  match l with
  | .main _ => inferInstanceAs (Decidable (_ → _))
  | .task _ | .createRealTime _ _ | .createInteractive _ _ _ _ | .createBatch _ _ _ _ | .wake _
  | .setSchedule _ _ | .shutDown | .thiefs _ | .waiters _ _ _ => inferInstanceAs (Decidable True)

/-- What the history knows about the active task. -/
structure Recorded (s : State) (h : History) : Prop where
  placed : Placed s
  table : s.RegistersRealTime
  /-- A dispatch stays current until the loop is entered from its task. -/
  current : ∀ d, h.current = some d → d.start = s.taskStartTime ∧ d.taskType ≠ .realTime ∧
    ((∃ p, s.pc = .ret (some p) ∧ (s.heap p).taskType = d.taskType) ∨
      (s.pc = .running ∨ s.pc = .top) ∧ s.activeType = some d.taskType)
  /-- Otherwise a real-time task runs, or the one that gave up is still the active one; an
  interactive task is left at once. -/
  idle : h.current = none → (s.pc = .running → s.activeType = some .realTime) ∧
    (∀ p, s.pc = .ret (some p) → (s.heap p).taskType = .realTime) ∧
    (s.activeType = some .interactive → s.pc = .ret none)

section Step

variable {s t : State} {h : History} {e : Env} {l : Label}

/-- The head of the loop leaves an interactive task and dispatches nothing. -/
theorem stepTop_pc (s : State) (now : Int) :
    (s.stepTop now).pc ≠ .running ∧ (∀ p, (s.stepTop now).pc ≠ .ret (some p)) ∧
      (s.activeType = some .interactive → (s.stepTop now).pc = .ret none) := by
  simp only [State.stepTop, State.activeType]
  split
  · simp
  split
  · rename_i ha
    simp [ha]
  · rename_i p ha
    split
    · rename_i hty
      simp [ha, hty]
    · rename_i hty
      split
      · simp [ha, hty]
      · split <;> simp [ha, hty]
    · simp

/-- The head of the loop enters the time of the active task. -/
theorem stepTop_vClocks (s : State) (now : Int) :
    (s.stepTop now).vClockB = s.vClockB +
        (if s.toContinue = true ∧ s.activeType = some .batch then now - s.taskStartTime else 0) ∧
      (s.stepTop now).vClockI = s.vClockI +
        (if s.toContinue = true ∧ s.activeType = some .interactive then now - s.taskStartTime
          else 0) := by
  cases hc : s.toContinue with
  | false => simp [State.stepTop, hc]
  | true =>
    cases ha : s.active with
    | none => simp [State.stepTop, State.activeType, hc, ha]
    | some p =>
      cases hty : (s.heap p).taskType with
      | batch => simp [State.stepTop, State.activeType, hc, ha, hty]
      | interactive => simp [State.stepTop, State.activeType, hc, ha, hty]
      | realTime =>
        cases hslot : s.slotNow with
        | none => simp [State.stepTop, State.activeType, hc, ha, hty, hslot]
        | some slot =>
          by_cases hlong : endOfRtSlotSpinMax < slot.eTime <;>
            simp [State.stepTop, State.activeType, hc, ha, hty, hslot, hlong]

/-- A switch enters no time. -/
theorem stepRet_vClocks (s : State) (next : Option Ptr) :
    (s.stepRet next).vClockB = s.vClockB ∧ (s.stepRet next).vClockI = s.vClockI ∧
      (s.stepRet next).taskStartTime = s.taskStartTime := by
  obtain ⟨u, rfl | ⟨a, rfl⟩, heq⟩ := stepRet_cases s next <;> rw [heq] <;> exact ⟨rfl, rfl, rfl⟩

/-- Steps of the main thread leave the type of the active task alone. -/
theorem mainStep_activeType (hs : s.mainStep e = some t) (ha : t.active = s.active) :
    t.activeType = s.activeType :=
  activeType_congr ha fun p _ => (mainStep_narrows hs).taskType p

theorem stepTop_active (s : State) (now : Int) : (s.stepTop now).active = s.active := by
  have hl := (stepTop_ledger s now).1
  simp only [State.ledger, Prod.mk.injEq] at hl
  exact hl.2.2.2.2.2.2.2.2.1

theorem Recorded.mainStep (hi : Recorded s h) (hs : s.mainStep e = some t)
    (hplaced : Placed t) (htable : t.RegistersRealTime) :
    Recorded t (h.next s (.main e)) := by
  have hty := (mainStep_narrows hs).taskType
  cases mainStep_turn hs with
  | top hpc =>
    obtain ⟨hrun, hret, hint⟩ := stepTop_pc s e.now
    have hact := mainStep_activeType hs (stepTop_active s e.now)
    have hnone : (h.next s (.main e)).current = none := by
      cases hc : h.current <;> simp [History.next, hpc, hc]
    refine ⟨hplaced, htable, fun d hd => by simp [hnone] at hd, fun _ => ⟨?_, ?_, ?_⟩⟩
    · exact fun h => absurd h hrun
    · exact fun p h => absurd h (hret p)
    · exact fun h => hint (hact ▸ h)
  | start p hpc =>
    have hnext : h.next s (.main e) = { h with current := some ⟨(s.heap p).taskType, e.now⟩ } := by
      simp [History.next, hpc]
    rw [hnext]
    refine ⟨hplaced, htable, fun d hd => ?_, fun hd => by simp at hd⟩
    obtain rfl : _ = d := by simpa using hd
    refine ⟨rfl, ?_, .inl ⟨p, rfl, rfl⟩⟩
    exact hi.placed.served p (by simp [State.served, hpc, Pc.chosen])
  | switch next hpc =>
    have hnext : h.next s (.main e) = h := by simp [History.next, hpc]
    rw [hnext]
    obtain ⟨-, ⟨hpc', hact, rfl⟩ | ⟨hpc', hact, hne⟩⟩ := stepRet_control s next
    · refine ⟨hplaced, htable, fun d hd => ?_, fun _ => ⟨by simp [hpc'], by simp [hpc'], ?_⟩⟩
      · obtain ⟨-, -, ⟨p, hp, -⟩ | ⟨hp, -⟩⟩ := hi.current d hd <;> simp [hpc] at hp
      · simp [State.activeType, hact]
    · cases next with
      | none => exact absurd rfl hne
      | some q =>
        have hacc := (stepRet_vClocks s (some q)).2.2
        refine ⟨hplaced, htable, fun d hd => ?_, fun hd => ⟨fun _ => ?_, by simp [hpc'], ?_⟩⟩
        · obtain ⟨hstart, hne, ⟨p, hp, hpd⟩ | ⟨hp, -⟩⟩ := hi.current d hd
          · obtain rfl : q = p := by simpa [hpc] using hp
            refine ⟨hstart.trans hacc.symm, hne, .inr ⟨.inl hpc', ?_⟩⟩
            simp [State.activeType, hact, hty, hpd]
          · simp [hpc] at hp
        · simp [State.activeType, hact, hty, (hi.idle hd).2.1 q hpc]
        · simp [State.activeType, hact, hty, (hi.idle hd).2.1 q hpc]
  | @dispatch slot p hpc hslot hin hfind =>
    have hnext : h.next s (.main e) = h := by simp [History.next, hpc]
    rw [hnext]
    have hact := mainStep_activeType hs rfl
    refine ⟨hplaced, htable, fun d hd => ?_, fun hd => ⟨by simp, fun q hq => ?_, fun hint => ?_⟩⟩
    · obtain ⟨-, -, ⟨p, hp, -⟩ | ⟨hp, -⟩⟩ := hi.current d hd <;> simp [hpc] at hp
    · obtain rfl : p = q := by simpa using hq
      exact hi.table p (findRegistered_some hfind).1
    · have := (hi.idle hd).2.2 (hact ▸ hint)
      simp [hpc] at this
  | quiet hpc hq =>
    have hcurrent : h.current = none := by
      cases hc : h.current with
      | none => rfl
      | some d =>
        obtain ⟨-, -, ⟨p, hp, -⟩ | ⟨hp | hp, -⟩⟩ := hi.current d hc <;> simp [hp, Pc.plain] at hpc
    have hnext : h.next s (.main e) = h := by
      simp only [History.next]
      split
      · rename_i p _ hp
        simp [hp, Pc.plain] at hpc
      · rename_i hp _
        simp [hp, Pc.plain] at hpc
      · rfl
    have hacc := hq.accounts
    simp only [State.accounts, Prod.mk.injEq] at hacc
    have hact := mainStep_activeType hs hacc.2.2.2
    rw [hnext]
    refine ⟨hplaced, htable, fun d hd => by simp [hcurrent] at hd, fun _ => ⟨?_, ?_, ?_⟩⟩
    · exact fun hpc => absurd hpc hq.running
    · exact fun p hpc => absurd hpc (hq.returned p)
    · intro hint
      have := (hi.idle hcurrent).2.2 (hact ▸ hint)
      simp [this, Pc.plain] at hpc

theorem Recorded.step (hi : Recorded s h) (hs : step s l = some t) : Recorded t (h.next s l) := by
  have hplaced := hi.placed.step hs
  have htable := hi.table.step hi.placed hs
  by_cases hmain : ∃ e, l = .main e
  · obtain ⟨e, rfl⟩ := hmain
    simp only [Rib.step, Option.ite_none_right_eq_some] at hs
    have htick : Recorded { s with clock := e.now } h :=
      ⟨hi.placed.of_eq rfl rfl, hi.table, hi.current, hi.idle⟩
    exact htick.mainStep hs.2 hplaced htable
  · have ha := step_aside (fun e he => hmain ⟨e, he⟩) hs
    have hnext : h.next s l = h := by
      cases l <;> first | rfl | exact absurd ⟨_, rfl⟩ hmain
    have hact : t.activeType = s.activeType := by
      refine activeType_congr ha.outside.active fun p hp => ?_
      exact (ha.outside.fixed p (hi.placed.known p (.inr hp))).1
    have hret (p : Ptr) (hp : s.pc = .ret (some p)) : (t.heap p).taskType = (s.heap p).taskType :=
      (ha.outside.fixed p (hi.placed.known p (.inl (by simp [State.places, hp, Pc.returned])))).1
    have hacc := ha.accounts
    simp only [State.accounts, Prod.mk.injEq] at hacc
    rw [hnext]
    refine ⟨hplaced, htable, fun d hd => ?_, fun hd => ?_⟩
    · obtain ⟨hstart, hne, hwhere⟩ := hi.current d hd
      refine ⟨hstart.trans hacc.2.2.1.symm, hne, ?_⟩
      rcases ha.outside.pc with hpc | ⟨hrun, htop⟩
      · rw [hpc, hact]
        rcases hwhere with ⟨p, hp, hty⟩ | hwhere
        · exact .inl ⟨p, hp, (hret p hp).trans hty⟩
        · exact .inr hwhere
      · obtain ⟨p, hp, -⟩ | ⟨-, hty⟩ := hwhere
        · simp [hrun] at hp
        · exact .inr ⟨.inr htop, hact.trans hty⟩
    · obtain ⟨hrt, hrets, hint⟩ := hi.idle hd
      rw [hact]
      rcases ha.outside.pc with hpc | ⟨hrun, htop⟩
      · rw [hpc]
        exact ⟨hrt, fun p hp => (hret p hp).trans (hrets p hp), hint⟩
      · rw [htop]
        refine ⟨by simp, by simp, fun h => ?_⟩
        simp [hrt hrun] at h

/-- Away from the head of the loop neither the clocks nor the sums change. -/
theorem vClocks_of_not_top (hpc : s.pc ≠ .top) (hs : step s l = some t) :
    t.vClockB = s.vClockB ∧ t.vClockI = s.vClockI ∧
      ∀ type, (h.next s l).total type = h.total type := by
  have htotal (type : TaskType) : (h.next s l).total type = h.total type := by
    cases l with
    | main e =>
      simp only [History.next]
      split
      · rfl
      · exact absurd ‹_› hpc
      · rfl
    | _ => rfl
  rcases step_turn hs with ⟨e, -, -, hturn⟩ | ha
  · cases hturn with
    | top htop => exact absurd htop hpc
    | start p _ => exact ⟨rfl, rfl, htotal⟩
    | switch next _ =>
      have hc := stepRet_vClocks { s with clock := e.now } next
      exact ⟨hc.1, hc.2.1, htotal⟩
    | dispatch => exact ⟨rfl, rfl, htotal⟩
    | quiet _ hq =>
      have hacc := hq.accounts
      simp only [State.accounts, Prod.mk.injEq] at hacc
      exact ⟨hacc.1, hacc.2.1, htotal⟩
  · have hacc := ha.accounts
    simp only [State.accounts, Prod.mk.injEq] at hacc
    exact ⟨hacc.1, hacc.2.1, htotal⟩

/-- The head of the loop keeps the clocks balanced exactly when it counts what it should. -/
theorem balanced_top (hi : Recorded s h) (hb : Balanced (s, h)) (hpc : s.pc = .top)
    (hs : Rib.step s (.main e) = some t) :
    Balanced (t, h.next s (.main e)) ↔ CountedOnce (s, h) (.main e) := by
  obtain ⟨hbB, hbI⟩ := hb
  simp only at hbB hbI
  simp only [Rib.step, Option.ite_none_right_eq_some] at hs
  obtain rfl : _ = t := by simpa [State.mainStep, hpc] using hs.2
  obtain ⟨hB, hI⟩ := stepTop_vClocks { s with clock := e.now } e.now
  simp only [hpc] at hB hI
  simp only [Balanced, CountedOnce, hpc, forall_const]
  rw [hB, hI]
  have hact : State.activeType { s with clock := e.now, pc := .top } = s.activeType := rfl
  cases hc : h.current with
  | some d =>
    -- the first turn: the time since the dispatch is owed to the clock of its type
    obtain ⟨hstart, hne, ⟨p, hp, -⟩ | ⟨-, hty⟩⟩ := hi.current d hc
    · simp [hpc] at hp
    have htotal (type : TaskType) : (h.next s (.main e)).total type =
        (if d.taskType = type then e.now - s.taskStartTime else 0) + h.total type := by
      simp [History.next, History.total, hpc, hc, hstart]
    rw [htotal, htotal, hact, hty]
    cases hd : d.taskType with
    | realTime => exact absurd hd hne
    | batch =>
      cases s.toContinue <;> simp <;> omega
    | interactive =>
      cases s.toContinue <;> simp <;> omega
  | none =>
    -- another turn: nothing is owed, and only a batch task can still be active
    have hint : s.activeType ≠ some .interactive := fun h => by
      have := (hi.idle hc).2.2 h
      simp [hpc] at this
    have htotal (type : TaskType) : (h.next s (.main e)).total type = h.total type := by
      simp [History.next, hpc, hc]
    rw [htotal, htotal, hact]
    simp only [hint, and_false, if_false]
    by_cases hbatch : s.toContinue = true ∧ s.activeType = some .batch
    · simp only [hbatch, and_self, if_true]
      constructor
      · exact fun hbal => ⟨fun _ _ _ => by omega, fun hne => absurd rfl hne⟩
      · rintro ⟨hnow, -⟩
        have := hnow trivial trivial trivial
        omega
    · simp only [hbatch, if_false]
      refine iff_of_true ⟨by omega, by omega⟩ ⟨fun _ hc hty => ?_, fun hne => absurd rfl hne⟩
      exact absurd ⟨hc, hty⟩ hbatch

/-- A step keeps the clocks balanced exactly when it counts what it should. -/
theorem balanced_step (hi : Recorded s h) (hb : Balanced (s, h)) (hs : step s l = some t) :
    Balanced (t, h.next s l) ↔ CountedOnce (s, h) l := by
  by_cases htop : s.pc = .top ∧ ∃ e, l = .main e
  · obtain ⟨hpc, e, rfl⟩ := htop
    exact balanced_top hi hb hpc hs
  · have hcount : CountedOnce (s, h) l := by
      cases l with
      | main e => exact fun hpc => absurd ⟨hpc, e, rfl⟩ htop
      | _ => trivial
    have hsame : t.vClockB = s.vClockB ∧ t.vClockI = s.vClockI ∧
        ∀ type, (h.next s l).total type = h.total type := by
      by_cases hpc : s.pc = .top
      · have ha := step_aside (fun e he => htop ⟨hpc, e, he⟩) hs
        have hacc := ha.accounts
        simp only [State.accounts, Prod.mk.injEq] at hacc
        refine ⟨hacc.1, hacc.2.1, fun type => ?_⟩
        cases l with
        | main e => exact absurd ⟨hpc, e, rfl⟩ htop
        | _ => rfl
      · exact vClocks_of_not_top hpc hs
    obtain ⟨hB, hI, htotal⟩ := hsame
    obtain ⟨hbB, hbI⟩ := hb
    simp only at hbB hbI
    refine iff_of_true ⟨?_, ?_⟩ hcount
    · rw [hB, hbB, htotal]
    · rw [hI, hbI, htotal]

end Step

theorem recorded_initial (thiefSizes : List Nat) (start : Int) :
    Recorded (initial thiefSizes start) {} := by
  refine ⟨placed_initial thiefSizes start, ?_, ?_, ?_⟩ <;>
    simp [initial, State.RegistersRealTime, State.activeType]

/-- In a run of the main scheduler the virtual clocks always show the time spent on their
tasks exactly when every turn of the loop counts what it should. -/
theorem vClocks_balanced_iff (thiefSizes : List Nat) (start : Int) (ls : List Label) (s : State)
    (hr : run step (initial thiefSizes start) ls = some s) :
    Always recordedStep Balanced (initial thiefSizes start, {}) ls ↔
      Along recordedStep CountedOnce (initial thiefSizes start, {}) ls := by
  obtain ⟨h, hr'⟩ := run_observe History.next {} hr
  refine always_iff_along (I := fun x => Recorded x.1 x.2) ?_ ?_
    (recorded_initial thiefSizes start) ⟨rfl, rfl⟩ hr'
  · rintro x l y hx hs
    obtain ⟨t, ht, rfl⟩ := observe_eq_some.mp hs
    exact hx.step ht
  · rintro x l y hx hb hs
    obtain ⟨t, ht, rfl⟩ := observe_eq_some.mp hs
    exact balanced_step hx hb ht

/-- Two slots of a millisecond without real-time tasks. -/
def idleSchedule : List RealTimeSchedule := [⟨0, 1000000, 0⟩, ⟨1000000, 2000000, 0⟩]

/-- A batch task is dispatched at the start of the first slot and yields at `now`. -/
def batchRun (now : Int) (turns : Nat) : List Label :=
  [Label.setSchedule idleSchedule idleSchedule, .createBatch .sharedCopy false 0 0] ++
    List.replicate 10 (Label.main { now := 0 }) ++ [Label.task .yield] ++
    List.replicate turns (Label.main { now })

theorem vClocks_balanced_batchRun : ∃ s, run step (initial [0] 0) (batchRun 500000 2) = some s ∧
    s.vClockB = 500000 ∧ Always recordedStep Balanced (initial [0] 0, {}) (batchRun 500000 2) :=
  ⟨_, rfl, by decide, (vClocks_balanced_iff [0] 0 (batchRun 500000 2) _ rfl).mpr (by decide)⟩

/-- The task yields after the end of its slot. The loop skips the slot, comes to its head
again and enters the time a second time. -/
theorem vClocks_not_balanced_batchRun : ∃ x,
    run recordedStep (initial [0] 0, {}) (batchRun 1000500 3) = some x ∧
    x.1.vClockB = 2001000 ∧ x.2.total .batch = 1000500 :=
  ⟨_, rfl, by decide, by decide⟩

end JamSched.Rib
