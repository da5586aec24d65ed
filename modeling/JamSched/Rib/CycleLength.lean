import JamSched.Rib.Cycle

/-!
# The length of a cycle

A cycle should last as long as its schedule says: a slot is left when it has ended, and the
next cycle starts when the last slot has ended. One branch of the loop leaves both a slot that
is over and a slot that has not begun, so this depends on when the loop looks at a slot.
-/
namespace JamSched.Rib

open Machine

/-- A step that leaves a slot, or starts a cycle, waits for the end of the slot, or of the last
slot of the cycle before. -/
def LeavesInTime (s : State) (l : Label) : Prop :=
  ∀ t, step s l = some t →
    (t.cycles = s.cycles → t.idxRealTimeTask ≠ s.idxRealTimeTask →
      ∀ slot, s.slotNow = some slot → s.cycleStartTime + slot.eTime ≤ t.clock) ∧
    (t.cycles ≠ s.cycles →
      ∀ slot, s.currentSchedule.getLast? = some slot → s.cycleStartTime + slot.eTime ≤ t.clock)

/-- The loop does not look at a slot that has neither begun nor ended. -/
def LooksInTime (s : State) : Label → Prop
  | .main e => s.pc = .slot → ∀ slot ∈ s.slotNow,
    ¬ (e.now - s.cycleStartTime < slot.sTime ∧ e.now - s.cycleStartTime < slot.eTime)
  | _ => True

instance (s : State) (l : Label) : Decidable (LooksInTime s l) :=
  match l with
  | .main _ => inferInstanceAs (Decidable (_ → _))
  | .task _ | .createRealTime _ _ | .createInteractive _ _ _ _ | .createBatch _ _ _ _ | .wake _
  | .setSchedule _ _ | .shutDown | .thiefs _ | .waiters _ _ _ => inferInstanceAs (Decidable True)

/-- The slots before the index have ended. -/
structure Ended (s : State) : Prop where
  ended : ∀ j slot, j < s.idxRealTimeTask → s.currentSchedule[j]? = some slot →
    slot.eTime ≤ s.clock - s.cycleStartTime
  spin : ∀ ceTime, s.pc = .rtSpin ceTime → ∃ slot, s.slotNow = some slot ∧ slot.eTime = ceTime
  outside : s.pc.outsideSlots = true → ¬ s.HasSlot

section Step

variable {s t : State} {e : Env} {l : Label}

theorem Ended.tick (h : Ended s) {now : Int} (hle : s.clock ≤ now) :
    Ended { s with clock := now } where
  ended j slot hj hslot := by
    have := h.ended j slot hj hslot
    simp only
    omega
  spin := h.spin
  outside := h.outside

theorem Ended.of_stays (h : Ended s) (hs : Stays s t) : Ended t := by
  have hloop := hs.control
  simp only [State.control, State.loop, Prod.mk.injEq] at hloop
  obtain ⟨⟨hsch, hidx, -, hcs⟩, hclk, -⟩ := hloop
  refine ⟨fun j slot hj hslot => ?_, fun ceTime hpc => ?_, fun hpc => ?_⟩
  · rw [hclk, hcs]
    exact h.ended j slot (hidx ▸ hj) (hsch ▸ hslot)
  · rw [State.slotNow, hsch, hidx]
    exact (hs.spin ceTime hpc).elim (h.spin ceTime) id
  · rw [hasSlot_congr (loop_of_control hs.control)]
    exact (hs.outside hpc).elim h.outside id

/-- Leaving a slot that has ended. -/
theorem Ended.advance (h : Ended s) {slot : RealTimeSchedule} (hslot : s.slotNow = some slot)
    (hend : slot.eTime ≤ s.clock - s.cycleStartTime) {j : Nat} {slot' : RealTimeSchedule}
    (hj : j < s.idxRealTimeTask + 1) (hslot' : s.currentSchedule[j]? = some slot') :
    slot'.eTime ≤ s.clock - s.cycleStartTime := by
  by_cases hlt : j < s.idxRealTimeTask
  · exact h.ended j slot' hlt hslot'
  · obtain rfl : j = s.idxRealTimeTask := by omega
    obtain rfl : slot = slot' := Option.some.inj (hslot.symm.trans hslot')
    exact hend

/-- The last slot of the cycle has ended when no slot is left. -/
theorem Ended.last (h : Ended s) (hs : ¬ s.HasSlot) {slot : RealTimeSchedule}
    (hlast : s.currentSchedule.getLast? = some slot) :
    slot.eTime ≤ s.clock - s.cycleStartTime := by
  rw [List.getLast?_eq_getElem?] at hlast
  have hlt := (List.getElem?_eq_some_iff.mp hlast).1
  simp only [State.HasSlot] at hs
  exact h.ended _ slot (by omega) hlast

theorem leavesInTime_iff_step (hs : step s l = some t) : LeavesInTime s l ↔
    (t.cycles = s.cycles → t.idxRealTimeTask ≠ s.idxRealTimeTask →
      ∀ slot, s.slotNow = some slot → s.cycleStartTime + slot.eTime ≤ t.clock) ∧
    (t.cycles ≠ s.cycles →
      ∀ slot, s.currentSchedule.getLast? = some slot →
        s.cycleStartTime + slot.eTime ≤ t.clock) := by
  simp only [LeavesInTime, hs, Option.some.injEq, forall_eq']

/-- The check of a slot leaves it exactly when the clock is outside of it. -/
theorem stepSlot_index (s : State) (e : Env) :
    (s.stepSlot e).cycles = s.cycles ∧ (s.stepSlot e).clock = s.clock ∧
      ((s.stepSlot e).idxRealTimeTask ≠ s.idxRealTimeTask ↔
        ∃ slot, s.slotNow = some slot ∧ s.inSlot slot e.now = false) := by
  cases hslot : s.slotNow with
  | none => simp [State.stepSlot, hslot]
  | some slot =>
    cases hin : s.inSlot slot e.now with
    | false => simp [State.stepSlot, hslot, hin]
    | true => cases hfind : s.findRegistered slot.taskId e.pick <;>
        simp [State.stepSlot, hslot, hin, hfind]

/-- The check of a slot. -/
theorem leavesInTime_iff_of_slot (hpc : s.pc = .slot) (hs : step s (.main e) = some t) :
    LeavesInTime s (.main e) ↔ LooksInTime s (.main e) := by
  rw [leavesInTime_iff_step hs]
  simp only [Rib.step, Option.ite_none_right_eq_some] at hs
  have ht : { s with clock := e.now }.stepSlot e = t := by
    simpa [State.mainStep, hpc] using hs.2
  obtain ⟨hcyc, hclk, hidx⟩ := stepSlot_index { s with clock := e.now } e
  rw [ht] at hcyc hclk hidx
  simp only at hcyc hclk hidx
  simp only [LooksInTime, hpc, forall_const, hcyc, ne_eq, not_true, false_implies, and_true, hclk]
  constructor
  · rintro hend slot hslot ⟨hbegin, hend'⟩
    have hne : t.idxRealTimeTask ≠ s.idxRealTimeTask := by
      refine hidx.mpr ⟨slot, hslot, ?_⟩
      simp only [State.inSlot, Bool.and_eq_false_iff, decide_eq_false_iff_not]
      omega
    have := hend hne slot hslot
    omega
  · intro hlook hne slot hslot
    obtain ⟨slot', hslot', hout⟩ := hidx.mp hne
    obtain rfl : slot = slot' := Option.some.inj (hslot.symm.trans hslot')
    have := hlook slot hslot
    simp only [State.inSlot, Bool.and_eq_false_iff, decide_eq_false_iff_not] at hout
    omega

/-- Every other step of the main thread waits for the end of what it leaves. -/
theorem LoopStep.leavesInTime (h : Ended s) (hle : s.clock ≤ e.now)
    (hl : LoopStep { s with clock := e.now } e t) (hpc : s.pc ≠ .slot) :
    (t.cycles = s.cycles → t.idxRealTimeTask ≠ s.idxRealTimeTask →
      ∀ slot, s.slotNow = some slot → s.cycleStartTime + slot.eTime ≤ t.clock) ∧
    (t.cycles ≠ s.cycles →
      ∀ slot, s.currentSchedule.getLast? = some slot →
        s.cycleStartTime + slot.eTime ≤ t.clock) := by
  have h' := h.tick hle
  cases hl with
  | stays hstay =>
    have hl := hstay.control
    simp only [State.control, State.loop, Prod.mk.injEq] at hl
    exact ⟨fun _ hne => absurd hl.1.2.1 hne, fun hne => absurd hl.1.2.2.1 hne⟩
  | endSlot hspin hend =>
    refine ⟨fun _ _ slot hslot => ?_, fun hne => absurd rfl hne⟩
    obtain ⟨slot', hslot', rfl⟩ := h.spin _ hspin
    obtain rfl : slot = slot' := Option.some.inj (hslot.symm.trans hslot')
    simp only at hend ⊢
    omega
  | skip hslot => exact absurd hslot hpc
  | dispatch hslot => exact absurd hslot hpc
  | noTask hslot => exact absurd hslot hpc
  | rollover hroll =>
    refine ⟨fun hsame => absurd hsame (Nat.succ_ne_self _), fun _ slot hlast => ?_⟩
    have hroll' : s.pc = .noSchedule := hroll
    have := h'.last (h.outside (by rw [hroll']; rfl)) hlast
    simp only at this ⊢
    omega

/-- A step keeps the time of its slot exactly when the slot it looks at has begun or ended. -/
theorem leavesInTime_iff (h : Ended s) (hs : step s l = some t) :
    LeavesInTime s l ↔ LooksInTime s l := by
  by_cases hlook : s.pc = .slot ∧ ∃ e, l = .main e
  · obtain ⟨hpc, e, rfl⟩ := hlook
    exact leavesInTime_iff_of_slot hpc hs
  · have hlooks : LooksInTime s l := by
      cases l with
      | main e => exact fun hpc => absurd ⟨hpc, e, rfl⟩ hlook
      | _ => trivial
    refine iff_of_true ((leavesInTime_iff_step hs).mpr ?_) hlooks
    rcases step_cases hs with ⟨e, rfl, hle, hloop⟩ | ho
    · exact hloop.leavesInTime h hle fun hpc => hlook ⟨hpc, e, rfl⟩
    · have hl := ho.loop
      simp only [State.loop, Prod.mk.injEq] at hl
      exact ⟨fun _ hne => absurd hl.2.1 hne, fun hne => absurd hl.2.2.1 hne⟩

theorem Ended.loopStep (h : Ended s) (hclk : s.clock = e.now) (hl : LoopStep s e t)
    (hlook : s.pc = .slot → ∀ slot ∈ s.slotNow,
      ¬ (e.now - s.cycleStartTime < slot.sTime ∧ e.now - s.cycleStartTime < slot.eTime)) :
    Ended t := by
  cases hl with
  | stays hs => exact h.of_stays hs
  | endSlot hpc hend =>
    obtain ⟨slot, hslot, rfl⟩ := h.spin _ hpc
    exact ⟨fun _ _ hj hs => h.advance hslot (by omega) hj hs, by simp, by simp [Pc.outsideSlots]⟩
  | @skip slot hpc hslot hout =>
    have hbegun := hlook hpc slot hslot
    have hend : slot.eTime ≤ s.clock - s.cycleStartTime := by
      simp only [State.inSlot, Bool.and_eq_false_iff, decide_eq_false_iff_not] at hout
      omega
    exact ⟨fun _ _ hj hs => h.advance hslot hend hj hs, by simp, by simp [Pc.outsideSlots]⟩
  | dispatch hpc hslot hfind => exact ⟨h.ended, by simp, by simp [Pc.outsideSlots]⟩
  | noTask hpc hslot hfind => exact ⟨h.ended, by simp, by simp [Pc.outsideSlots]⟩
  | rollover hpc => exact ⟨by simp, by simp, by simp [Pc.outsideSlots]⟩

theorem Ended.step (h : Ended s) (hlook : LooksInTime s l) (hs : step s l = some t) :
    Ended t := by
  rcases step_cases hs with ⟨e, rfl, hle, hloop⟩ | ho
  · exact (h.tick hle).loopStep rfl hloop hlook
  · have hl := ho.loop
    simp only [State.loop, Prod.mk.injEq] at hl
    obtain ⟨hsch, hidx, -, hcs⟩ := hl
    refine ⟨fun j slot hj hslot => ?_, fun ceTime hpc => ?_, fun hpc => ?_⟩
    · rw [ho.clock, hcs]
      exact h.ended j slot (hidx ▸ hj) (hsch ▸ hslot)
    · rw [State.slotNow, hsch, hidx]
      rcases ho.pc with hpc' | ⟨-, hpc'⟩
      · exact h.spin ceTime (hpc' ▸ hpc)
      · simp [hpc'] at hpc
    · rw [hasSlot_congr ho.loop]
      rcases ho.pc with hpc' | ⟨-, hpc'⟩
      · exact h.outside (hpc' ▸ hpc)
      · simp [hpc', Pc.outsideSlots] at hpc

end Step

theorem ended_initial (thiefSizes : List Nat) (start : Int) :
    Ended (initial thiefSizes start) := by
  constructor <;> simp [initial, Pc.outsideSlots]

/-- In a run every slot is left after its end, and every cycle lasts until the end of its last
slot, exactly when the loop never looks at a slot that has neither begun nor ended. -/
theorem cycle_length_iff (thiefSizes : List Nat) (start : Int) (ls : List Label) (s : State)
    (hr : run step (initial thiefSizes start) ls = some s) :
    Along step LeavesInTime (initial thiefSizes start) ls ↔
      Along step LooksInTime (initial thiefSizes start) ls :=
  along_congr_of_run (I := Ended)
    (fun _ _ _ h hp hs => h.step ((leavesInTime_iff h hs).mp hp) hs)
    (fun _ _ _ h hs => leavesInTime_iff h hs) (ended_initial thiefSizes start) hr

/-- Two slots; the second begins at `sTime` and ends after three milliseconds. -/
def pauseSchedule (sTime : Int) : List RealTimeSchedule := [⟨0, 1000000, 0⟩, ⟨sTime, 3000000, 0⟩]

/-- The first cycle begins at 0. The loop leaves the first slot at its end and looks at the
second slot right after. -/
def pauseRun (sTime : Int) : List Label :=
  [Label.setSchedule (pauseSchedule sTime) (pauseSchedule sTime)] ++
    [0, 0, 0, 0, 0, 0, 1000000, 1000001, 1000001, 1000002, 1000002].map
      fun now => Label.main { now }

theorem cycle_length_pauseRun : ∃ s, run step (initial [0] 0) (pauseRun 1000000) = some s ∧
    s.idxRealTimeTask = 1 ∧ Along step LeavesInTime (initial [0] 0) (pauseRun 1000000) :=
  ⟨_, rfl, by decide, (cycle_length_iff [0] 0 (pauseRun 1000000) _ rfl).mpr (by decide)⟩

/-- If the second slot begins a millisecond later, the loop leaves it before it has begun and
starts the next cycle two milliseconds early. -/
theorem short_cycle_pauseRun : ∃ s t,
    run step (initial [0] 0)
      (pauseRun 2000000 ++ [.main { now := 1000002 }, .main { now := 1000002 }]) = some s ∧
    step s (.main { now := 1000002 }) = some t ∧ s.cycles = 1 ∧ s.cycleStartTime = 0 ∧
    s.currentSchedule.getLast? = some ⟨2000000, 3000000, 0⟩ ∧ t.cycles = 2 ∧
    t.cycleStartTime = 1000002 :=
  ⟨_, _, rfl, rfl, rfl, rfl, rfl, rfl, rfl⟩

end JamSched.Rib
