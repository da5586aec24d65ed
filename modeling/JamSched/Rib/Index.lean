import JamSched.Rib.Control

/-!
# The index into the schedule

`GetNextTask` reads `currentSchedule[idxRealTimeTask]` in two situations: the check of a
slot, which tests the index first, and the case of an active real-time task, which does not.
The second relies on the index still naming the slot of that task. It does not when the loop
is entered again after a `continue` that moved the index: the active task is then a
real-time task whose slot is over.
-/
namespace JamSched.Rib

open Machine

/-- Places between the check of a slot and the next turn of the loop. -/
def Pc.readsSlot : Pc → Bool
  | .rtWait | .rtSpin _ | .slotLoop | .slotCall | .slotWait | .handOver .slot _
  | .afterHandOver .slot => true
  | _ => false

/-- The task that the next turn of the loop takes for the active one. -/
def State.atTurn (s : State) : Option Ptr :=
  match s.pc with
  | .mainLoop | .running | .top => s.active
  | .ret next => next
  | _ => none

/-- Wherever the index is about to be used, it names a slot. -/
structure Indexed (s : State) : Prop where
  slot : s.pc.readsSlot = true → s.HasSlot
  realTime : ∀ p, s.atTurn = some p → (s.heap p).taskType = .realTime → s.HasSlot
  range : s.pc ≠ .outOfRange

namespace Indexed

variable {s : State}

/-- A place at which nothing is promised. -/
theorem of_free (hs : s.pc.readsSlot = false) (ht : s.atTurn = none)
    (hr : s.pc ≠ .outOfRange) : Indexed s where
  slot h := by simp [hs] at h
  realTime p h := by simp [ht] at h
  range := hr

/-- While the index names a slot, only the failing read itself is excluded. -/
theorem of_hasSlot (h : s.HasSlot) (hr : s.pc ≠ .outOfRange) : Indexed s where
  slot _ := h
  realTime _ _ _ := h
  range := hr

theorem stepTop (h : Indexed s) (hpc : s.pc = .top) (now : Int) :
    Indexed (s.stepTop now) := by
  simp only [State.stepTop]
  split
  · exact of_free rfl rfl (by simp)
  split
  · exact of_free rfl rfl (by simp)
  · rename_i p hp
    split
    · exact of_free rfl rfl (by simp)
    · rename_i hty
      have hslot : s.HasSlot := h.realTime p (by simp [State.atTurn, hpc, hp]) hty
      split
      · rename_i hnone
        exact absurd hslot (slotNow_eq_none.mp hnone)
      · split
        · exact of_hasSlot hslot (by simp)
        · exact of_hasSlot hslot (by simp)
    · exact of_free rfl rfl (by simp)

theorem stepRtWait (h : Indexed s) (hpc : s.pc = .rtWait) (now : Int) :
    Indexed (s.stepRtWait now) := by
  have hslot : s.HasSlot := h.slot (by rw [hpc]; rfl)
  simp only [State.stepRtWait]
  split
  · rename_i hnone
    exact absurd hslot (slotNow_eq_none.mp hnone)
  split
  · split
    · exact of_free rfl rfl (by simp)
    · exact of_hasSlot hslot (by simp)
  · exact h

theorem stepRtSpin (h : Indexed s) (ceTime now : Int) : Indexed (s.stepRtSpin ceTime now) := by
  simp only [State.stepRtSpin]
  split
  · exact h
  · exact of_free rfl rfl (by simp)

theorem stepSlotLoop (h : Indexed s) (hpc : s.pc = .slotLoop) (now : Int) :
    Indexed (s.stepSlotLoop now) := by
  have hslot : s.HasSlot := h.slot (by rw [hpc]; rfl)
  simp only [State.stepSlotLoop]
  split
  · rename_i hnone
    exact absurd hslot (slotNow_eq_none.mp hnone)
  split
  · exact of_hasSlot hslot (by simp)
  · exact of_hasSlot hslot (by simp)

theorem stepSlotWait (h : Indexed s) (hpc : s.pc = .slotWait) (now : Int) :
    Indexed (s.stepSlotWait now) := by
  have hslot : s.HasSlot := h.slot (by rw [hpc]; rfl)
  simp only [State.stepSlotWait]
  split
  · rename_i hnone
    exact absurd hslot (slotNow_eq_none.mp hnone)
  split
  · split
    · exact of_free rfl rfl (by simp)
    · exact of_hasSlot hslot (by simp)
  · exact h

theorem nextSchedule_ne_nil (s : State) (coin : Bool)
    (h : ¬ (s.rtScheduleGreedy.isEmpty && s.rtScheduleNormal.isEmpty) = true) :
    s.nextSchedule coin ≠ [] := by
  simp only [Bool.and_eq_true, List.isEmpty_iff, not_and] at h
  simp only [State.nextSchedule, List.isEmpty_iff]
  split_ifs with hn hg hc
  · exact fun hg => h hg hn
  · exact hn
  · exact hn
  · exact hg

theorem stepNoSchedule (s : State) (e : Env) : Indexed (s.stepNoSchedule e) := by
  simp only [State.stepNoSchedule]
  split
  · exact of_free rfl rfl (by simp)
  · rename_i h
    refine of_hasSlot ?_ (by simp)
    exact List.length_pos_of_ne_nil (nextSchedule_ne_nil s e.coin h)

/-- Serving other tasks inside a slot needs the slot, outside of one it needs nothing. -/
theorem of_serving {t : State} {site : Site} (hc : t.control = s.control)
    (hs : Serving site t.pc) (hslot : site = .slot → s.HasSlot) : Indexed t := by
  have hr : t.pc ≠ .outOfRange := by
    intro h
    rw [h] at hs
    cases site <;> nomatch hs
  cases site with
  | slot => exact of_hasSlot ((hasSlot_congr (loop_of_control hc)).mpr (hslot rfl)) hr
  | noSchedule =>
    refine of_free ?_ ?_ hr
    · generalize t.pc = pc at hs
      cases hs <;> rfl
    · simp only [State.atTurn]
      generalize t.pc = pc at hs
      cases hs <;> rfl

/-- Only a skip of the last slot leads to a turn without a slot. -/
theorem stepSlot {e : Env} (hmet : s.idxRealTimeTask + 1 = s.currentSchedule.length →
    s.activeType = some .realTime → ∀ slot ∈ s.slotNow, s.inSlot slot e.now = true) :
    Indexed (s.stepSlot e) := by
  simp only [State.stepSlot]
  split
  · exact of_free rfl rfl (by simp)
  rename_i slot hslot
  have hidx : s.idxRealTimeTask < s.currentSchedule.length := hasSlot_of_slotNow hslot
  split
  · split
    · exact of_hasSlot hidx (by simp)
    · exact of_hasSlot hidx (by simp)
  · rename_i hout
    refine ⟨fun h => by simp [Pc.readsSlot] at h, fun p hp hty => ?_, by simp⟩
    have hlast : s.idxRealTimeTask + 1 ≠ s.currentSchedule.length := by
      intro hlast
      have hp : s.active = some p := hp
      exact hout (hmet hlast (by simpa [State.activeType, hp] using hty) slot hslot)
    simp only [State.HasSlot]
    omega

theorem stepRet (h : Indexed s) {next : Option Ptr} (hpc : s.pc = .ret next) :
    Indexed (s.stepRet next) := by
  obtain ⟨hc, ⟨hpc', ha, -⟩ | ⟨hpc', ha, -⟩⟩ := stepRet_control s next
  · exact of_free (by rw [hpc']; rfl) (by simp [State.atTurn, hpc', ha]) (by simp [hpc'])
  · refine ⟨fun hr => by simp [hpc', Pc.readsSlot] at hr, fun p hp hty => ?_, by simp [hpc']⟩
    rw [hasSlot_congr (loop_of_control hc)]
    refine h.realTime p ?_ ?_
    · simpa [State.atTurn, hpc, hpc', ha] using hp
    · rwa [(stepRet_narrows hpc).taskType] at hty

end Indexed

/-- The loop does not skip the last slot while a real-time task is active: when it checks
that slot, the clock reading lies in it. -/
def LastSlotMet (s : State) : Label → Prop
  | .main e => s.pc = .slot → s.idxRealTimeTask + 1 = s.currentSchedule.length →
      s.activeType = some .realTime → ∀ slot ∈ s.slotNow, s.inSlot slot e.now = true
  | _ => True

instance (s : State) : DecidablePred (LastSlotMet s)
  | .main e => inferInstanceAs (Decidable (s.pc = .slot →
      s.idxRealTimeTask + 1 = s.currentSchedule.length → s.activeType = some .realTime →
      ∀ slot ∈ s.slotNow, s.inSlot slot e.now = true))
  | .task _ | .createRealTime .. | .createInteractive .. | .createBatch .. | .wake _
  | .setSchedule .. | .shutDown | .thiefs _ | .waiters .. => isTrue trivial

theorem Indexed.mainStep {s t : State} {e : Env} (h : Indexed s) (hq : Placed s)
    (hmet : LastSlotMet s (.main e)) (hs : s.mainStep e = some t) : Indexed t := by
  cases hpc : s.pc with
  | mainLoop =>
    obtain rfl : _ = t := by simpa [State.mainStep, hpc] using hs
    cases s.toContinue with
    | false => exact .of_free rfl rfl (by simp)
    | true => exact ⟨fun hr => by simp [Pc.readsSlot] at hr,
        fun p hp => h.realTime p (by simpa [State.atTurn, hpc] using hp), by simp⟩
  | top =>
    obtain rfl : _ = t := by simpa [State.mainStep, hpc] using hs
    exact h.stepTop hpc e.now
  | rtWait =>
    obtain rfl : _ = t := by simpa [State.mainStep, hpc] using hs
    exact h.stepRtWait hpc e.now
  | rtSpin ceTime =>
    obtain rfl : _ = t := by simpa [State.mainStep, hpc] using hs
    exact h.stepRtSpin ceTime e.now
  | slot =>
    obtain rfl : _ = t := by simpa [State.mainStep, hpc] using hs
    exact .stepSlot (hmet hpc)
  | slotLoop =>
    obtain rfl : _ = t := by simpa [State.mainStep, hpc] using hs
    exact h.stepSlotLoop hpc e.now
  | slotCall =>
    obtain rfl : _ = t := by simpa [State.mainStep, hpc] using hs
    obtain ⟨hc, hserve⟩ := enterInteractiveBatch_control { s with currentTime := e.now } .slot
    exact .of_serving hc hserve fun _ => h.slot (by rw [hpc]; rfl)
  | slotWait =>
    obtain rfl : _ = t := by simpa [State.mainStep, hpc] using hs
    exact h.stepSlotWait hpc e.now
  | noSchedule =>
    obtain rfl : _ = t := by simpa [State.mainStep, hpc] using hs
    exact .stepNoSchedule s e
  | noScheduleCall =>
    obtain rfl : _ = t := by simpa [State.mainStep, hpc] using hs
    obtain ⟨hc, hserve⟩ := enterInteractiveBatch_control s .noSchedule
    exact .of_serving hc hserve (fun h => by cases h)
  | noScheduleWait =>
    obtain rfl : _ = t := by simpa [State.mainStep, hpc] using hs
    exact .of_free rfl rfl (by simp)
  | handOver site l =>
    have hslot : site = .slot → s.HasSlot := by
      rintro rfl
      exact h.slot (by rw [hpc]; rfl)
    cases l with
    | nil =>
      obtain rfl : _ = t := by simpa [State.mainStep, hpc] using hs
      exact .of_serving rfl .afterHandOver hslot
    | cons p ps =>
      rw [State.mainStep, hpc, Option.some.injEq] at hs
      subst hs
      exact .of_serving (handOverOne_control s p) (.handOver ps) hslot
  | afterHandOver site =>
    obtain rfl : _ = t := by simpa [State.mainStep, hpc] using hs
    obtain ⟨hc, hserve⟩ := leaveInteractiveBatch_control s site e
    refine .of_serving hc hserve ?_
    rintro rfl
    exact h.slot (by rw [hpc]; rfl)
  | startTask p =>
    obtain rfl : _ = t := by simpa [State.mainStep, hpc] using hs
    have hty : (s.heap p).taskType ≠ .realTime :=
      hq.served p (by simp [State.served, hpc, Pc.chosen])
    refine ⟨fun hr => by simp [Pc.readsSlot] at hr, fun q hq hty' => ?_, by simp⟩
    obtain rfl : p = q := by simpa [State.atTurn] using hq
    exact absurd hty' hty
  | ret next =>
    obtain rfl : _ = t := by simpa [State.mainStep, hpc] using hs
    exact h.stepRet hpc
  | running | stopped | outOfRange | deadlock => simp [State.mainStep, hpc] at hs

theorem Placed.atTurn_lt {s : State} (h : Placed s) {p : Ptr} (hp : s.atTurn = some p) :
    p < s.fresh := by
  refine h.known p ?_
  simp only [State.atTurn] at hp
  split at hp
  · exact .inr hp
  · exact .inr hp
  · exact .inr hp
  · rename_i next hpc
    exact .inl (by simp [State.places, hpc, hp, Pc.returned])
  · cases hp

theorem Indexed.of_outside {s t : State} {l : Label} (h : Indexed s) (hq : Placed s)
    (ho : Outside s l t) : Indexed t := by
  have hturn (p : Ptr) (hp : t.atTurn = some p) : s.atTurn = some p := by
    rcases ho.pc with hpc | ⟨hpc, hpc'⟩
    · simpa [State.atTurn, hpc, ho.active] using hp
    · simpa [State.atTurn, hpc, hpc', ho.active] using hp
  refine ⟨fun hr => ?_, fun p hp hty => ?_, fun hr => ?_⟩
  · rw [hasSlot_congr ho.loop]
    rcases ho.pc with hpc | ⟨-, hpc⟩
    · exact h.slot (hpc ▸ hr)
    · simp [hpc, Pc.readsSlot] at hr
  · rw [hasSlot_congr ho.loop]
    have hlt : p < s.fresh := hq.atTurn_lt (hturn p hp)
    rw [(ho.fixed p hlt).1] at hty
    exact h.realTime p (hturn p hp) hty
  · rcases ho.pc with hpc | ⟨-, hpc⟩
    · exact h.range (hpc ▸ hr)
    · rw [hpc] at hr
      cases hr

theorem Indexed.step {s t : State} {l : Label} (h : Indexed s) (hq : Placed s)
    (hmet : LastSlotMet s l) (hs : step s l = some t) : Indexed t := by
  cases l with
  | main e =>
    simp only [Rib.step] at hs
    split at hs
    · have h' : Indexed { s with clock := e.now } := ⟨h.slot, h.realTime, h.range⟩
      exact h'.mainStep (hq.of_eq rfl rfl) hmet hs
    · cases hs
  | _ => exact h.of_outside hq (step_outside (by simp) hs)

theorem indexed_initial (thiefSizes : List Nat) (start : Int) :
    Indexed (initial thiefSizes start) :=
  .of_free rfl rfl (by simp [initial])

/-- In every run in which the loop never skips the last slot behind a real-time task, no
read of `currentSchedule[idxRealTimeTask]` is out of range. -/
theorem index_in_range (thiefSizes : List Nat) (start : Int) (ls : List Label) (s : State)
    (hmet : Along step LastSlotMet (initial thiefSizes start) ls)
    (hrun : run step (initial thiefSizes start) ls = some s) : s.pc ≠ .outOfRange := by
  have hinv : Placed s ∧ Indexed s :=
    run_invariant_along (I := fun s => Placed s ∧ Indexed s)
      (fun _ _ _ h hl hs => ⟨h.1.step hs, h.2.step h.1 hl hs⟩)
      ⟨placed_initial thiefSizes start, indexed_initial thiefSizes start⟩ hmet hrun
  exact hinv.2.range

/-- One slot of 100 microseconds with a task and one of as long without. -/
def evenSchedule : List RealTimeSchedule := [⟨0, 100000, 1⟩, ⟨100000, 200000, 0⟩]

/-- A cycle with a real-time task in its first slot, up to the third turn of the loop that
finds this task active. -/
def evenRun : List Label :=
  [Label.setSchedule evenSchedule evenSchedule, .createRealTime .sharedCopy 1] ++
    [0, 0, 0, 0, 0, 10, 10].map (fun now => Label.main { now }) ++ [Label.task .finish] ++
    [20000, 100000, 100000, 100010, 100010, 200000, 200000, 200010, 200020].map
      fun now => Label.main { now }

theorem index_in_range_evenRun : ∃ s, run step (initial [0] 0) evenRun = some s ∧
    s.idxRealTimeTask = 0 ∧ s.cycles = 2 ∧ s.pc ≠ .outOfRange :=
  ⟨_, rfl, rfl, rfl, index_in_range [0] 0 evenRun _ (by decide) rfl⟩

/-- The schedule of `app/integration/RT_Tasks`, with a gap between 150 and 200 microseconds. -/
def gapSchedule : List RealTimeSchedule :=
  [⟨0, 50000, 1⟩, ⟨50000, 100000, 2⟩, ⟨100000, 150000, 3⟩, ⟨200000, 50000000, 0⟩]

/-- The third task runs in its slot and finishes; the loop then checks the last slot before
it has begun, skips it, and is in the case of a real-time task again. -/
def gapRun : List Label :=
  [Label.setSchedule gapSchedule gapSchedule, .createRealTime .sharedCopy 1,
    .createRealTime .sharedCopy 2, .createRealTime .sharedCopy 3] ++
    [0, 0, 0, 0, 0, 120000, 120000, 120000, 120000, 120000, 120000].map
      (fun now => Label.main { now }) ++
    [Label.task .finish] ++ [130000, 150000, 150010, 150020].map fun now => Label.main { now }

theorem index_out_of_range_gapRun :
    (run step (initial [0] 0) gapRun).map State.pc = some .outOfRange := by
  decide

theorem mainStep_slot {s : State} {e : Env} (hpc : s.pc = .slot) :
    s.mainStep e = some (s.stepSlot e) := by
  rw [State.mainStep, hpc]

theorem stepSlot_skip {s : State} {e : Env} {slot : RealTimeSchedule}
    (hslot : s.slotNow = some slot) (hout : s.inSlot slot e.now = false) :
    s.stepSlot e =
      { s with currentTime := e.now, idxRealTimeTask := s.idxRealTimeTask + 1, pc := .top } := by
  simp [State.stepSlot, hslot, hout]

/-- A step that breaks the condition is followed by the failing read, unless the scheduler
is shut down first. -/
theorem outOfRange_of_not_lastSlotMet {s : State} {e e' : Env} (hc : s.toContinue = true)
    (he : s.clock ≤ e.now) (he' : e.now ≤ e'.now) (h : ¬ LastSlotMet s (.main e)) :
    (run step s [.main e, .main e']).map State.pc = some .outOfRange := by
  simp only [LastSlotMet, not_forall] at h
  obtain ⟨hpc, hlast, hact, slot, hslot, hout⟩ := h
  obtain ⟨p, hp, hty⟩ : ∃ p, s.active = some p ∧ (s.heap p).taskType = .realTime := by
    simpa [State.activeType, Option.map_eq_some_iff] using hact
  have hskip : step s (.main e) = some { s with
      clock := e.now, currentTime := e.now, idxRealTimeTask := s.idxRealTimeTask + 1
      pc := .top } := by
    rw [step, if_pos he]
    refine (mainStep_slot (s := { s with clock := e.now }) hpc).trans (congrArg some ?_)
    exact stepSlot_skip hslot (Bool.eq_false_iff.mpr hout)
  simp only [run, hskip, Option.bind_some]
  simp [step, he', State.mainStep, State.stepTop, hc, hp, hty, State.slotNow, hlast]

end JamSched.Rib
