import JamSched.Rib.Index
import JamSched.Rib.Turn
import JamSched.Rib.CancelLoop

/-!
# GetNextTask after ShutDown, step by step

Where the main thread can be when `toContinue` is false, and where a step leads it: whether it is
blocked by a cancellation, whether it leaves the loop that waits for a schedule, and what comes
behind the return of `GetNextTask`.
-/
namespace JamSched.Rib

open Machine

/-- Places from which the main thread goes on by itself. -/
def Pc.moves : Pc → Bool
  | .running | .stopped | .outOfRange | .deadlock => false
  | _ => true

/-- The loop of `GetNextTask` that waits for a schedule. -/
def Pc.awaitsSchedule : Pc → Bool
  | .noSchedule | .noScheduleCall | .noScheduleWait | .handOver .noSchedule _
  | .afterHandOver .noSchedule => true
  | _ => false

/-- The cancellations of this step do not lead back to `qMutex`. -/
def PassesLocks (s : State) : Label → Prop
  | .main e => ∀ site, s.pc = .afterHandOver site →
      ∀ p ∈ s.iCancelStack.drop 3, ¬ s.CancelDeadlocks e p
  | _ => True

/-- The step leaves the loop that waits for a schedule: the test finds one, the call takes the head
of `bQueue`, or there is an interactive task for it to take. -/
def LeavesLoop (s : State) : Label → Prop
  | .main _ => match s.pc with
    | .noSchedule => s.rtScheduleGreedy ≠ [] ∨ s.rtScheduleNormal ≠ []
    | .noScheduleCall => s.decideQueue = some .batch
    | .afterHandOver .noSchedule => s.iEDFPriorityQueue ≠ [] ∨ s.iCancelStack ≠ []
    | _ => False
  | _ => False

/-- Where the schedule of the cycle is read, its index is in range. -/
def ReadsInRange (s : State) : Prop := s.pc.readsSlot = true → s.HasSlot

section Steps

variable {s t : State} {e : Env} {l : Label}

/-- A call takes a batch task, hands expired tasks over, or finds all three queues empty. -/
theorem enterInteractiveBatch_pc (s : State) (site : Site) :
    (s.decideQueue = some .batch ∧ ∃ p, (s.enterInteractiveBatch site).pc = .startTask p) ∨
    s.decideQueue ≠ some .batch ∧ ((∃ ps, (s.enterInteractiveBatch site).pc = .handOver site ps) ∨
      (s.enterInteractiveBatch site).pc = site.wait) := by
  simp only [State.enterInteractiveBatch]
  split
  · next p _ hd _ => exact .inl ⟨hd, p, rfl⟩
  · next hd => exact .inr ⟨by simp [hd], .inl ⟨_, rfl⟩⟩
  · next hnb =>
    refine .inr ⟨fun hd => ?_, .inr rfl⟩
    obtain ⟨p, bs, hb⟩ := List.exists_cons_of_ne_nil (decideQueue_batch hd)
    exact hnb p bs hd hb

theorem enterInteractiveBatch_ne_deadlock (s : State) (site : Site) :
    (s.enterInteractiveBatch site).pc ≠ .deadlock := by
  rcases enterInteractiveBatch_pc s site with ⟨-, p, h⟩ | ⟨-, ⟨ps, h⟩ | h⟩
  · simp [h]
  · simp [h]
  · cases site <;> simp [h, Site.wait]

theorem readsInRange_of_serving {site : Site} (h : site = .slot → s.HasSlot)
    (hc : t.control = s.control) (hs : Serving site t.pc) : ReadsInRange t := by
  intro hr
  rw [hasSlot_congr (loop_of_control hc)]
  refine h ?_
  cases site with
  | slot => rfl
  | noSchedule =>
    generalize t.pc = pc at hs hr
    cases hs <;> simp [Pc.readsSlot, Site.wait] at hr

/-- What every step of the main thread keeps, and the only places at which it can be blocked. -/
structure Moved (s t : State) : Prop where
  normal : t.rtScheduleNormal = s.rtScheduleNormal
  greedy : t.rtScheduleGreedy = s.rtScheduleGreedy
  reads : ReadsInRange s → ReadsInRange t
  blocked : t.pc = .deadlock → ∃ site, s.pc = .afterHandOver site

theorem Moved.elsewhere (hn : t.rtScheduleNormal = s.rtScheduleNormal)
    (hg : t.rtScheduleGreedy = s.rtScheduleGreedy) (hr : t.pc.readsSlot = false)
    (hd : t.pc ≠ .deadlock) : Moved s t :=
  ⟨hn, hg, fun _ h => by simp [hr] at h, fun h => absurd h hd⟩

theorem Moved.inSlot (hn : t.rtScheduleNormal = s.rtScheduleNormal)
    (hg : t.rtScheduleGreedy = s.rtScheduleGreedy) (hs : t.HasSlot)
    (hd : t.pc ≠ .deadlock) : Moved s t :=
  ⟨hn, hg, fun _ _ => hs, fun h => absurd h hd⟩

theorem Moved.serving {site : Site} (hsite : site = .slot → s.pc.readsSlot = true)
    (hc : t.control = s.control) (hs : Serving site t.pc)
    (hd : t.pc = .deadlock → ∃ site, s.pc = .afterHandOver site) : Moved s t := by
  refine ⟨?_, ?_, fun h => ?_, hd⟩
  · exact congrArg (·.2.2.1) hc
  · exact congrArg (·.2.2.2.1) hc
  · exact readsInRange_of_serving (fun hslot => h (hsite hslot)) hc hs

theorem mainStep_moved (hs : s.mainStep e = some t) : Moved s t := by
  cases hpc : s.pc with
  | mainLoop =>
    obtain rfl : _ = t := by simpa [State.mainStep, hpc] using hs
    exact .elsewhere rfl rfl (by cases s.toContinue <;> rfl) (by cases s.toContinue <;> simp)
  | top =>
    obtain rfl : _ = t := by simpa [State.mainStep, hpc] using hs
    simp only [State.stepTop]
    split
    · exact .elsewhere rfl rfl rfl (by simp)
    split
    · exact .elsewhere rfl rfl rfl (by simp)
    split
    · exact .elsewhere rfl rfl rfl (by simp)
    · split
      · exact .elsewhere rfl rfl rfl (by simp)
      · next hn => split <;> exact .inSlot rfl rfl (hasSlot_of_slotNow hn) (by simp)
    · exact .elsewhere rfl rfl rfl (by simp)
  | rtWait =>
    obtain rfl : _ = t := by simpa [State.mainStep, hpc] using hs
    simp only [State.stepRtWait]
    have hr : s.pc.readsSlot = true := by rw [hpc]; rfl
    split
    · exact ⟨rfl, rfl, fun h _ => h hr, by simp⟩
    split
    · split <;> exact ⟨rfl, rfl, fun h _ => h hr, by simp⟩
    · exact ⟨rfl, rfl, fun h _ => h hr, by simp [hpc]⟩
  | rtSpin ceTime =>
    obtain rfl : _ = t := by simpa [State.mainStep, hpc] using hs
    simp only [State.stepRtSpin]
    split
    · exact ⟨rfl, rfl, id, by simp [hpc]⟩
    · exact .elsewhere rfl rfl rfl (by simp)
  | slot =>
    obtain rfl : _ = t := by simpa [State.mainStep, hpc] using hs
    simp only [State.stepSlot]
    split
    · exact .elsewhere rfl rfl rfl (by simp)
    · next hn =>
      split
      · split
        · exact .elsewhere rfl rfl rfl (by simp)
        · exact .inSlot rfl rfl (hasSlot_of_slotNow hn) (by simp)
      · exact .elsewhere rfl rfl rfl (by simp)
  | slotLoop =>
    obtain rfl : _ = t := by simpa [State.mainStep, hpc] using hs
    simp only [State.stepSlotLoop]
    split
    · exact .elsewhere rfl rfl rfl (by simp)
    · next hn => split <;> exact .inSlot rfl rfl (hasSlot_of_slotNow hn) (by simp)
  | slotWait =>
    obtain rfl : _ = t := by simpa [State.mainStep, hpc] using hs
    simp only [State.stepSlotWait]
    split
    · exact .elsewhere rfl rfl rfl (by simp)
    · next hn =>
      split
      · split <;> exact .inSlot rfl rfl (hasSlot_of_slotNow hn) (by simp)
      · exact ⟨rfl, rfl, id, by simp [hpc]⟩
  | noSchedule =>
    obtain rfl : _ = t := by simpa [State.mainStep, hpc] using hs
    simp only [State.stepNoSchedule]
    split <;> exact .elsewhere rfl rfl rfl (by simp)
  | slotCall =>
    obtain rfl : _ = t := by simpa [State.mainStep, hpc] using hs
    obtain ⟨hc, hserve⟩ := enterInteractiveBatch_control { s with currentTime := e.now } .slot
    refine .serving (fun _ => by rw [hpc]; rfl) hc hserve fun hd => ?_
    exact absurd hd (enterInteractiveBatch_ne_deadlock _ _)
  | noScheduleCall =>
    obtain rfl : _ = t := by simpa [State.mainStep, hpc] using hs
    obtain ⟨hc, hserve⟩ := enterInteractiveBatch_control s .noSchedule
    refine .serving (by simp) hc hserve fun hd => ?_
    exact absurd hd (enterInteractiveBatch_ne_deadlock _ _)
  | noScheduleWait | startTask =>
    obtain rfl : _ = t := by simpa [State.mainStep, hpc] using hs
    exact .elsewhere rfl rfl rfl (by simp)
  | handOver site ps =>
    have hsite : site = .slot → s.pc.readsSlot = true := by rintro rfl; rw [hpc]; rfl
    cases ps with
    | nil =>
      obtain rfl : _ = t := by simpa [State.mainStep, hpc] using hs
      exact .serving hsite rfl .afterHandOver (by simp)
    | cons p ps =>
      rw [State.mainStep, hpc, Option.some.injEq] at hs
      subst hs
      exact .serving hsite (handOverOne_control s p) (.handOver ps) (by simp)
  | afterHandOver site =>
    obtain rfl : _ = t := by simpa [State.mainStep, hpc] using hs
    obtain ⟨hc, hserve⟩ := leaveInteractiveBatch_control s site e
    exact .serving (by rintro rfl; rw [hpc]; rfl) hc hserve fun _ => ⟨site, hpc⟩
  | ret next =>
    obtain rfl : _ = t := by simpa [State.mainStep, hpc] using hs
    obtain ⟨hc, ⟨hpc', -⟩ | ⟨hpc', -⟩⟩ := stepRet_control s next
    · exact .elsewhere (congrArg (·.2.2.1) hc) (congrArg (·.2.2.2.1) hc) (by rw [hpc']; rfl)
        (by simp [hpc'])
    · exact .elsewhere (congrArg (·.2.2.1) hc) (congrArg (·.2.2.2.1) hc) (by rw [hpc']; rfl)
        (by simp [hpc'])
  | running | stopped | outOfRange | deadlock => simp [State.mainStep, hpc] at hs

theorem ReadsInRange.step (h : ReadsInRange s) (hs : step s l = some t) : ReadsInRange t := by
  cases l with
  | main e =>
    simp only [Rib.step, Option.ite_none_right_eq_some] at hs
    exact (mainStep_moved hs.2).reads h
  | _ =>
    have ho := step_outside (by simp) hs
    intro hr
    rw [hasSlot_congr ho.loop]
    rcases ho.pc with hpc | ⟨-, hpc⟩
    · exact h (hpc ▸ hr)
    · simp [hpc, Pc.readsSlot] at hr

/-- After the shut-down. -/
structure Stopping (s : State) : Prop where
  toContinue : s.toContinue = false
  reads : ReadsInRange s

theorem Stopping.step (h : Stopping s) (hs : step s l = some t) : Stopping t := by
  refine ⟨?_, h.reads.step hs⟩
  rcases step_turn hs with ⟨e, -, -, hturn⟩ | haside
  · cases hturn with
    | top => simp [State.stepTop, h.toContinue]
    | start => exact h.toContinue
    | switch => exact (stepRet_toContinue _ _).trans h.toContinue
    | dispatch => exact h.toContinue
    | quiet _ hq => exact hq.toContinue.trans h.toContinue
  · exact Bool.eq_false_iff.mpr fun ht => by simpa [h.toContinue] using haside.toContinue ht

/-- The slot that is about to be read. -/
theorem Stopping.slotNow (h : Stopping s) (hr : s.pc.readsSlot = true) :
    ∃ slot, s.slotNow = some slot := by
  cases hn : s.slotNow with
  | some slot => exact ⟨slot, rfl⟩
  | none => exact absurd (h.reads hr) (slotNow_eq_none.mp hn)

/-- The cancellations leave three tasks in the stack. -/
theorem cancelLoop_keeps {fuel : Nat} (h : s.cancelLoop e fuel = some t) :
    t = s ∨ 3 ≤ t.iCancelStack.length := by
  induction fuel generalizing s with
  | zero => exact .inl (by simpa [State.cancelLoop] using h.symm)
  | succ fuel ih =>
    simp only [State.cancelLoop] at h
    split at h
    · next p hp =>
      split at h
      · next hlong =>
        split at h
        · cases h
        · rcases ih h with rfl | hlen
          · refine .inr ?_
            simp only [State.cancelBack, List.length_dropLast]
            omega
          · exact .inr hlen
      · exact .inl (by simpa using h.symm)
    · exact .inl (by simpa using h.symm)

/-- At the end of a call the thread is blocked, has a task, or has found both queues of interactive
tasks empty. -/
theorem leaveInteractiveBatch_pc (s : State) (site : Site) (e : Env) :
    ((¬ ∀ p ∈ s.iCancelStack.drop 3, ¬ s.CancelDeadlocks e p) ∧
      (s.leaveInteractiveBatch site e).pc = .deadlock) ∨
    (∀ p ∈ s.iCancelStack.drop 3, ¬ s.CancelDeadlocks e p) ∧
      ((s.iEDFPriorityQueue ≠ [] ∨ s.iCancelStack ≠ []) ∧
          (∃ p, (s.leaveInteractiveBatch site e).pc = .startTask p) ∨
        (s.iEDFPriorityQueue = [] ∧ s.iCancelStack = []) ∧
          (s.leaveInteractiveBatch site e).pc = site.wait) := by
  have hiff := cancelLoop_ne_none_iff e s.iCancelStack.length s (Nat.le_refl _)
  simp only [State.leaveInteractiveBatch]
  split
  · next hnone => exact .inl ⟨fun h => hiff.mpr h hnone, rfl⟩
  · next u hu =>
    refine .inr ⟨hiff.mp (by simp [hu]), ?_⟩
    rcases cancelLoop_keeps hu with rfl | hlen
    · rcases takeInteractive_cases u site with ⟨p, _, hq, heq⟩ | ⟨p, _, -, hq, heq⟩ | ⟨hq, hq', heq⟩
      · exact .inl ⟨.inl (by simp [hq]), p, by rw [heq]⟩
      · exact .inl ⟨.inr (by simp [hq]), p, by rw [heq]⟩
      · exact .inr ⟨⟨hq, hq'⟩, by rw [heq]⟩
    · have hlong : s.iCancelStack ≠ [] := by
        rintro hnil
        obtain rfl : u = s := by simpa [hnil, State.cancelLoop] using hu.symm
        simp [hnil] at hlen
      refine .inl ⟨.inr hlong, ?_⟩
      rcases takeInteractive_cases u site with ⟨p, _, -, heq⟩ | ⟨p, _, -, -, heq⟩ | ⟨-, hq, -⟩
      · exact ⟨p, by rw [heq]⟩
      · exact ⟨p, by rw [heq]⟩
      · simp [hq] at hlen

/-- Other threads leave the main thread where it is. -/
theorem pc_of_outside (hm : s.pc.moves = true) (ho : Outside s l t) :
    t.pc = s.pc := by
  rcases ho.pc with hpc | ⟨hpc, -⟩
  · exact hpc
  · simp [hpc, Pc.moves] at hm

/-! ## The loop that waits for a schedule -/

theorem awaitsSchedule_mainStep (hs : s.pc.awaitsSchedule = true)
    (ht : s.mainStep e = some t) :
    t.pc = .deadlock ∨
      LeavesLoop s (.main e) ∧ (t.pc = .top ∨ ∃ p, t.pc = .startTask p) ∨
      ¬ LeavesLoop s (.main e) ∧ t.pc.awaitsSchedule = true := by
  cases hpc : s.pc with
  | noSchedule =>
    obtain rfl : _ = t := by simpa [State.mainStep, hpc] using ht
    refine .inr ?_
    by_cases hset : s.rtScheduleGreedy = [] ∧ s.rtScheduleNormal = []
    · exact .inr (by simp [LeavesLoop, hpc, State.stepNoSchedule, hset, Pc.awaitsSchedule])
    · have hset' : ¬ (s.rtScheduleGreedy.isEmpty && s.rtScheduleNormal.isEmpty) = true := by
        simpa using hset
      refine .inl ⟨?_, .inl (by simp [State.stepNoSchedule, hset'])⟩
      simpa [LeavesLoop, hpc, or_iff_not_imp_left] using hset
  | noScheduleCall =>
    obtain rfl : _ = t := by simpa [State.mainStep, hpc] using ht
    refine .inr ?_
    simp only [LeavesLoop, hpc]
    rcases enterInteractiveBatch_pc s .noSchedule with ⟨hd, h⟩ | ⟨hd, ⟨ps, h⟩ | h⟩
    · exact .inl ⟨hd, .inr h⟩
    · exact .inr ⟨hd, by rw [h]; rfl⟩
    · exact .inr ⟨hd, by rw [h]; rfl⟩
  | noScheduleWait =>
    obtain rfl : _ = t := by simpa [State.mainStep, hpc] using ht
    exact .inr (.inr ⟨by simp [LeavesLoop, hpc], rfl⟩)
  | handOver site ps =>
    obtain rfl : site = .noSchedule := by
      cases site
      · simp [hpc, Pc.awaitsSchedule] at hs
      · rfl
    refine .inr (.inr ⟨by simp [LeavesLoop, hpc], ?_⟩)
    cases ps with
    | nil =>
      obtain rfl : _ = t := by simpa [State.mainStep, hpc] using ht
      rfl
    | cons p ps =>
      rw [State.mainStep, hpc, Option.some.injEq] at ht
      subst ht
      rfl
  | afterHandOver site =>
    obtain rfl : site = .noSchedule := by
      cases site
      · simp [hpc, Pc.awaitsSchedule] at hs
      · rfl
    obtain rfl : _ = t := by simpa [State.mainStep, hpc] using ht
    simp only [LeavesLoop, hpc, not_or, not_not]
    rcases leaveInteractiveBatch_pc s .noSchedule e with ⟨-, h⟩ | ⟨-, ⟨hq, h⟩ | ⟨hq, h⟩⟩
    · exact .inl h
    · exact .inr (.inl ⟨hq, .inr h⟩)
    · exact .inr (.inr ⟨hq, by rw [h]; rfl⟩)
  | _ => simp [hpc, Pc.awaitsSchedule] at hs

/-- Other threads leave the main thread in the loop, and the main thread, if it is not blocked,
leaves it exactly as the condition says. -/
theorem awaitsSchedule_step (hs : s.pc.awaitsSchedule = true)
    (ht : step s l = some t) :
    t.pc = .deadlock ∨
      LeavesLoop s l ∧ (t.pc = .top ∨ ∃ p, t.pc = .startTask p) ∨
      ¬ LeavesLoop s l ∧ t.pc.awaitsSchedule = true := by
  cases l with
  | main e =>
    simp only [Rib.step, Option.ite_none_right_eq_some] at ht
    exact awaitsSchedule_mainStep (s := { s with clock := e.now }) hs ht.2
  | _ =>
    have hm : s.pc.moves = true := by
      cases hpc : s.pc <;> simp_all [Pc.awaitsSchedule, Pc.moves]
    have hpc := pc_of_outside hm (step_outside (by simp) ht)
    exact .inr (.inr ⟨by simp [LeavesLoop], by rw [hpc]; exact hs⟩)

theorem leavesLoop_awaits (h : LeavesLoop s l) :
    s.pc.awaitsSchedule = true := by
  cases l with
  | main e =>
    simp only [LeavesLoop] at h
    split at h
    · next hpc => rw [hpc]; rfl
    · next hpc => rw [hpc]; rfl
    · next hpc => rw [hpc]; rfl
    · exact h.elim
  | _ => exact h.elim

/-! ## Schedules stay set -/

/-- A schedule is set. -/
def Planned (s : State) : Prop := s.rtScheduleGreedy ≠ [] ∨ s.rtScheduleNormal ≠ []

/-- `SetSchedule` takes no empty schedule. -/
theorem Planned.step (h : Planned s) (ht : step s l = some t) : Planned t := by
  cases l with
  | main e =>
    simp only [Rib.step, Option.ite_none_right_eq_some] at ht
    have hm := mainStep_moved ht.2
    rwa [Planned, hm.normal, hm.greedy]
  | setSchedule normal greedy =>
    simp only [Rib.step, Option.some.injEq] at ht
    subst ht
    simp only [State.setSchedule]
    grind [Planned]
  | _ =>
    rcases (step_outside (by simp) ht).plan with ⟨hn, hg⟩ | hl
    · rwa [Planned, hn, hg]
    · cases hl

/-! ## Deadlocks, and what comes behind the return -/

/-- Only the cancellations can block the main thread. -/
theorem mainStep_deadlock_iff (ht : s.mainStep e = some t) :
    t.pc = .deadlock ↔ ¬ PassesLocks s (.main e) := by
  by_cases hpc : ∀ site, s.pc ≠ .afterHandOver site
  · refine iff_of_false (fun hd => ?_) (not_not.mpr fun site hs => absurd hs (hpc site))
    obtain ⟨site, hs⟩ := (mainStep_moved ht).blocked hd
    exact hpc site hs
  · simp only [ne_eq, not_forall, not_not] at hpc
    obtain ⟨site, hpc⟩ := hpc
    obtain rfl : _ = t := by simpa [State.mainStep, hpc] using ht
    simp only [PassesLocks, hpc, Pc.afterHandOver.injEq, forall_eq']
    rcases leaveInteractiveBatch_pc s site e with ⟨hn, h⟩ | ⟨hp, ⟨-, p, h⟩ | ⟨-, h⟩⟩
    · exact iff_of_true h hn
    · exact iff_of_false (by simp [h]) fun hn => hn hp
    · exact iff_of_false (by cases site <;> simp [h, Site.wait]) fun hn => hn hp

/-- The main thread is blocked exactly from a step on whose cancellations lead back to `qMutex`. -/
theorem step_deadlock_iff (ht : step s l = some t) :
    t.pc = .deadlock ↔ s.pc = .deadlock ∨ ¬ PassesLocks s l := by
  cases l with
  | main e =>
    simp only [Rib.step, Option.ite_none_right_eq_some] at ht
    have hs : s.pc ≠ .deadlock := by
      intro h
      simp [State.mainStep, h] at ht
    exact (mainStep_deadlock_iff ht.2).trans (by simp only [hs, false_or]; rfl)
  | _ =>
    have hpc := (step_outside (by simp) ht).pc
    simp only [PassesLocks, not_true, or_false]
    constructor
    · intro h
      rcases hpc with hpc | ⟨-, hpc⟩
      · exact hpc ▸ h
      · simp [hpc] at h
    · intro h
      rcases hpc with hpc | ⟨hpc, -⟩
      · exact hpc.trans h
      · simp [hpc] at h

/-- Places behind the return of `GetNextTask`. -/
def Pc.behind : Pc → Bool
  | .top | .ret _ | .mainLoop | .running | .stopped => true
  | _ => false

theorem behind_step (h : Stopping s) (hs : s.pc.behind = true)
    (ht : step s l = some t) : t.pc.behind = true := by
  cases l with
  | main e =>
    simp only [Rib.step, Option.ite_none_right_eq_some] at ht
    obtain ⟨-, ht⟩ := ht
    cases hpc : s.pc with
    | mainLoop =>
      simp only [State.mainStep, hpc, h.toContinue, Option.some.injEq] at ht
      subst ht
      rfl
    | top =>
      simp only [State.mainStep, hpc, State.stepTop, h.toContinue, Option.some.injEq] at ht
      subst ht
      rfl
    | ret next =>
      simp only [State.mainStep, hpc, Option.some.injEq] at ht
      subst ht
      obtain ⟨-, ⟨h, -⟩ | ⟨h, -⟩⟩ := stepRet_control { s with clock := e.now, pc := .ret next } next
      · simp [h, Pc.behind]
      · simp [h, Pc.behind]
    | running | stopped => simp [State.mainStep, hpc] at ht
    | _ => simp [hpc, Pc.behind] at hs
  | _ =>
    rcases (step_outside (by simp) ht).pc with hpc | ⟨-, hpc⟩
    · rw [hpc]
      exact hs
    · rw [hpc]
      rfl

end Steps

end JamSched.Rib
