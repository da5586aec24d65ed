import JamSched.Rib.Stopping
import JamSched.Machine.Fair

/-!
# The end of GetNextTask after ShutDown

All loops of `GetNextTask` test `toContinue`, or end when the clock has come far enough, but the one
that waits for a schedule: `while (rtScheduleGreedy.empty() && rtScheduleNormal.empty())` ends
through a schedule, or through a task that `GetAnInteractiveBatchTask` finds. Where neither comes
any more, the main thread stays there after the shut-down.
-/
namespace JamSched.Rib

open Machine

/-- The main thread is scheduled again and again, and its clock passes every time. -/
def Proceeds (x : InfiniteRun step) : Prop :=
  ∀ time : Int, x.Fair (fun l => ∃ e, l = .main e ∧ time ≤ e.now) (fun s => s.pc.moves = true)

/-- No task runs for ever. -/
def TasksLeave (x : InfiniteRun step) : Prop :=
  ∀ n, (x.state n).pc = .running → ∃ m, n ≤ m ∧ (x.state m).pc ≠ .running

section Runs

variable {x : InfiniteRun step} {Q R : Pc → Prop} {c : Pc}

/-- After the shut-down, at such a place. -/
def At (Q : Pc → Prop) (s : State) : Prop := Stopping s ∧ Q s.pc

def Returned (c : Pc) : Prop := ∃ next, c = .ret next

theorem stopping_lasts {n m : Nat} (h : Stopping (x.state n)) (hnm : n ≤ m) :
    Stopping (x.state m) :=
  InfiniteRun.lasts (fun _ _ _ h ht => h.step ht) h hnm

/-- From a place that every step of the main thread leaves. -/
theorem leadsTo_of_main (hx : Proceeds x) (hc : c.moves = true)
    (hQ : ∀ s e t, Stopping s → s.pc = c → s.mainStep e = some t → Q t.pc) :
    x.LeadsTo (At (· = c)) (At Q) := by
  have hmain (s : State) (e : Env) (t : State) (hs : At (· = c) s)
      (ht : step s (.main e) = some t) : At Q t := by
    refine ⟨hs.1.step ht, ?_⟩
    simp only [Rib.step, Option.ite_none_right_eq_some] at ht
    have hs' : Stopping { s with clock := e.now } := ⟨hs.1.toContinue, hs.1.reads⟩
    exact hQ _ e t hs' hs.2 ht.2
  refine InfiniteRun.leadsTo_of_fair (hx 0) ?_ ?_ ?_
  · rintro s ⟨-, rfl⟩
    exact hc
  · rintro s l t hs ht
    cases l with
    | main e => exact .inr (hmain s e t hs ht)
    | _ =>
      have hpc := pc_of_outside (by rw [hs.2]; exact hc) (step_outside (by simp) ht)
      exact .inl ⟨hs.1.step ht, hpc.trans hs.2⟩
  · rintro s l t hs ⟨e, rfl, -⟩ ht
    exact hmain s e t hs ht

theorem top_returns (hx : Proceeds x) : x.LeadsTo (At (· = .top)) (At Returned) := by
  refine leadsTo_of_main hx rfl fun s e t h hpc ht => ?_
  obtain rfl : _ = t := by simpa [State.mainStep, hpc] using ht
  exact ⟨none, by simp [State.stepTop, h.toContinue]⟩

theorem startTask_returns (hx : Proceeds x) (p : Ptr) :
    x.LeadsTo (At (· = .startTask p)) (At Returned) := by
  refine leadsTo_of_main hx rfl fun s e t h hpc ht => ?_
  obtain rfl : _ = t := by simpa [State.mainStep, hpc] using ht
  exact ⟨some p, rfl⟩

theorem rtWait_returns (hx : Proceeds x) : x.LeadsTo (At (· = .rtWait)) (At Returned) := by
  refine leadsTo_of_main hx rfl fun s e t h hpc ht => ?_
  obtain rfl : _ = t := by simpa [State.mainStep, hpc] using ht
  obtain ⟨slot, hslot⟩ := h.slotNow (by rw [hpc]; rfl)
  exact ⟨none, by simp [State.stepRtWait, hslot, h.toContinue]⟩

theorem slotWait_returns (hx : Proceeds x) : x.LeadsTo (At (· = .slotWait)) (At Returned) := by
  refine leadsTo_of_main hx rfl fun s e t h hpc ht => ?_
  obtain rfl : _ = t := by simpa [State.mainStep, hpc] using ht
  obtain ⟨slot, hslot⟩ := h.slotNow (by rw [hpc]; rfl)
  exact ⟨none, by simp [State.stepSlotWait, hslot, h.toContinue]⟩

theorem slotLoop_returns (hx : Proceeds x) : x.LeadsTo (At (· = .slotLoop)) (At Returned) := by
  refine InfiniteRun.LeadsTo.trans (leadsTo_of_main hx rfl fun s e t h hpc ht => ?_)
    (top_returns hx)
  obtain rfl : _ = t := by simpa [State.mainStep, hpc] using ht
  obtain ⟨slot, hslot⟩ := h.slotNow (by rw [hpc]; rfl)
  simp [State.stepSlotLoop, hslot, h.toContinue]

/-- The hand-over ends with its list. -/
theorem handOver_ends (hx : Proceeds x) (site : Site) (ps : List Ptr) :
    x.LeadsTo (At (· = .handOver site ps)) (At (· = .afterHandOver site)) := by
  induction ps with
  | nil =>
    refine leadsTo_of_main hx rfl fun s e t h hpc ht => ?_
    obtain rfl : _ = t := by simpa [State.mainStep, hpc] using ht
    rfl
  | cons p ps ih =>
    refine InfiniteRun.LeadsTo.trans (leadsTo_of_main hx rfl fun s e t h hpc ht => ?_) ih
    rw [State.mainStep, hpc, Option.some.injEq] at ht
    subst ht
    rfl

/-- From one of several places, none of which is a deadlock. -/
theorem leadsTo_of_places (hdead : ∀ n, (x.state n).pc ≠ .deadlock)
    (h : ∀ c, Q c → c ≠ .deadlock → x.LeadsTo (At (· = c)) (At R)) : x.LeadsTo (At Q) (At R) :=
  fun n hn => h _ hn.2 (hdead n) n ⟨hn.1, rfl⟩

/-- The places behind the hand-over. -/
theorem afterHandOver_ends (hx : Proceeds x) (site : Site) :
    x.LeadsTo (At (· = .afterHandOver site))
      (At fun c => (∃ p, c = .startTask p) ∨ c = site.wait ∨ c = .deadlock) := by
  refine leadsTo_of_main hx rfl fun s e t h hpc ht => ?_
  obtain rfl : _ = t := by simpa [State.mainStep, hpc] using ht
  rcases leaveInteractiveBatch_pc s site e with ⟨-, h⟩ | ⟨-, ⟨-, h⟩ | ⟨-, h⟩⟩
  · exact .inr (.inr h)
  · exact .inl h
  · exact .inr (.inl h)

/-- A call inside of a slot returns, or the wait behind it does. -/
theorem afterHandOver_slot_returns (hx : Proceeds x) (hdead : ∀ n, (x.state n).pc ≠ .deadlock) :
    x.LeadsTo (At (· = .afterHandOver .slot)) (At Returned) := by
  refine (afterHandOver_ends hx .slot).trans (leadsTo_of_places hdead ?_)
  rintro c (⟨p, rfl⟩ | rfl | rfl) hc
  · exact startTask_returns hx p
  · exact slotWait_returns hx
  · exact absurd rfl hc

/-- The call from either loop. -/
theorem call_goesOn (hx : Proceeds x) (site : Site) (hc : c.moves = true)
    (hcall : ∀ (s : State) e t, s.pc = c → s.mainStep e = some t →
      ∃ u : State, u.enterInteractiveBatch site = t) :
    x.LeadsTo (At (· = c))
      (At fun c => (∃ p, c = .startTask p) ∨ (∃ ps, c = .handOver site ps) ∨ c = site.wait) := by
  refine leadsTo_of_main hx hc fun s e t _ hpc ht => ?_
  obtain ⟨u, rfl⟩ := hcall s e t hpc ht
  rcases enterInteractiveBatch_pc u site with ⟨-, h⟩ | ⟨-, h | h⟩
  · exact .inl h
  · exact .inr (.inl h)
  · exact .inr (.inr h)

theorem slotCall_returns (hx : Proceeds x) (hdead : ∀ n, (x.state n).pc ≠ .deadlock) :
    x.LeadsTo (At (· = .slotCall)) (At Returned) := by
  refine (call_goesOn hx .slot rfl fun s e t hpc ht => ?_).trans (leadsTo_of_places hdead ?_)
  · obtain rfl : _ = t := by simpa [State.mainStep, hpc] using ht
    exact ⟨{ s with currentTime := e.now }, rfl⟩
  · rintro c (⟨p, rfl⟩ | ⟨ps, rfl⟩ | rfl) -
    · exact startTask_returns hx p
    · exact (handOver_ends hx .slot ps).trans (afterHandOver_slot_returns hx hdead)
    · exact slotWait_returns hx

/-- The spin for the end of a real-time slot ends when the clock has come there. -/
theorem rtSpin_ends (hx : Proceeds x) (ceTime : Int) :
    x.LeadsTo (At (· = .rtSpin ceTime)) (At (· = .slot)) := by
  intro n hn
  have hmain (s : State) (e : Env) (t : State)
      (hs : At (· = .rtSpin ceTime) s ∧ s.cycleStartTime = (x.state n).cycleStartTime)
      (ht : step s (.main e) = some t) :
      Stopping t ∧ (t.pc = .rtSpin ceTime ∧ e.now - s.cycleStartTime < ceTime ∧
        t.cycleStartTime = s.cycleStartTime ∨ t.pc = .slot) := by
    refine ⟨hs.1.1.step ht, ?_⟩
    simp only [Rib.step, Option.ite_none_right_eq_some] at ht
    obtain ⟨-, ht⟩ := ht
    obtain ⟨⟨-, hpc⟩, -⟩ := hs
    simp only [State.mainStep, hpc, State.stepRtSpin, Option.some.injEq] at ht
    subst ht
    split
    · next hlt => exact .inl ⟨rfl, hlt, rfl⟩
    · exact .inr rfl
  refine InfiniteRun.leadsTo_of_fair
    (P := fun s => At (· = .rtSpin ceTime) s ∧ s.cycleStartTime = (x.state n).cycleStartTime)
    (hx ((x.state n).cycleStartTime + ceTime)) ?_ ?_ ?_ n ⟨hn, rfl⟩
  · rintro s ⟨⟨-, hpc⟩, -⟩
    rw [hpc]
    rfl
  · rintro s l t hs ht
    cases l with
    | main e =>
      obtain ⟨hstop, ⟨hpc, -, hcycle⟩ | hpc⟩ := hmain s e t hs ht
      · exact .inl ⟨⟨hstop, hpc⟩, hcycle.trans hs.2⟩
      · exact .inr ⟨hstop, hpc⟩
    | _ =>
      have ho := step_outside (by simp) ht
      have hpc := pc_of_outside (by rw [hs.1.2]; rfl) ho
      have hloop := ho.loop
      simp only [State.loop, Prod.mk.injEq] at hloop
      exact .inl ⟨⟨hs.1.1.step ht, hpc.trans hs.1.2⟩, hloop.2.2.2.trans hs.2⟩
  · rintro s l t hs ⟨e, rfl, htime⟩ ht
    obtain ⟨hstop, ⟨-, hlt, -⟩ | hpc⟩ := hmain s e t hs ht
    · rw [hs.2] at hlt
      omega
    · exact ⟨hstop, hpc⟩

theorem slot_goesOn (hx : Proceeds x) :
    x.LeadsTo (At (· = .slot))
      (At fun c => c = .top ∨ c = .slotLoop ∨ c = .noSchedule ∨ Returned c) := by
  refine leadsTo_of_main hx rfl fun s e t h hpc ht => ?_
  obtain rfl : _ = t := by simpa [State.mainStep, hpc] using ht
  simp only [State.stepSlot]
  split
  · simp
  · split
    · split
      · exact .inr (.inr (.inr ⟨_, rfl⟩))
      · simp
    · simp

/-- The loop ends once a step leaves it. -/
theorem noSchedule_returns (hx : Proceeds x) (hdead : ∀ n, (x.state n).pc ≠ .deadlock)
    (hleave : ∀ n, (x.state n).pc = .noSchedule →
      ∃ m, n ≤ m ∧ LeavesLoop (x.state m) (x.label m)) :
    x.LeadsTo (At (· = .noSchedule)) (At Returned) := by
  intro n hn
  obtain ⟨m, hnm, hm⟩ := hleave n hn.2
  have hout : ¬ (x.state (m + 1)).pc.awaitsSchedule = true := by
    rcases awaitsSchedule_step (leavesLoop_awaits hm) (x.next m) with h | ⟨-, h | ⟨p, h⟩⟩ | ⟨h, -⟩
    · exact absurd h (hdead (m + 1))
    · simp [h, Pc.awaitsSchedule]
    · simp [h, Pc.awaitsSchedule]
    · exact absurd hm h
  have hin : (x.state n).pc.awaitsSchedule = true := by rw [hn.2]; rfl
  obtain ⟨k, hnk, -, hk, hk'⟩ := InfiniteRun.exists_exit
    (P := fun s : State => s.pc.awaitsSchedule = true) hin (Nat.le_succ_of_le hnm) hout
  have hle : n ≤ k + 1 := Nat.le_succ_of_le hnk
  rcases awaitsSchedule_step hk (x.next k) with h | ⟨-, h | ⟨p, h⟩⟩ | ⟨-, h⟩
  · exact absurd h (hdead (k + 1))
  · exact (top_returns hx).after ⟨stopping_lasts hn.1 hle, h⟩ hle
  · exact (startTask_returns hx p).after ⟨stopping_lasts hn.1 hle, h⟩ hle
  · exact absurd h hk'

/-- From every place inside of the function, if the loop ends and nothing is blocked. -/
theorem getNextTask_returns (hx : Proceeds x) (hdead : ∀ n, (x.state n).pc ≠ .deadlock)
    (hleave : ∀ n, (x.state n).pc = .noSchedule →
      ∃ m, n ≤ m ∧ LeavesLoop (x.state m) (x.label m)) :
    x.LeadsTo (At fun c => c.inGetNextTask = true) (At Returned) := by
  have hloop := noSchedule_returns hx hdead hleave
  have hslot : x.LeadsTo (At (· = .slot)) (At Returned) := by
    refine (slot_goesOn hx).trans (leadsTo_of_places hdead ?_)
    rintro c (rfl | rfl | rfl | h) -
    · exact top_returns hx
    · exact slotLoop_returns hx
    · exact hloop
    · exact .of_imp fun s hs => ⟨hs.1, hs.2.symm ▸ h⟩
  have hwait : x.LeadsTo (At (· = .noScheduleWait)) (At Returned) := by
    refine InfiniteRun.LeadsTo.trans (leadsTo_of_main hx rfl fun s e t h hpc ht => ?_) hloop
    obtain rfl : _ = t := by simpa [State.mainStep, hpc] using ht
    rfl
  have hafter (site : Site) : x.LeadsTo (At (· = .afterHandOver site)) (At Returned) := by
    cases site with
    | slot => exact afterHandOver_slot_returns hx hdead
    | noSchedule =>
      refine (afterHandOver_ends hx .noSchedule).trans (leadsTo_of_places hdead ?_)
      rintro c (⟨p, rfl⟩ | rfl | rfl) hc
      · exact startTask_returns hx p
      · exact hwait
      · exact absurd rfl hc
  refine leadsTo_of_places hdead fun c hc _ => ?_
  cases c with
  | top => exact top_returns hx
  | rtWait => exact rtWait_returns hx
  | rtSpin ceTime => exact (rtSpin_ends hx ceTime).trans hslot
  | slot => exact hslot
  | slotLoop => exact slotLoop_returns hx
  | slotCall => exact slotCall_returns hx hdead
  | slotWait => exact slotWait_returns hx
  | noSchedule => exact hloop
  | noScheduleCall =>
    refine (call_goesOn hx .noSchedule rfl fun s e t hpc ht => ?_).trans
      (leadsTo_of_places hdead ?_)
    · exact ⟨s, by simpa [State.mainStep, hpc] using ht⟩
    · rintro c (⟨p, rfl⟩ | ⟨ps, rfl⟩ | rfl) -
      · exact startTask_returns hx p
      · exact (handOver_ends hx .noSchedule ps).trans (hafter .noSchedule)
      · exact hwait
  | noScheduleWait => exact hwait
  | handOver site ps => exact (handOver_ends hx site ps).trans (hafter site)
  | afterHandOver site => exact hafter site
  | startTask p => exact startTask_returns hx p
  | mainLoop | running | ret | stopped | outOfRange | deadlock => cases hc

theorem never_deadlock (hpass : ∀ n, PassesLocks (x.state n) (x.label n))
    (h : (x.state 0).pc ≠ .deadlock) (n : Nat) : (x.state n).pc ≠ .deadlock := by
  induction n with
  | zero => exact h
  | succ n ih =>
    rw [ne_eq, step_deadlock_iff (x.next n)]
    rintro (hn | hn)
    · exact ih hn
    · exact hn (hpass n)

/-- Behind the return no cancellation is made and no schedule is waited for. -/
theorem before_return {n k : Nat} (hstop : Stopping (x.state 0)) (hk : Returned (x.state k).pc)
    (hn : (x.state n).pc.behind = false) : n < k := by
  by_contra hle
  have hlasts : Stopping (x.state n) ∧ (x.state n).pc.behind = true := by
    refine InfiniteRun.lasts (I := fun s => Stopping s ∧ s.pc.behind = true)
      (fun s l t h ht => ⟨h.1.step ht, behind_step h.1 h.2 ht⟩) ⟨?_, ?_⟩ (Nat.le_of_not_lt hle)
    · exact stopping_lasts hstop (Nat.zero_le k)
    · obtain ⟨next, hk⟩ := hk
      rw [hk]
      rfl
  simp [hlasts.2] at hn

/-- A call that returns has not been blocked. -/
theorem passesLocks_of_returned (hstop : Stopping (x.state 0)) {k : Nat}
    (hk : Returned (x.state k).pc) (n : Nat) : PassesLocks (x.state n) (x.label n) := by
  by_contra hn
  have hdead : (x.state (n + 1)).pc = .deadlock := (step_deadlock_iff (x.next n)).mpr (.inr hn)
  have hlt : n + 1 < k := before_return hstop hk (by rw [hdead]; rfl)
  have hlast : (x.state k).pc = .deadlock :=
    InfiniteRun.lasts (I := fun s => s.pc = .deadlock)
      (fun _ _ _ h ht => (step_deadlock_iff ht).mpr (.inl h)) hdead (Nat.le_of_lt hlt)
  obtain ⟨next, hk⟩ := hk
  simp [hk] at hlast

/-- A call that returns has left the loop that waits for a schedule. -/
theorem leavesLoop_of_returned (hstop : Stopping (x.state 0)) (h : (x.state 0).pc ≠ .deadlock)
    {k n : Nat} (hk : Returned (x.state k).pc) (hn : (x.state n).pc = .noSchedule) :
    ∃ m, n ≤ m ∧ LeavesLoop (x.state m) (x.label m) := by
  have hlt : n < k := before_return hstop hk (by rw [hn]; rfl)
  have hout : ¬ (x.state k).pc.awaitsSchedule = true := by
    obtain ⟨next, hk⟩ := hk
    simp [hk, Pc.awaitsSchedule]
  obtain ⟨m, hnm, -, hm, hm'⟩ := InfiniteRun.exists_exit
    (P := fun s : State => s.pc.awaitsSchedule = true) (by rw [hn]; rfl) (Nat.le_of_lt hlt) hout
  refine ⟨m, hnm, ?_⟩
  rcases awaitsSchedule_step hm (x.next m) with hd | ⟨hl, -⟩ | ⟨-, ha⟩
  · exact absurd hd (never_deadlock (passesLocks_of_returned hstop hk) h (m + 1))
  · exact hl
  · exact absurd ha hm'

/-- Behind the return the main loop comes to its end, if the task that was returned does. -/
theorem returned_stops (hx : Proceeds x) (htask : TasksLeave x) :
    x.LeadsTo (At Returned) (At (· = .stopped)) := by
  have hmain : x.LeadsTo (At (· = .mainLoop)) (At (· = .stopped)) := by
    refine leadsTo_of_main hx rfl fun s e t h hpc ht => ?_
    obtain rfl : _ = t := by simpa [State.mainStep, hpc] using ht
    simp [h.toContinue]
  have hnone : x.LeadsTo (At (· = .ret none)) (At (· = .stopped)) := by
    refine InfiniteRun.LeadsTo.trans (leadsTo_of_main hx rfl fun s e t h hpc ht => ?_) hmain
    obtain rfl : _ = t := by simpa [State.mainStep, hpc] using ht
    obtain ⟨-, ⟨h, -⟩ | ⟨-, -, h⟩⟩ := stepRet_control s none
    · exact h
    · exact absurd rfl h
  have htop : x.LeadsTo (At (· = .top)) (At (· = .stopped)) := by
    refine InfiniteRun.LeadsTo.trans (leadsTo_of_main hx rfl fun s e t h hpc ht => ?_) hnone
    obtain rfl : _ = t := by simpa [State.mainStep, hpc] using ht
    simp [State.stepTop, h.toContinue]
  have hrun : x.LeadsTo (At (· = .running)) (At (· = .stopped)) := by
    intro n hn
    obtain ⟨m, hnm, hm⟩ := htask n hn.2
    obtain ⟨k, hnk, -, hk, hk'⟩ := InfiniteRun.exists_exit
      (P := fun s : State => s.pc = .running) hn.2 hnm hm
    have hle : n ≤ k + 1 := Nat.le_succ_of_le hnk
    have hpc : (x.state (k + 1)).pc = .top := by
      have hnext := x.next k
      cases hl : x.label k with
      | main e =>
        rw [hl] at hnext
        simp [Rib.step, State.mainStep, hk] at hnext
      | _ =>
        rw [hl] at hnext
        rcases (step_outside (by simp) hnext).pc with h | ⟨-, h⟩
        · exact absurd (h.trans hk) hk'
        · exact h
    exact htop.after ⟨stopping_lasts hn.1 hle, hpc⟩ hle
  intro n hn
  obtain ⟨hstop, next, hpc⟩ := hn
  cases next with
  | none => exact hnone n ⟨hstop, hpc⟩
  | some p =>
    have hswitch : x.LeadsTo (At (· = .ret (some p))) (At (· = .running)) := by
      refine leadsTo_of_main hx rfl fun s e t h hpc ht => ?_
      obtain rfl : _ = t := by simpa [State.mainStep, hpc] using ht
      obtain ⟨-, ⟨-, -, h⟩ | ⟨h, -⟩⟩ := stepRet_control s (some p)
      · cases h
      · exact h
    exact hswitch.trans hrun n ⟨hstop, hpc⟩

theorem readsInRange_run {thiefSizes : List Nat} {start : Int} {ls : List Label} {s : State}
    (hr : run step (initial thiefSizes start) ls = some s) : ReadsInRange s :=
  run_invariant (fun _ _ _ h ht => h.step ht) (fun h => by simp [initial, Pc.readsSlot] at h) hr

/-- Once a schedule has been set, the loop that waits for one is left at its next test. -/
theorem leavesLoop_of_planned (hx : Proceeds x) {n : Nat} (hstop : Stopping (x.state n))
    (hplan : Planned (x.state n)) (hn : (x.state n).pc = .noSchedule) :
    ∃ m, n ≤ m ∧ LeavesLoop (x.state m) (x.label m) := by
  have hnext : x.LeadsTo (At (· = .noSchedule)) (At (· ≠ .noSchedule)) := by
    refine leadsTo_of_main hx rfl fun s e t h hpc ht => ?_
    obtain rfl : _ = t := by simpa [State.mainStep, hpc] using ht
    simp only [State.stepNoSchedule]
    split <;> simp
  obtain ⟨m, hnm, -, hm⟩ := hnext n ⟨hstop, hn⟩
  obtain ⟨k, hnk, -, hk, hk'⟩ := InfiniteRun.exists_exit
    (P := fun s : State => s.pc = .noSchedule) hn hnm hm
  refine ⟨k, hnk, ?_⟩
  have hplan' : Planned (x.state k) :=
    InfiniteRun.lasts (fun _ _ _ h ht => h.step ht) hplan hnk
  have hstep := x.next k
  cases hl : x.label k with
  | main e =>
    simp only [LeavesLoop, hk]
    exact hplan'
  | _ =>
    rw [hl] at hstep
    have hpc := pc_of_outside (by rw [hk]; rfl) (step_outside (by simp) hstep)
    exact absurd (hpc.trans hk) hk'

/-- With a schedule set, the function returns after the shut-down if it is not blocked. -/
theorem returns_of_planned (hx : Proceeds x) (hstop : Stopping (x.state 0))
    (hpc : (x.state 0).pc.inGetNextTask = true) (hplan : Planned (x.state 0))
    (hpass : ∀ n, PassesLocks (x.state n) (x.label n)) :
    ∃ n next, (x.state n).pc = .ret next := by
  have hdead : (x.state 0).pc ≠ .deadlock := by
    intro h
    simp [h, Pc.inGetNextTask] at hpc
  have hleave (n : Nat) (hn : (x.state n).pc = .noSchedule) :
      ∃ m, n ≤ m ∧ LeavesLoop (x.state m) (x.label m) := by
    have hlasts : Stopping (x.state n) ∧ Planned (x.state n) :=
      InfiniteRun.lasts (I := fun s => Stopping s ∧ Planned s)
        (fun _ _ _ h ht => ⟨h.1.step ht, h.2.step ht⟩) ⟨hstop, hplan⟩ (Nat.zero_le n)
    exact leavesLoop_of_planned hx hlasts.1 hlasts.2 hn
  obtain ⟨n, -, -, hn⟩ := getNextTask_returns hx (never_deadlock hpass hdead) hleave 0 ⟨hstop, hpc⟩
  exact ⟨n, hn⟩

/-- The main thread comes to the loop that waits for a schedule, and the scheduler is shut down. -/
def awaitRun : List Label := [.main { now := 0 }, .main { now := 0 }, .main { now := 0 }, .shutDown]

/-- After two tests of the loop a schedule is set. -/
def lateScheduleRun : List Label :=
  [1, 2, 3].map (fun now => Label.main { now }) ++
    [Label.setSchedule [⟨0, 1000, 0⟩] [⟨0, 1000, 0⟩]] ++
    [4, 5, 6, 7].map fun now => Label.main { now }

/-- The places of the main thread in this run, and behind its end. -/
def lateSchedulePc : Nat → Pc
  | 0 | 3 | 4 => .noSchedule
  | 1 => .noScheduleCall
  | 2 => .noScheduleWait
  | 5 => .top
  | 6 => .ret none
  | 7 => .mainLoop
  | _ => .stopped

theorem lateSchedulePc_eq (n : Nat) :
    (run step (initial [0] 0) (awaitRun ++ lateScheduleRun.take n)).map State.pc =
      some (lateSchedulePc n) := by
  have hfirst : ∀ n < 8, (run step (initial [0] 0) (awaitRun ++ lateScheduleRun.take n)).map
      State.pc = some (lateSchedulePc n) := by decide
  rcases Nat.lt_or_ge n 8 with hlt | hge
  · exact hfirst n hlt
  · obtain ⟨k, rfl⟩ := Nat.exists_eq_add_of_le' hge
    rw [List.take_of_length_le hge]
    change _ = some Pc.stopped
    decide

theorem lateSchedulePc_ne (n : Nat) (site : Site) : lateSchedulePc n ≠ .afterHandOver site := by
  unfold lateSchedulePc
  split <;> simp

theorem le_of_lateSchedulePc {n : Nat} (h : lateSchedulePc n = .noSchedule) : n ≤ 4 := by
  unfold lateSchedulePc at h
  split at h <;> first | omega | cases h

/-- The place of the main thread after `n` steps of the loop. -/
def idlePc (n : Nat) : Pc :=
  if n % 3 = 0 then .noSchedule else if n % 3 = 1 then .noScheduleCall else .noScheduleWait

/-- Nothing was created and no schedule set when the scheduler was shut down. -/
def idleState (n : Nat) : State :=
  { initial [0] 0 with toContinue := false, clock := n, pc := idlePc n }

theorem idleState_next (n : Nat) :
    step (idleState n) (.main { now := (n : Int) + 1 }) = some (idleState (n + 1)) := by
  have hclock : (n : Int) ≤ n + 1 := by omega
  simp only [step, idleState, idlePc]
  rcases (by omega : n % 3 = 0 ∨ n % 3 = 1 ∨ n % 3 = 2) with h | h | h
  · have h' : (n + 1) % 3 = 1 := by omega
    simp [hclock, h, h', State.mainStep, State.stepNoSchedule, initial]
  · have h' : (n + 1) % 3 = 2 := by omega
    simp [hclock, h, h', State.mainStep, State.enterInteractiveBatch, State.decideQueue,
      State.noInteractiveBatch, Site.wait, initial]
  · have h' : (n + 1) % 3 = 0 := by omega
    simp [hclock, h, h', State.mainStep, initial]

/-- The main thread stays in the loop for ever. -/
def idleRun : InfiniteRun step where
  state := idleState
  label n := .main { now := (n : Int) + 1 }
  next := idleState_next

end Runs

end JamSched.Rib
