import JamSched.Rib.Conservation
import JamSched.Rib.CancelLoop
import JamSched.Rib.Once
import JamSched.Rib.TreapOrder

/-!
# Tasks past their latest start

A task of the treap has to start before its deadline less its burst. The scan at the head of
the interactive branch takes out tasks for which this is over, as seen from `currentTime`, and
stops at the first task that is still in time. What it leaves can be returned late for two
reasons: the lock is released after the scan, so that other threads link further tasks, and
only one of the two callers reads the clock before the call.
-/
namespace JamSched.Rib

open Machine

/-- When the task has to start at the latest. -/
def State.latestStart (s : State) (p : Ptr) : Int :=
  (s.heap p).deadline - (s.heap p).burst + s.schedulerStartTime

theorem isExpired_eq (s : State) (p : Ptr) :
    s.isExpired p = decide (s.latestStart p < s.currentTime) := rfl

/-- What is remembered of the current call. -/
structure Window where
  /-- The clock at the call. -/
  called : Int := 0
  /-- Tasks that were passed to `Enable` since. -/
  inserted : List Ptr := []
  deriving DecidableEq, Repr

def Window.next (w : Window) (s : State) (l : Label) : Window :=
  match l, s.pc with
  | .main e, .slotCall | .main e, .noScheduleCall => { called := e.now, inserted := [] }
  | _, _ => { w with inserted := (l.enables s).toList ++ w.inserted }

/-- The machine with the window of the current call. -/
abbrev watchedStep : State × Window → Label → Option (State × Window) :=
  observe step Window.next

/-- A task that the step returns from the treap could still start in time when the function
was called; one that could not comes from the cancel stack. -/
def ReturnsInTime (x : State × Window) (l : Label) : Prop :=
  ∀ site t p, x.1.pc = .afterHandOver site → step x.1 l = some t → t.pc = .startTask p →
    (p ∈ x.1.iEDFPriorityQueue → x.2.called ≤ x.1.latestStart p) ∧
      (x.1.latestStart p < x.2.called → p ∈ x.1.iCancelStack)

/-- The call that has taken the lock again. -/
def Pc.relocked : Pc → List Site
  | .afterHandOver site => [site]
  | _ => []

/-- The task is not late for a call from `site`: neither was it inserted while the lock was
released, nor did it become late, before any schedule was set, since `currentTime` was read. -/
def Window.NotLate (w : Window) (s : State) (site : Site) (p : Ptr) : Prop :=
  (p ∈ w.inserted → w.called ≤ s.latestStart p) ∧
    (p ∉ w.inserted → site = .noSchedule →
      ¬ (s.currentTime ≤ s.latestStart p ∧ s.latestStart p < w.called))

instance (w : Window) (s : State) (site : Site) (p : Ptr) : Decidable (w.NotLate s site p) :=
  inferInstanceAs (Decidable (_ ∧ _))

/-- When the lock is taken again, the head of the treap is not late, unless the thread blocks
itself while it cancels and returns nothing. -/
def HeadInTime (x : State × Window) : Label → Prop
  | .main e => ∀ site ∈ x.1.pc.relocked, ∀ p ∈ x.1.iEDFPriorityQueue.take 1,
    (∀ q ∈ x.1.iCancelStack.drop 3, ¬ x.1.CancelDeadlocks e q) → x.2.NotLate x.1 site p
  | _ => True

instance (x : State × Window) (l : Label) : Decidable (HeadInTime x l) :=
  match l with
  | .main e => inferInstanceAs (Decidable (∀ site ∈ x.1.pc.relocked,
      ∀ p ∈ x.1.iEDFPriorityQueue.take 1,
        (∀ q ∈ x.1.iCancelStack.drop 3, ¬ x.1.CancelDeadlocks e q) → x.2.NotLate x.1 site p))
  | .task _ | .createRealTime _ _ | .createInteractive _ _ _ _ | .createBatch _ _ _ _ | .wake _
  | .setSchedule _ _ | .shutDown | .thiefs _ | .waiters _ _ _ => inferInstanceAs (Decidable True)

section Treap

/-- An insertion into a list goes before the rest of it, which then keeps its head. -/
theorem edfInsert_append (h : Heap) (p : Ptr) (as bs : List Ptr) :
    ∃ as' bs', edfInsert h p (as ++ bs) = as' ++ bs' ∧ as' ⊆ p :: as ∧
      bs'.head? = bs.head? := by
  induction as with
  | nil =>
    cases bs with
    | nil => exact ⟨[p], [], rfl, by simp, rfl⟩
    | cons b bs =>
      simp only [List.nil_append, edfInsert]
      split
      · exact ⟨[p], b :: bs, rfl, by simp, rfl⟩
      · exact ⟨[], b :: edfInsert h p bs, rfl, by simp, rfl⟩
  | cons a as ih =>
    simp only [List.cons_append, edfInsert]
    split
    · exact ⟨p :: a :: as, bs, rfl, by simp, rfl⟩
    · obtain ⟨as', bs', heq, hsub, hhead⟩ := ih
      refine ⟨a :: as', bs', by rw [heq]; rfl, ?_, hhead⟩
      grind

end Treap

section Window

/-- Between the scan and the return, tasks that were inserted since may stand before the task
at which the scan stopped. -/
structure Scanned (s : State) (w : Window) (site : Site) : Prop where
  head : ∃ as bs, s.iEDFPriorityQueue = as ++ bs ∧ as ⊆ w.inserted ∧
    ∀ p, bs.head? = some p → s.currentTime ≤ s.latestStart p
  slot : site = .slot → s.currentTime = w.called

/-- The main thread is between the scan and the return of a call from `site`. -/
def Pc.inWindow : Pc → Option Site
  | .handOver site _ | .afterHandOver site => some site
  | _ => none

structure Watched (s : State) (w : Window) : Prop where
  once : Once s
  scanned : ∀ site, s.pc.inWindow = some site → Scanned s w site

variable {s t : State} {w w' : Window} {e : Env} {l : Label} {site : Site}

/-- The scan stops at a task that is still in time. -/
theorem unexpired_head {p : Ptr} (h : s.unexpired.head? = some p) :
    s.currentTime ≤ s.latestStart p := by
  have hnot := List.head?_dropWhile_not s.isExpired s.iEDFPriorityQueue
  rw [State.unexpired] at h
  rw [h] at hnot
  simpa [isExpired_eq] using hnot

theorem stepTop_inWindow (s : State) (now : Int) : (s.stepTop now).pc.inWindow = none := by
  simp only [State.stepTop]
  split
  · rfl
  split
  · rfl
  split
  · rfl
  · split
    · rfl
    · split <;> rfl
  · rfl

theorem serving_inWindow {pc : Pc} {site' : Site} (h : Serving site pc)
    (hw : pc.inWindow = some site') : site = site' := by
  cases h with
  | handOver => simpa [Pc.inWindow] using hw
  | afterHandOver => simpa [Pc.inWindow] using hw
  | wait => cases site <;> simp [Site.wait, Pc.inWindow] at hw
  | startTask => simp [Pc.inWindow] at hw
  | deadlock => simp [Pc.inWindow] at hw

theorem leaveInteractiveBatch_inWindow (s : State) (site : Site) (e : Env) :
    (s.leaveInteractiveBatch site e).pc.inWindow = none := by
  cases hc : s.cancelLoop e s.iCancelStack.length with
  | none => simp [State.leaveInteractiveBatch, hc, Pc.inWindow]
  | some u =>
    simp only [State.leaveInteractiveBatch, hc]
    obtain ⟨p, edf, -, heq⟩ | ⟨p, stack, -, -, heq⟩ | ⟨-, -, heq⟩ := takeInteractive_cases u site
    · rw [heq]
      rfl
    · rw [heq]
      rfl
    · rw [heq]
      cases site <;> rfl

/-- The window is entered from a call only. -/
theorem mainStep_inWindow (hs : s.mainStep e = some t) (hw : t.pc.inWindow ≠ none) :
    s.pc = .slotCall ∨ s.pc = .noScheduleCall ∨ s.pc.inWindow ≠ none := by
  cases hpc : s.pc with
  | slotCall => exact .inl rfl
  | noScheduleCall => exact .inr (.inl rfl)
  | handOver => exact .inr (.inr (by simp [Pc.inWindow]))
  | afterHandOver => exact .inr (.inr (by simp [Pc.inWindow]))
  | mainLoop =>
    obtain rfl : _ = t := by simpa [State.mainStep, hpc] using hs
    cases hc : s.toContinue <;> simp [hc, Pc.inWindow] at hw
  | top =>
    obtain rfl : _ = t := by simpa [State.mainStep, hpc] using hs
    exact absurd (stepTop_inWindow s e.now) hw
  | rtWait =>
    obtain rfl : _ = t := by simpa [State.mainStep, hpc] using hs
    simp only [State.stepRtWait] at hw
    split at hw
    · exact absurd rfl hw
    split at hw
    · split at hw <;> exact absurd rfl hw
    · simp [hpc, Pc.inWindow] at hw
  | rtSpin ceTime =>
    obtain rfl : _ = t := by simpa [State.mainStep, hpc] using hs
    simp only [State.stepRtSpin] at hw
    split at hw
    · simp [hpc, Pc.inWindow] at hw
    · exact absurd rfl hw
  | slot =>
    obtain rfl : _ = t := by simpa [State.mainStep, hpc] using hs
    simp only [State.stepSlot] at hw
    split at hw
    · exact absurd rfl hw
    split at hw
    · split at hw <;> exact absurd rfl hw
    · exact absurd rfl hw
  | slotLoop =>
    obtain rfl : _ = t := by simpa [State.mainStep, hpc] using hs
    simp only [State.stepSlotLoop] at hw
    split at hw
    · exact absurd rfl hw
    · split at hw <;> exact absurd rfl hw
  | slotWait =>
    obtain rfl : _ = t := by simpa [State.mainStep, hpc] using hs
    simp only [State.stepSlotWait] at hw
    split at hw
    · exact absurd rfl hw
    split at hw
    · split at hw <;> exact absurd rfl hw
    · simp [hpc, Pc.inWindow] at hw
  | noSchedule =>
    obtain rfl : _ = t := by simpa [State.mainStep, hpc] using hs
    simp only [State.stepNoSchedule] at hw
    split at hw <;> exact absurd rfl hw
  | noScheduleWait | startTask =>
    obtain rfl : _ = t := by simpa [State.mainStep, hpc] using hs
    exact absurd rfl hw
  | ret next =>
    obtain rfl : _ = t := by simpa [State.mainStep, hpc] using hs
    obtain ⟨-, ⟨hpc', -⟩ | ⟨hpc', -⟩⟩ := stepRet_control s next <;> simp [hpc', Pc.inWindow] at hw
  | running | stopped | outOfRange | deadlock => simp [State.mainStep, hpc] at hs

/-- The scan of a call opens the window. -/
theorem Scanned.enter (hw : (s.enterInteractiveBatch site).pc.inWindow = some site)
    (hslot : site = .slot → s.currentTime = w.called) :
    Scanned (s.enterInteractiveBatch site) w site := by
  cases hd : s.decideQueue with
  | none =>
    rw [enterInteractiveBatch_none site hd] at hw
    cases site <;> simp [State.noInteractiveBatch, Site.wait, Pc.inWindow] at hw
  | some type =>
    cases type with
    | interactive =>
      rw [enterInteractiveBatch_interactive site hd]
      refine ⟨⟨[], s.unexpired, rfl, List.nil_subset _, fun p hp => ?_⟩, hslot⟩
      exact unexpired_head (s := s) hp
    | batch =>
      cases hb : s.bQueue with
      | nil => exact absurd hb (decideQueue_batch hd)
      | cons p bs =>
        rw [enterInteractiveBatch_batch site hd hb] at hw
        simp [Pc.inWindow] at hw
    | realTime => exact absurd hd (decideQueue_ne_realTime s)

theorem latestStart_congr {p : Ptr} (hk : (t.heap p).keys = (s.heap p).keys)
    (ht : t.schedulerStartTime = s.schedulerStartTime) : t.latestStart p = s.latestStart p := by
  simp only [TaskInterface.keys, Prod.mk.injEq] at hk
  simp only [State.latestStart, hk, ht]

/-- The hand-over leaves the treap alone: a task that is deleted is not linked. -/
theorem Scanned.handOver {p : Ptr} {ps : List Ptr} (h : Scanned s w site) (honce : Once s)
    (hpc : s.pc = .handOver site (p :: ps)) :
    Scanned { s.handOverOne p with pc := .handOver site ps } w site := by
  have hnot : p ∉ s.iEDFPriorityQueue := by
    have hnodup := honce.served_nodup
    simp only [State.served, hpc, Pc.chosen] at hnodup
    grind
  have hedf : (s.handOverOne p).iEDFPriorityQueue = s.iEDFPriorityQueue := by
    cases hmin : getMinThief s.thiefSizes with
    | some i => simp [State.handOverOne, hmin]
    | none => simp [State.handOverOne, hmin, State.delete, List.erase_of_not_mem hnot]
  have htimes : (s.handOverOne p).schedulerStartTime = s.schedulerStartTime ∧
      (s.handOverOne p).currentTime = s.currentTime := by
    simp only [State.handOverOne]
    split <;> exact ⟨rfl, rfl⟩
  obtain ⟨as, bs, heq, hsub, hhead⟩ := h.head
  refine ⟨⟨as, bs, hedf.trans heq, hsub, fun q hq => ?_⟩, fun hsite => ?_⟩
  · have hlatest : (s.handOverOne p).latestStart q = s.latestStart q :=
      latestStart_congr ((handOverOne_serves s p).keys q) htimes.1
    have := hhead q hq
    rw [← htimes.2, ← hlatest] at this
    exact this
  · exact htimes.2.trans (h.slot hsite)

theorem Watched.mainStep (h : Watched s w) (honce : Once t) (hs : s.mainStep e = some t) :
    Watched t (w.next s (.main e)) := by
  refine ⟨honce, fun site hw => ?_⟩
  have hwin := mainStep_inWindow hs (by simp [hw])
  cases hpc : s.pc with
  | slotCall =>
    obtain rfl : _ = t := by simpa [State.mainStep, hpc] using hs
    have hserve := (enterInteractiveBatch_control { s with currentTime := e.now } .slot).2
    obtain rfl : Site.slot = site := serving_inWindow hserve hw
    simp only [Window.next, hpc]
    exact Scanned.enter hw fun _ => rfl
  | noScheduleCall =>
    obtain rfl : _ = t := by simpa [State.mainStep, hpc] using hs
    have hserve := (enterInteractiveBatch_control s .noSchedule).2
    obtain rfl : Site.noSchedule = site := serving_inWindow hserve hw
    simp only [Window.next, hpc]
    exact Scanned.enter hw fun h => by cases h
  | handOver site' l =>
    have hnext : w.next s (.main e) = w := by simp [Window.next, hpc, Label.enables]
    rw [hnext]
    have hscan := h.scanned site' (by rw [hpc]; rfl)
    cases l with
    | nil =>
      obtain rfl : _ = t := by simpa [State.mainStep, hpc] using hs
      obtain rfl : site' = site := by simpa [Pc.inWindow] using hw
      exact ⟨hscan.head, hscan.slot⟩
    | cons p ps =>
      rw [State.mainStep, hpc, Option.some.injEq] at hs
      subst hs
      obtain rfl : site' = site := by simpa [Pc.inWindow] using hw
      exact hscan.handOver h.once hpc
  | afterHandOver site' =>
    rw [State.mainStep, hpc, Option.some.injEq] at hs
    rw [← hs, leaveInteractiveBatch_inWindow] at hw
    cases hw
  | _ => simp [hpc, Pc.inWindow] at hwin

theorem Watched.step (h : Watched s w) (hs : step s l = some t) : Watched t (w.next s l) := by
  have honce := h.once.step hs
  by_cases hmain : ∃ e, l = .main e
  · obtain ⟨e, rfl⟩ := hmain
    simp only [Rib.step, Option.ite_none_right_eq_some] at hs
    have htick : Watched { s with clock := e.now } w :=
      ⟨⟨h.once.placed.of_eq rfl rfl, h.once.once⟩,
        fun site hw => ⟨(h.scanned site hw).head, (h.scanned site hw).slot⟩⟩
    exact htick.mainStep honce hs.2
  · have ha := step_aside (fun e he => hmain ⟨e, he⟩) hs
    have hnext : w.next s l = { w with inserted := (l.enables s).toList ++ w.inserted } := by
      cases l <;> first | rfl | exact absurd ⟨_, rfl⟩ hmain
    refine ⟨honce, fun site hw => ?_⟩
    have hpc : t.pc = s.pc := by
      rcases ha.outside.pc with hpc | ⟨-, hpc⟩
      · exact hpc
      · simp [hpc, Pc.inWindow] at hw
    obtain ⟨⟨as, bs, heq, hsub, hhead⟩, hslot⟩ := h.scanned site (hpc ▸ hw)
    have hin (q : Ptr) (hq : bs.head? = some q) : t.currentTime ≤ t.latestStart q := by
      have hmem : q ∈ s.iEDFPriorityQueue := by
        rw [heq]
        exact List.mem_append_right _ (List.mem_of_mem_head? hq)
      have hlt := h.once.placed.known q (.inl (mem_places_of_linked hmem))
      rw [ha.times.2, latestStart_congr (ha.keys q hlt) ha.times.1]
      exact hhead q hq
    rw [hnext]
    refine ⟨?_, fun hsite => ha.times.2.trans (hslot hsite)⟩
    rcases ha.edf with hedf | ⟨p, hp, hedf⟩
    · refine ⟨as, bs, hedf.trans heq, fun q hq => ?_, hin⟩
      exact List.mem_append_right _ (hsub hq)
    · obtain ⟨as', bs', hins, hsub', hhead'⟩ := edfInsert_append t.heap p as bs
      refine ⟨as', bs', by rw [hedf, heq, hins], fun q hq => ?_, fun q hq => ?_⟩
      · simp only [hp, Option.toList_some, List.mem_append, List.mem_singleton]
        exact (List.mem_cons.mp (hsub' hq)).imp_right fun h => hsub h
      · exact hin q (hhead' ▸ hq)

/-- What the function returns is the head of the treap, or comes from the cancel stack when
the treap is empty. -/
theorem leaveInteractiveBatch_returns (honce : Once s) (hpc : s.pc = .afterHandOver site) :
    (s.cancelLoop e s.iCancelStack.length = none ∧
      (s.leaveInteractiveBatch site e).pc = .deadlock) ∨
    (s.cancelLoop e s.iCancelStack.length ≠ none ∧ ∃ p edf, s.iEDFPriorityQueue = p :: edf ∧
      (s.leaveInteractiveBatch site e).pc = .startTask p) ∨
    (s.iEDFPriorityQueue = [] ∧ ∀ p, (s.leaveInteractiveBatch site e).pc = .startTask p →
      p ∈ s.iCancelStack) := by
  cases hc : s.cancelLoop e s.iCancelStack.length with
  | none => exact .inl ⟨rfl, by simp [State.leaveInteractiveBatch, hc]⟩
  | some u =>
    have hnodup : (s.bQueue ++ s.iEDFPriorityQueue ++ s.iCancelStack).Nodup := by
      simpa [State.served, hpc, Pc.chosen] using honce.served_nodup
    have hcan := cancelLoop_cancels hnodup (Nat.le_refl _) hc
    simp only [State.leaveInteractiveBatch, hc]
    obtain ⟨p, edf, hedf, heq⟩ | ⟨p, stack, hedf, hstack, heq⟩ | ⟨hedf, -, heq⟩ :=
      takeInteractive_cases u site
    · exact .inr (.inl ⟨by simp, p, edf, hcan.iEDFPriorityQueue ▸ hedf, by rw [heq]⟩)
    · refine .inr (.inr ⟨hcan.iEDFPriorityQueue ▸ hedf, fun q hq => ?_⟩)
      obtain rfl : p = q := by simpa [heq] using hq
      have : p ∈ u.iCancelStack := by simp [hstack]
      rw [hcan.iCancelStack] at this
      exact List.mem_of_mem_take this
    · refine .inr (.inr ⟨hcan.iEDFPriorityQueue ▸ hedf, fun q hq => ?_⟩)
      rw [heq] at hq
      cases site <;> simp [Site.wait] at hq

/-- The head of the treap could start in time at the call exactly when it is not late: if it was
not inserted since, the scan has stopped at it. -/
theorem Watched.called_le_iff (h : Watched s w) {site : Site} (hpc : s.pc = .afterHandOver site)
    {p : Ptr} {edf : List Ptr} (hedf : s.iEDFPriorityQueue = p :: edf) :
    w.called ≤ s.latestStart p ↔ w.NotLate s site p := by
  constructor
  · intro hle
    exact ⟨fun _ => hle, fun _ _ => by omega⟩
  · rintro ⟨hins, hold⟩
    by_cases hmem : p ∈ w.inserted
    · exact hins hmem
    · obtain ⟨⟨as, bs, heq, hsub, hhead⟩, hslot⟩ := h.scanned site (by rw [hpc]; rfl)
      have hbs : bs.head? = some p := by
        rw [hedf] at heq
        cases as with
        | nil =>
          rw [List.nil_append] at heq
          rw [← heq]
          rfl
        | cons a as =>
          rw [List.cons_append, List.cons.injEq] at heq
          exact absurd (hsub (by simp [heq.1])) hmem
      have hle := hhead p hbs
      cases site with
      | slot =>
        have := hslot rfl
        omega
      | noSchedule =>
        have := hold hmem rfl
        omega

theorem returnsInTime_iff_step {site : Site} (hpc : s.pc = .afterHandOver site)
    (hs : step s (.main e) = some t) :
    ReturnsInTime (s, w) (.main e) ↔ ∀ p, t.pc = .startTask p →
      (p ∈ s.iEDFPriorityQueue → w.called ≤ s.latestStart p) ∧
        (s.latestStart p < w.called → p ∈ s.iCancelStack) := by
  refine ⟨fun hr p hp => hr site t p hpc hs hp, fun hr _ u p _ hu hp => ?_⟩
  obtain rfl : t = u := Option.some.inj (hs.symm.trans hu)
  exact hr p hp

/-- The return itself. -/
theorem Watched.returns_iff (h : Watched s w) {site : Site} (hpc : s.pc = .afterHandOver site)
    (hs : Rib.step s (.main e) = some t) :
    ReturnsInTime (s, w) (.main e) ↔ HeadInTime (s, w) (.main e) := by
  rw [returnsInTime_iff_step hpc hs]
  simp only [Rib.step, Option.ite_none_right_eq_some] at hs
  have hleave : { s with clock := e.now }.leaveInteractiveBatch site e = t := by
    simpa [State.mainStep, hpc] using hs.2
  have honce : Once { s with clock := e.now } := ⟨h.once.placed.of_eq rfl rfl, h.once.once⟩
  have hpass := cancelLoop_ne_none_iff e s.iCancelStack.length { s with clock := e.now }
    (Nat.le_refl _)
  have hcases := leaveInteractiveBatch_returns (e := e) honce hpc
  rw [hleave] at hcases
  obtain ⟨hnone, hpc'⟩ | ⟨hsome, p, edf, hedf, hpc'⟩ | ⟨hnil, hret⟩ := hcases
  · -- the thread blocks itself and returns nothing
    refine iff_of_true (by simp [hpc']) fun _ _ _ _ hall => ?_
    exact absurd hnone (hpass.mpr hall)
  · have hedf' : s.iEDFPriorityQueue = p :: edf := hedf
    have hnot : p ∉ s.iCancelStack := by
      have hnodup := h.once.served_nodup
      simp only [State.served, hedf'] at hnodup
      grind
    have hin : p ∈ s.iEDFPriorityQueue := by simp [hedf']
    have hleft : (∀ q, t.pc = .startTask q →
        (q ∈ s.iEDFPriorityQueue → w.called ≤ s.latestStart q) ∧
          (s.latestStart q < w.called → q ∈ s.iCancelStack)) ↔ w.called ≤ s.latestStart p := by
      simp [hpc', hin, hnot]
    rw [hleft, h.called_le_iff hpc hedf']
    simp only [HeadInTime, hpc, hedf', Pc.relocked, List.take_succ_cons, List.take_zero,
      List.mem_singleton, forall_eq]
    exact ⟨fun hlate _ => hlate, fun hlate => hlate (hpass.mp hsome)⟩
  · have hnil' : s.iEDFPriorityQueue = [] := hnil
    refine iff_of_true (fun p hp => ⟨fun hmem => ?_, fun _ => hret p hp⟩) ?_
    · simp [hnil'] at hmem
    · simp [HeadInTime, hpc, hnil']

/-- A step returns in time exactly when the head it finds is in time. -/
theorem returnsInTime_iff (h : Watched s w) (hs : step s l = some t) :
    ReturnsInTime (s, w) l ↔ HeadInTime (s, w) l := by
  by_cases hafter : ∃ e site, l = .main e ∧ s.pc = .afterHandOver site
  · obtain ⟨e, site, rfl, hpc⟩ := hafter
    exact h.returns_iff hpc hs
  · refine iff_of_true (fun site u p hpc hu hp => ?_) ?_
    · have hmain : ∀ e, l ≠ .main e := fun e he => hafter ⟨e, site, he, hpc⟩
      rcases (step_outside hmain hu).pc with hpc' | ⟨hrun, -⟩
      · rw [hpc', hpc] at hp
        cases hp
      · rw [hpc] at hrun
        cases hrun
    · cases l with
      | main e =>
        intro site hsite
        cases hpc : s.pc with
        | afterHandOver site' => exact absurd ⟨e, site', rfl, hpc⟩ hafter
        | _ => simp [hpc, Pc.relocked] at hsite
      | _ => trivial

end Window

/-- In every call of a run, from either site, what is returned from the treap is in time
exactly when the head of the treap is in time at the moment the lock is taken again. -/
theorem returns_in_time_iff (thiefSizes : List Nat) (start : Int) (ls : List Label) (s : State)
    (hr : run step (initial thiefSizes start) ls = some s) :
    Along watchedStep ReturnsInTime (initial thiefSizes start, {}) ls ↔
      Along watchedStep HeadInTime (initial thiefSizes start, {}) ls := by
  obtain ⟨w, hr'⟩ := run_observe Window.next {} hr
  refine along_congr_of_run (I := fun x => Watched x.1 x.2) ?_ ?_ ?_ hr'
  · intro x l y hx _ hs
    obtain ⟨t, ht, rfl⟩ := observe_eq_some.mp hs
    exact hx.step ht
  · intro x l y hx hs
    obtain ⟨t, ht, rfl⟩ := observe_eq_some.mp hs
    exact returnsInTime_iff hx ht
  · exact ⟨once_initial thiefSizes start, by simp [initial, Pc.inWindow]⟩

/-- An interactive task is created before any schedule is set and served when the clock shows
100; `late` happens while the lock is released. -/
def serveRun (deadline : Int) (late : List Label) : List Label :=
  [Label.createInteractive .sharedCopy false deadline 0] ++
    List.replicate 5 (Label.main { now := 100 }) ++ late ++ [Label.main { now := 100 }]

theorem returns_in_time_serveRun : ∃ s,
    run step (initial [0] 0) (serveRun 200 [] ++ [.main { now := 100 }]) = some s ∧
    s.pc = .startTask 0 ∧ Along watchedStep ReturnsInTime (initial [0] 0, {})
      (serveRun 200 [] ++ [.main { now := 100 }]) :=
  ⟨_, rfl, rfl, (returns_in_time_iff [0] 0 _ _ rfl).mpr (by decide)⟩

/-- A task with deadline 5 is returned at 100, because `currentTime` was never read; and so is
one that is created while the lock is released. -/
theorem returns_late_serveRun :
    (∃ x t, run watchedStep (initial [0] 0, {}) (serveRun 5 []) = some x ∧
      step x.1 (.main { now := 100 }) = some t ∧ t.pc = .startTask 0 ∧
      x.1.iEDFPriorityQueue = [0] ∧ x.1.latestStart 0 = 5 ∧ x.2.called = 100) ∧
    ∃ x t, run watchedStep (initial [0] 0, {})
        (serveRun 200 [.createInteractive .sharedCopy false 5 0]) = some x ∧
      step x.1 (.main { now := 100 }) = some t ∧ t.pc = .startTask 1 ∧
      x.1.iEDFPriorityQueue = [1, 0] ∧ x.1.latestStart 1 = 5 ∧ x.2.called = 100 :=
  ⟨⟨_, _, rfl, rfl, rfl, rfl, by decide, by decide⟩,
    ⟨_, _, rfl, rfl, rfl, rfl, by decide, by decide⟩⟩

end JamSched.Rib
