import JamSched.Rib.Control

/-!
# One call of GetAnInteractiveBatchTask

The scan moves the expired head of the treap to the workers and to the cancel stack, in the
order in which it finds the tasks. The cancelling loop then keeps the three tasks of the
stack that were pushed last. Between the two the lock is released, so a call is a run here
and not a step; without insertions by other threads its result is a function of the queues
it found.
-/
namespace JamSched.Rib

open Machine

section Scan

namespace State

/-- What the scan leaves in the treap. -/
def unexpired (s : State) : List Ptr := s.iEDFPriorityQueue.dropWhile s.isExpired

/-- `toStealTasks` after the scan. -/
def toSteal (s : State) : List Ptr :=
  (s.iEDFPriorityQueue.takeWhile s.isExpired).filter s.canHandOver

/-- The cancel stack after the scan, the task pushed last in front. -/
def scannedStack (s : State) : List Ptr :=
  ((s.iEDFPriorityQueue.takeWhile s.isExpired).filter fun p => !s.canHandOver p).reverse ++
    s.iCancelStack

end State

theorem collectExpired_eq (s : State) (edf stack steal : List Ptr) :
    s.collectExpired edf stack steal =
      (edf.dropWhile s.isExpired,
        ((edf.takeWhile s.isExpired).filter fun p => !s.canHandOver p).reverse ++ stack,
        steal ++ (edf.takeWhile s.isExpired).filter s.canHandOver) := by
  induction edf generalizing stack steal with
  | nil => simp [State.collectExpired]
  | cons p edf ih =>
    by_cases he : s.isExpired p = true
    · by_cases hc : s.canHandOver p = true
      · simp [State.collectExpired, he, hc, ih]
      · simp [State.collectExpired, he, hc, ih]
    · simp [State.collectExpired, he]

/-- The scan distributes the tasks of the treap. -/
theorem scan_perm (s : State) :
    (s.unexpired ++ s.scannedStack ++ s.toSteal).Perm (s.iEDFPriorityQueue ++ s.iCancelStack) := by
  have h := collectExpired_perm s s.iEDFPriorityQueue s.iCancelStack []
  rw [collectExpired_eq] at h
  simpa [State.unexpired, State.scannedStack, State.toSteal] using h

theorem enterInteractiveBatch_interactive {s : State} (site : Site)
    (h : s.decideQueue = some .interactive) : s.enterInteractiveBatch site =
      { s with
        iEDFPriorityQueue := s.unexpired
        iCancelStack := s.scannedStack
        pc := .handOver site s.toSteal } := by
  simp only [State.enterInteractiveBatch, h, collectExpired_eq, List.nil_append]
  rfl

theorem enterInteractiveBatch_batch {s : State} (site : Site) {p : Ptr} {bs : List Ptr}
    (h : s.decideQueue = some .batch) (hb : s.bQueue = p :: bs) :
    s.enterInteractiveBatch site = { s with bQueue := bs, pc := .startTask p } := by
  simp [State.enterInteractiveBatch, h, hb]

theorem enterInteractiveBatch_none {s : State} (site : Site) (h : s.decideQueue = none) :
    s.enterInteractiveBatch site = s.noInteractiveBatch site := by
  simp [State.enterInteractiveBatch, h]

theorem decideQueue_none {s : State} : s.decideQueue = none ↔
    s.bQueue = [] ∧ s.iEDFPriorityQueue = [] ∧ s.iCancelStack = [] := by
  simp only [State.decideQueue]
  cases s.bQueue <;> cases s.iEDFPriorityQueue <;> cases s.iCancelStack <;> simp <;> split <;> simp

theorem decideQueue_ne_realTime (s : State) : s.decideQueue ≠ some .realTime := by
  simp only [State.decideQueue]
  split_ifs <;> simp

end Scan

section Cancelling

variable {s t : State} {e : Env}

/-- What the cancelling loop does to a state whose queues hold every task once. -/
structure Cancels (s t : State) : Prop where
  bQueue : t.bQueue = s.bQueue
  iEDFPriorityQueue : t.iEDFPriorityQueue = s.iEDFPriorityQueue
  iCancelStack : t.iCancelStack = s.iCancelStack.take 3
  handed : t.handed = s.handed
  cancelled : t.cancelled = s.iCancelStack.drop 3 ++ s.cancelled
  deleted : t.deleted = s.iCancelStack.drop 3 ++ s.deleted
  notified : ∀ p, (t.heap p).notified = true ↔
    p ∈ s.iCancelStack.drop 3 ∨ (s.heap p).notified = true
  currentTime : t.currentTime = s.currentTime

theorem Cancels.of_short (h : s.iCancelStack.length ≤ 3) : Cancels s s := by
  have hd := List.drop_eq_nil_of_le h
  refine ⟨rfl, rfl, (List.take_of_length_le h).symm, rfl, ?_, ?_, ?_, rfl⟩ <;> simp [hd]

/-- One turn of the loop, with the turns that follow it. -/
theorem Cancels.back {p : Ptr} (hstack : s.iCancelStack = s.iCancelStack.dropLast ++ [p])
    (hlong : 3 < s.iCancelStack.length) (hb : p ∉ s.bQueue) (he : p ∉ s.iEDFPriorityQueue)
    (h : Cancels (s.cancelBack p) t) : Cancels s t := by
  have hlen : 3 ≤ s.iCancelStack.dropLast.length := by
    rw [List.length_dropLast]
    omega
  have hdrop : s.iCancelStack.drop 3 = s.iCancelStack.dropLast.drop 3 ++ [p] := by
    conv_lhs => rw [hstack]
    exact List.drop_append_of_le_length hlen
  have htake : s.iCancelStack.take 3 = s.iCancelStack.dropLast.take 3 := by
    conv_lhs => rw [hstack]
    exact List.take_append_of_le_length hlen
  obtain ⟨h₁, h₂, h₃, h₄, h₅, h₆, h₇, h₈⟩ := h
  refine ⟨?_, ?_, h₃.trans htake.symm, h₄, ?_, ?_, fun q => ?_, h₈⟩
  · exact h₁.trans (List.erase_of_not_mem hb)
  · exact h₂.trans (List.erase_of_not_mem he)
  · rw [h₅, hdrop]
    simp [State.cancelBack]
  · rw [h₆, hdrop]
    simp [State.cancelBack, State.delete]
  · rw [h₇ q, hdrop]
    simp only [State.cancelBack, Heap.modify_apply, List.mem_append, List.mem_singleton]
    by_cases hq : q = p <;> simp [hq]

theorem cancelLoop_cancels {fuel : Nat}
    (hnodup : (s.bQueue ++ s.iEDFPriorityQueue ++ s.iCancelStack).Nodup)
    (hfuel : s.iCancelStack.length ≤ fuel) (h : s.cancelLoop e fuel = some t) : Cancels s t := by
  induction fuel generalizing s with
  | zero =>
    obtain rfl : s = t := by simpa [State.cancelLoop] using h
    exact .of_short (by omega)
  | succ fuel ih =>
    cases hlast : s.iCancelStack.getLast? with
    | none =>
      obtain rfl : s = t := by simpa [State.cancelLoop, hlast] using h
      exact .of_short (by simp [List.getLast?_eq_none_iff.mp hlast])
    | some p =>
      have hstack : s.iCancelStack = s.iCancelStack.dropLast ++ [p] :=
        (List.dropLast_append_getLast? p hlast).symm
      by_cases hlong : 3 < s.iCancelStack.length
      · by_cases hdead : s.CancelDeadlocks e p
        · simp [State.cancelLoop, hlast, hlong, hdead] at h
        · rw [hstack] at hnodup
          have hb : p ∉ s.bQueue := by grind
          have he : p ∉ s.iEDFPriorityQueue := by grind
          refine .back hstack hlong hb he (ih ?_ ?_ ?_)
          · simp only [State.cancelBack, State.delete, List.erase_of_not_mem hb,
              List.erase_of_not_mem he]
            grind
          · simp only [State.cancelBack, List.length_dropLast]
            omega
          · simpa [State.cancelLoop, hlast, hlong, hdead] using h
      · obtain rfl : s = t := by simpa [State.cancelLoop, hlast, hlong] using h
        exact .of_short (by omega)

end Cancelling

section Call

/-- The place of each call of `GetAnInteractiveBatchTask`. -/
def Site.call : Site → Pc
  | .slot => .slotCall
  | .noSchedule => .noScheduleCall

/-- The call from `site` has returned `r`. -/
def Site.result (site : Site) : Option Ptr → Pc
  | some p => .startTask p
  | none => site.wait

/-- The main thread is inside the call from `site`. -/
def Pc.inCall (site : Site) : Pc → Bool
  | .slotCall => site = .slot
  | .noScheduleCall => site = .noSchedule
  | .handOver site' _ | .afterHandOver site' => site = site'
  | _ => false

/-- No task is created or woken. -/
def Label.insertsNothing : Label → Bool
  | .main _ | .setSchedule _ _ | .shutDown | .thiefs _ | .waiters _ _ _ => true
  | _ => false

/-- A step of a call without concurrent insertions, every `Size()` below `2 ^ 32 - 1`. -/
def DuringCall (site : Site) (s : State) (l : Label) : Prop :=
  s.pc.inCall site = true ∧ l.insertsNothing = true ∧ ∀ n ∈ s.thiefSizes, n < 2 ^ 32 - 1

instance (site : Site) (s : State) (l : Label) : Decidable (DuringCall site s l) :=
  inferInstanceAs (Decidable (_ ∧ _ ∧ _))

/-- Everything a call reads of the state, and what it records of the tasks it takes. -/
structure SameCall (s t : State) : Prop where
  bQueue : t.bQueue = s.bQueue
  iEDFPriorityQueue : t.iEDFPriorityQueue = s.iEDFPriorityQueue
  iCancelStack : t.iCancelStack = s.iCancelStack
  handed : t.handed = s.handed
  cancelled : t.cancelled = s.cancelled
  deleted : t.deleted = s.deleted
  heap : t.heap = s.heap
  vClocks : t.vClockB = s.vClockB ∧ t.vClockI = s.vClockI
  startTime : t.schedulerStartTime = s.schedulerStartTime
  currentTime : t.currentTime = s.currentTime
  thiefs : t.thiefSizes.length = s.thiefSizes.length
  pc : t.pc = s.pc

variable {s t u v : State} {site : Site} {e : Env}

theorem SameCall.of_insertsNothing {l : Label} (hmain : ∀ e, l ≠ .main e)
    (hl : l.insertsNothing = true) (hs : step s l = some t) : SameCall s t := by
  cases l with
  | main e => exact absurd rfl (hmain e)
  | setSchedule normal greedy =>
    simp only [Rib.step, Option.some.injEq] at hs
    rcases setSchedule_eq s normal greedy with heq | heq <;> rw [← hs, heq] <;>
      constructor <;> simp
  | shutDown =>
    simp only [Rib.step, Option.some.injEq] at hs
    subst hs
    constructor <;> simp
  | thiefs sizes =>
    simp only [Rib.step, Option.ite_none_right_eq_some, Option.some.injEq] at hs
    obtain ⟨hlen, rfl⟩ := hs
    constructor <;> simp [hlen]
  | waiters p notifier futures =>
    simp only [Rib.step, Option.some.injEq] at hs
    subst hs
    constructor <;> simp
  | _ => simp [Label.insertsNothing] at hl

theorem SameCall.trans (h₁ : SameCall s t) (h₂ : SameCall t u) : SameCall s u where
  bQueue := h₂.bQueue.trans h₁.bQueue
  iEDFPriorityQueue := h₂.iEDFPriorityQueue.trans h₁.iEDFPriorityQueue
  iCancelStack := h₂.iCancelStack.trans h₁.iCancelStack
  handed := h₂.handed.trans h₁.handed
  cancelled := h₂.cancelled.trans h₁.cancelled
  deleted := h₂.deleted.trans h₁.deleted
  heap := h₂.heap.trans h₁.heap
  vClocks := ⟨h₂.vClocks.1.trans h₁.vClocks.1, h₂.vClocks.2.trans h₁.vClocks.2⟩
  startTime := h₂.startTime.trans h₁.startTime
  currentTime := h₂.currentTime.trans h₁.currentTime
  thiefs := h₂.thiefs.trans h₁.thiefs
  pc := h₂.pc.trans h₁.pc

/-- What a call that began in `s` and returned `r` in `t` has done: it handed the tasks `given`
to workers and cancelled the tasks `dropped`. -/
structure CallOutcome (s t : State) (r : Option Ptr) (given dropped : List Ptr) : Prop where
  /-- No task is lost or duplicated. -/
  conserved : (r.toList ++ (t.bQueue ++ t.iEDFPriorityQueue ++ t.iCancelStack) ++ given ++
    dropped).Perm (s.bQueue ++ s.iEDFPriorityQueue ++ s.iCancelStack)
  disjoint : (r.toList ++ (t.bQueue ++ t.iEDFPriorityQueue ++ t.iCancelStack) ++ given ++
    dropped).Nodup
  handed : t.handed = given ++ s.handed
  /-- `onCancel` is called once for each cancelled task, which is notified and deleted. -/
  cancelled : t.cancelled = dropped ++ s.cancelled
  deleted : t.deleted = dropped ++ s.deleted
  notified : ∀ p ∈ dropped, (t.heap p).notified = true
  stealable : ∀ p ∈ given, (s.heap p).isStealable = true ∧ (s.heap p).stack = .standAlone
  /-- The cancelled tasks are the earliest pushed, at the back of the stack; a task of the
  stack is returned from its front, and only when the treap is empty. -/
  stack : s.decideQueue = some .interactive → t.iCancelStack.length ≤ 3 ∧
    (t.iCancelStack ++ dropped = { s with currentTime := t.currentTime }.scannedStack ∧
        r.toList ++ t.iEDFPriorityQueue = { s with currentTime := t.currentTime }.unexpired ∨
      r.toList ++ t.iCancelStack ++ dropped =
          { s with currentTime := t.currentTime }.scannedStack ∧ r ≠ none ∧
        { s with currentTime := t.currentTime }.unexpired = [] ∧ t.iEDFPriorityQueue = [])
  /-- Otherwise the treap and the stack are not touched. -/
  batch : s.decideQueue ≠ some .interactive → given = [] ∧ dropped = [] ∧
    t.iEDFPriorityQueue = s.iEDFPriorityQueue ∧ t.iCancelStack = s.iCancelStack
  nullptr : r = none → s.bQueue = [] ∧ s.iEDFPriorityQueue = [] ∧ s.iCancelStack = [] ∨
    s.decideQueue = some .interactive ∧ given.Perm s.iEDFPriorityQueue ∧
      s.iCancelStack = [] ∧ t.iEDFPriorityQueue = [] ∧ t.iCancelStack = []

theorem SameCall.decideQueue (h : SameCall s t) : t.decideQueue = s.decideQueue := by
  simp only [State.decideQueue, h.bQueue, h.iEDFPriorityQueue, h.iCancelStack, h.vClocks.1,
    h.vClocks.2]

theorem SameCall.isExpired (h : SameCall s t) : t.isExpired = s.isExpired := by
  funext p
  simp only [State.isExpired, h.heap, h.startTime, h.currentTime]

theorem SameCall.canHandOver (h : SameCall s t) : t.canHandOver = s.canHandOver := by
  funext p
  have hempty : t.thiefSizes.isEmpty = s.thiefSizes.isEmpty := by
    rw [Bool.eq_iff_iff, List.isEmpty_iff_length_eq_zero, List.isEmpty_iff_length_eq_zero,
      h.thiefs]
  simp only [State.canHandOver, h.heap, hempty]

theorem SameCall.unexpired (h : SameCall s t) : t.unexpired = s.unexpired := by
  rw [State.unexpired, State.unexpired, h.iEDFPriorityQueue, h.isExpired]

theorem SameCall.toSteal (h : SameCall s t) : t.toSteal = s.toSteal := by
  rw [State.toSteal, State.toSteal, h.iEDFPriorityQueue, h.isExpired, h.canHandOver]

theorem SameCall.scannedStack (h : SameCall s t) : t.scannedStack = s.scannedStack := by
  rw [State.scannedStack, State.scannedStack, h.iEDFPriorityQueue, h.isExpired, h.canHandOver,
    h.iCancelStack]

/-- Between the scan of a state `v` and the cancelling loop, with the tasks `l` in hand. -/
structure Handing (v u : State) (l : List Ptr) : Prop where
  bQueue : u.bQueue = v.bQueue
  iEDFPriorityQueue : u.iEDFPriorityQueue = v.unexpired
  iCancelStack : u.iCancelStack = v.scannedStack
  handed : ∃ given, given ++ l = v.toSteal ∧ u.handed = given.reverse ++ v.handed
  cancelled : u.cancelled = v.cancelled
  deleted : u.deleted = v.deleted
  thiefs : u.thiefSizes.length = v.thiefSizes.length
  currentTime : u.currentTime = v.currentTime

theorem Handing.of_sameCall {l : List Ptr} (h : Handing v u l) (hs : SameCall u t) :
    Handing v t l where
  bQueue := hs.bQueue.trans h.bQueue
  iEDFPriorityQueue := hs.iEDFPriorityQueue.trans h.iEDFPriorityQueue
  iCancelStack := hs.iCancelStack.trans h.iCancelStack
  handed := hs.handed ▸ h.handed
  cancelled := hs.cancelled.trans h.cancelled
  deleted := hs.deleted.trans h.deleted
  thiefs := hs.thiefs.trans h.thiefs
  currentTime := hs.currentTime.trans h.currentTime

theorem toSteal_stealable {p : Ptr} (hp : p ∈ v.toSteal) : v.thiefSizes ≠ [] ∧
    (v.heap p).isStealable = true ∧ (v.heap p).stack = .standAlone := by
  simp only [State.toSteal, List.mem_filter, State.canHandOver, Bool.and_eq_true,
    Bool.not_eq_true', List.isEmpty_eq_false_iff] at hp
  obtain ⟨-, ⟨hne, hsteal⟩, hstack⟩ := hp
  refine ⟨hne, hsteal, ?_⟩
  cases h : (v.heap p).stack with
  | sharedCopy => simp [h, StackKind.canSteal] at hstack
  | standAlone => rfl

/-- A worker below the limit of `GetMinThief` takes the next task in hand. -/
theorem Handing.one {p : Ptr} {ps : List Ptr} (h : Handing v u (p :: ps))
    (hsmall : ∀ n ∈ u.thiefSizes, n < 2 ^ 32 - 1) (pc : Pc) :
    Handing v { u.handOverOne p with pc } ps := by
  obtain ⟨given, hgiven, hhanded⟩ := h.handed
  obtain ⟨hne, -⟩ := toSteal_stealable (v := v) (p := p) (by simp [← hgiven])
  cases hmin : getMinThief u.thiefSizes with
  | none =>
    rw [getMinThief_eq_none] at hmin
    have hlen := h.thiefs
    cases hsizes : u.thiefSizes with
    | nil => exact absurd (List.eq_nil_of_length_eq_zero (by simpa [hsizes] using hlen.symm)) hne
    | cons n ns =>
      have := hsmall n (by simp [hsizes])
      have := hmin n (by simp [hsizes])
      omega
  | some i =>
    simp only [State.handOverOne, hmin]
    refine ⟨h.bQueue, h.iEDFPriorityQueue, h.iCancelStack, ⟨given ++ [p], ?_, ?_⟩, h.cancelled,
      h.deleted, ?_, h.currentTime⟩
    · simpa using hgiven
    · simp [hhanded]
    · simpa using h.thiefs

/-- The outcome of the interactive branch, for any choice from what the loop leaves. -/
theorem CallOutcome.of_interactive {now : Int} {r : Option Ptr}
    (hd : s.decideQueue = some .interactive)
    (hnodup : (s.bQueue ++ s.iEDFPriorityQueue ++ s.iCancelStack).Nodup)
    (hv : v = { s with currentTime := now }) (hb : t.bQueue = s.bQueue)
    (hh : t.handed = v.toSteal.reverse ++ s.handed)
    (hx : t.cancelled = v.scannedStack.drop 3 ++ s.cancelled)
    (hdel : t.deleted = v.scannedStack.drop 3 ++ s.deleted)
    (hn : ∀ p ∈ v.scannedStack.drop 3, (t.heap p).notified = true)
    (htime : t.currentTime = now)
    (hchoice : t.iCancelStack = v.scannedStack.take 3 ∧
        r.toList ++ t.iEDFPriorityQueue = v.unexpired ∨
      r.toList ++ t.iCancelStack = v.scannedStack.take 3 ∧ r ≠ none ∧ v.unexpired = [] ∧
        t.iEDFPriorityQueue = [])
    (hnull : r = none → t.iEDFPriorityQueue = [] ∧ t.iCancelStack = []) :
    CallOutcome s t r v.toSteal.reverse (v.scannedStack.drop 3) := by
  have hsplit : v.scannedStack = v.scannedStack.take 3 ++ v.scannedStack.drop 3 :=
    (List.take_append_drop 3 _).symm
  have hscan : (v.unexpired ++ v.scannedStack ++ v.toSteal).Perm
      (s.iEDFPriorityQueue ++ s.iCancelStack) := hv ▸ scan_perm { s with currentTime := now }
  have hplaces : (r.toList ++ t.iEDFPriorityQueue ++ t.iCancelStack).Perm
      (v.unexpired ++ v.scannedStack.take 3) := by
    rcases hchoice with ⟨hstack, hedf⟩ | ⟨hstack, -, hU, hedf⟩
    · rw [hstack, hedf]
    · rw [hedf, List.append_nil, hstack, hU, List.nil_append]
  have hconserved : (r.toList ++ (t.bQueue ++ t.iEDFPriorityQueue ++ t.iCancelStack) ++
      v.toSteal.reverse ++ v.scannedStack.drop 3).Perm
      (s.bQueue ++ s.iEDFPriorityQueue ++ s.iCancelStack) := by
    refine List.perm_iff_count.mpr fun q => ?_
    have h₁ := hscan.count_eq q
    have h₂ := hplaces.count_eq q
    have h₃ := congrArg (List.count q) hsplit
    simp only [List.count_append, List.count_reverse, hb] at h₁ h₂ h₃ ⊢
    omega
  have hvt : { s with currentTime := t.currentTime } = v := by rw [htime, hv]
  refine ⟨hconserved, hconserved.nodup_iff.mpr hnodup, hh, hx, hdel, hn, fun p hp => ?_,
    fun _ => ?_, fun hne => absurd hd hne, fun hr => .inr ?_⟩
  · obtain ⟨-, hsteal⟩ := toSteal_stealable (List.mem_reverse.mp hp)
    rwa [hv] at hsteal
  · rw [hvt]
    rcases hchoice with ⟨hstack, hedf⟩ | ⟨hstack, hne, hU, hedf⟩
    · refine ⟨by rw [hstack, List.length_take]; omega, .inl ⟨by rw [hstack, ← hsplit], hedf⟩⟩
    · refine ⟨?_, .inr ⟨by rw [hstack, ← hsplit], hne, hU, hedf⟩⟩
      have := congrArg List.length hstack
      simp only [List.length_append, List.length_take] at this
      omega
  · obtain ⟨hedf, hstack⟩ := hnull hr
    have hU : v.unexpired = [] := by
      rcases hchoice with ⟨-, h⟩ | ⟨-, -, h, -⟩
      · simpa [hr, hedf] using h.symm
      · exact h
    have hS : v.scannedStack = [] := by
      rcases hchoice with ⟨h, -⟩ | ⟨-, hne, -⟩
      · rw [hstack] at h
        simpa using h.symm
      · exact absurd hr hne
    have hnil : s.iCancelStack = [] := by
      rw [State.scannedStack, List.append_eq_nil_iff, hv] at hS
      exact hS.2
    refine ⟨hd, ?_, hnil, hedf, hstack⟩
    exact (List.reverse_perm v.toSteal).trans (by simpa [hU, hS, hnil] using hscan)

/-- The cancelling loop and the choice, after every task in hand was handed over. -/
theorem Handing.leave (site : Site) {now : Int} (h : Handing { s with currentTime := now } u [])
    (hd : s.decideQueue = some .interactive)
    (hnodup : (s.bQueue ++ s.iEDFPriorityQueue ++ s.iCancelStack).Nodup)
    (hc : u.cancelLoop e u.iCancelStack.length = some t) :
    ∃ r given dropped, (t.takeInteractive site).pc = site.result r ∧
      CallOutcome s (t.takeInteractive site) r given dropped := by
  obtain ⟨given, hgiven, hhanded⟩ := h.handed
  rw [List.append_nil] at hgiven
  subst hgiven
  have hscan := scan_perm { s with currentTime := now }
  generalize hv : { s with currentTime := now } = v at h hhanded hscan
  have hvs : v.bQueue = s.bQueue ∧ v.iEDFPriorityQueue = s.iEDFPriorityQueue ∧
      v.iCancelStack = s.iCancelStack ∧ v.handed = s.handed ∧ v.cancelled = s.cancelled ∧
      v.deleted = s.deleted ∧ v.currentTime = now := by
    simp [← hv]
  obtain ⟨hb, hedf, hstack, hh, hx, hdel, hnow⟩ := hvs
  have hqueues : (u.bQueue ++ u.iEDFPriorityQueue ++ u.iCancelStack).Nodup := by
    rw [h.bQueue, h.iEDFPriorityQueue, h.iCancelStack, hb]
    rw [hedf, hstack] at hscan
    have hfull := (hscan.append_left s.bQueue).nodup_iff.mpr (by simpa using hnodup)
    refine List.Nodup.sublist (List.sublist_append_left _ v.toSteal) ?_
    simpa using hfull
  obtain ⟨c₁, c₂, c₃, c₄, c₅, c₆, c₇, c₈⟩ := cancelLoop_cancels hqueues (Nat.le_refl _) hc
  rw [h.iCancelStack] at c₃ c₅ c₆ c₇
  rw [h.bQueue, hb] at c₁
  rw [h.iEDFPriorityQueue] at c₂
  rw [hhanded, hh] at c₄
  rw [h.cancelled, hx] at c₅
  rw [h.deleted, hdel] at c₆
  rw [h.currentTime, hnow] at c₈
  have hn : ∀ p ∈ v.scannedStack.drop 3, (t.heap p).notified = true := fun p hp =>
    (c₇ p).mpr (.inl hp)
  obtain ⟨p, edf, hne, heq⟩ | ⟨p, stack, hnil, hne, heq⟩ | ⟨hnil, hnil', heq⟩ :=
    takeInteractive_cases t site
  · refine ⟨some p, v.toSteal.reverse, v.scannedStack.drop 3, by rw [heq]; rfl, ?_⟩
    rw [heq]
    refine .of_interactive hd hnodup hv.symm c₁ c₄ c₅ c₆ hn c₈ (.inl ⟨c₃, ?_⟩) (by simp)
    simpa [hne] using c₂
  · refine ⟨some p, v.toSteal.reverse, v.scannedStack.drop 3, by rw [heq]; rfl, ?_⟩
    rw [heq]
    refine .of_interactive hd hnodup hv.symm c₁ c₄ c₅ c₆ hn c₈ (.inr ⟨?_, by simp, ?_, hnil⟩)
      (by simp)
    · simpa [hne] using c₃
    · rw [← c₂, hnil]
  · refine ⟨none, v.toSteal.reverse, v.scannedStack.drop 3, by rw [heq]; rfl, ?_⟩
    rw [heq]
    refine .of_interactive hd hnodup hv.symm c₁ c₄ c₅ c₆ hn c₈ (.inl ⟨c₃, ?_⟩)
      fun _ => ⟨hnil, hnil'⟩
    simpa using c₂

/-- Where a call that began in `s` stands. -/
inductive Calling (s : State) (site : Site) (u : State) : Prop
  | before (h : SameCall s u)
  | handing (now : Int) (l : List Ptr) (hpc : u.pc = .handOver site l)
      (hd : s.decideQueue = some .interactive) (h : Handing { s with currentTime := now } u l)
  | handed (now : Int) (hpc : u.pc = .afterHandOver site)
      (hd : s.decideQueue = some .interactive) (h : Handing { s with currentTime := now } u [])
  | returned (r : Option Ptr) (given dropped : List Ptr) (hpc : u.pc = site.result r)
      (h : CallOutcome s u r given dropped)
  | blocked (hpc : u.pc = .deadlock)

/-- The outcome when the interactive branch is not taken: only the batch queue is served. -/
theorem CallOutcome.of_other {r : Option Ptr}
    (hnodup : (s.bQueue ++ s.iEDFPriorityQueue ++ s.iCancelStack).Nodup)
    (hd : s.decideQueue ≠ some .interactive) (hr : r = none → s.decideQueue = none)
    (hb : r.toList ++ t.bQueue = s.bQueue) (hedf : t.iEDFPriorityQueue = s.iEDFPriorityQueue)
    (hstack : t.iCancelStack = s.iCancelStack) (hh : t.handed = s.handed)
    (hx : t.cancelled = s.cancelled) (hdel : t.deleted = s.deleted) :
    CallOutcome s t r [] [] := by
  have hperm : (r.toList ++ (t.bQueue ++ t.iEDFPriorityQueue ++ t.iCancelStack) ++ [] ++
      []).Perm (s.bQueue ++ s.iEDFPriorityQueue ++ s.iCancelStack) := by
    rw [hedf, hstack, ← hb]
    simp
  exact ⟨hperm, hperm.nodup_iff.mpr hnodup, hh, hx, hdel, by simp, by simp,
    fun hi => absurd hi hd, fun _ => ⟨rfl, rfl, hedf, hstack⟩,
    fun hnone => .inl (decideQueue_none.mp (hr hnone))⟩

/-- The function as it is entered, the current time being `now`. -/
theorem Calling.enter (now : Int) (h : SameCall { s with currentTime := now } v)
    (hnodup : (s.bQueue ++ s.iEDFPriorityQueue ++ s.iCancelStack).Nodup) :
    Calling s site (v.enterInteractiveBatch site) := by
  have hd : v.decideQueue = s.decideQueue := h.decideQueue
  cases hq : s.decideQueue with
  | none =>
    rw [enterInteractiveBatch_none site (hd.trans hq)]
    exact .returned none [] [] rfl (.of_other hnodup (by simp [hq]) (fun _ => hq) h.bQueue
      h.iEDFPriorityQueue h.iCancelStack h.handed h.cancelled h.deleted)
  | some ty =>
    cases ty with
    | interactive =>
      rw [enterInteractiveBatch_interactive site (hd.trans hq)]
      exact .handing now _ rfl hq ⟨h.bQueue, h.unexpired, h.scannedStack,
        ⟨[], h.toSteal, h.handed⟩, h.cancelled, h.deleted, h.thiefs, h.currentTime⟩
    | batch =>
      cases hb : v.bQueue with
      | nil => exact absurd hb (decideQueue_batch (hd.trans hq))
      | cons p bs =>
        rw [enterInteractiveBatch_batch site (hd.trans hq) hb]
        exact .returned (some p) [] [] rfl (.of_other hnodup (by simp [hq]) (by simp)
          (hb.symm.trans h.bQueue) h.iEDFPriorityQueue h.iCancelStack h.handed h.cancelled
          h.deleted)
    | realTime => exact absurd hq (decideQueue_ne_realTime s)

theorem inCall_result (site : Site) (r : Option Ptr) : (site.result r).inCall site = false := by
  cases site <;> cases r <;> rfl

/-- A step that the call does not notice. -/
theorem Calling.of_sameCall (h : Calling s site u) (hin : u.pc.inCall site = true)
    (hs : SameCall u t) : Calling s site t := by
  cases h with
  | before h => exact .before (h.trans hs)
  | handing now k hk hd h => exact .handing now k (hs.pc.trans hk) hd (h.of_sameCall hs)
  | handed now hk hd h => exact .handed now (hs.pc.trans hk) hd (h.of_sameCall hs)
  | returned r _ _ hr _ => simp [hr, inCall_result] at hin
  | blocked hb => simp [hb, Pc.inCall] at hin

theorem Calling.mainStep (h : Calling s site u) (hpc : s.pc = site.call)
    (hnodup : (s.bQueue ++ s.iEDFPriorityQueue ++ s.iCancelStack).Nodup)
    (hin : u.pc.inCall site = true) (hsmall : ∀ n ∈ u.thiefSizes, n < 2 ^ 32 - 1)
    (hs : u.mainStep e = some t) : Calling s site t := by
  cases h with
  | before h =>
    have hu : u.pc = site.call := h.pc.trans hpc
    cases site with
    | slot =>
      rw [State.mainStep, hu, Site.call, Option.some.injEq] at hs
      subst hs
      exact .enter e.now ⟨h.bQueue, h.iEDFPriorityQueue, h.iCancelStack, h.handed,
        h.cancelled, h.deleted, h.heap, h.vClocks, h.startTime, rfl, h.thiefs, h.pc⟩ hnodup
    | noSchedule =>
      rw [State.mainStep, hu, Site.call, Option.some.injEq] at hs
      subst hs
      exact .enter s.currentTime h hnodup
  | handing now k hk hd h =>
    cases k with
    | nil =>
      rw [State.mainStep, hk, Option.some.injEq] at hs
      subst hs
      exact .handed now rfl hd ⟨h.bQueue, h.iEDFPriorityQueue, h.iCancelStack, h.handed,
        h.cancelled, h.deleted, h.thiefs, h.currentTime⟩
    | cons p ps =>
      rw [State.mainStep, hk, Option.some.injEq] at hs
      subst hs
      exact .handing now ps rfl hd (h.one hsmall _)
  | handed now hk hd h =>
    rw [State.mainStep, hk, Option.some.injEq] at hs
    subst hs
    cases hw : u.cancelLoop e u.iCancelStack.length with
    | none => exact .blocked (by simp [State.leaveInteractiveBatch, hw])
    | some w =>
      obtain ⟨r, given, dropped, hr, ho⟩ := h.leave site hd hnodup hw
      rw [State.leaveInteractiveBatch, hw]
      exact .returned r given dropped hr ho
  | returned r _ _ hr _ => simp [hr, inCall_result] at hin
  | blocked hb => simp [hb, Pc.inCall] at hin

theorem Calling.step {l : Label} (h : Calling s site u) (hpc : s.pc = site.call)
    (hnodup : (s.bQueue ++ s.iEDFPriorityQueue ++ s.iCancelStack).Nodup)
    (hd : DuringCall site u l) (hs : step u l = some t) : Calling s site t := by
  obtain ⟨hin, hl, hsmall⟩ := hd
  by_cases hmain : ∃ e, l = .main e
  · obtain ⟨e, rfl⟩ := hmain
    simp only [Rib.step, Option.ite_none_right_eq_some] at hs
    have htick : SameCall u { u with clock := e.now } :=
      ⟨rfl, rfl, rfl, rfl, rfl, rfl, rfl, ⟨rfl, rfl⟩, rfl, rfl, rfl, rfl⟩
    exact (h.of_sameCall hin htick).mainStep hpc hnodup hin hsmall hs.2
  · exact h.of_sameCall hin (.of_insertsNothing (fun e he => hmain ⟨e, he⟩) hl hs)

/-- The call has returned, or the thread has blocked itself while it cancels a task. -/
def Site.Over (site : Site) (pc : Pc) : Prop := (∃ r, pc = site.result r) ∨ pc = .deadlock

theorem takeInteractive_over (s : State) (site : Site) : site.Over (s.takeInteractive site).pc := by
  rcases takeInteractive_cases s site with ⟨p, _, -, h⟩ | ⟨p, _, -, -, h⟩ | ⟨-, -, h⟩
  · exact .inl ⟨some p, by rw [h]; rfl⟩
  · exact .inl ⟨some p, by rw [h]; rfl⟩
  · exact .inl ⟨none, by rw [h]; rfl⟩

theorem leaveInteractiveBatch_over (s : State) (site : Site) (e : Env) :
    site.Over (s.leaveInteractiveBatch site e).pc := by
  simp only [State.leaveInteractiveBatch]
  split
  · exact .inr rfl
  · exact takeInteractive_over _ site

/-- The steps of the main thread, at the clock of `e`, bring the call to its end. -/
def Ends (site : Site) (e : Env) (s : State) : Prop :=
  ∃ n t, run step s (List.replicate n (.main e)) = some t ∧ site.Over t.pc

theorem Ends.of_over (h : site.Over s.pc) : Ends site e s := ⟨0, s, rfl, h⟩

theorem Ends.of_step (hs : step s (.main e) = some t) (h : Ends site e t) : Ends site e s := by
  obtain ⟨n, u, hr, hover⟩ := h
  exact ⟨n + 1, u, run_cons.mpr ⟨t, hs, hr⟩, hover⟩

theorem Ends.handOver {l : List Ptr} (hpc : s.pc = .handOver site l) (hle : s.clock ≤ e.now) :
    Ends site e s := by
  induction l generalizing s with
  | nil =>
    have hlast : Ends site e { s with clock := e.now, pc := .afterHandOver site } := by
      refine .of_step ?_ (.of_over (leaveInteractiveBatch_over
        { s with clock := e.now, pc := .afterHandOver site } site e))
      simp [step, State.mainStep]
    refine .of_step ?_ hlast
    simp [step, hle, State.mainStep, hpc]
  | cons p ps ih =>
    have hclock : (({ s with clock := e.now } : State).handOverOne p).clock = e.now := by
      have := handOverOne_control { s with clock := e.now } p
      simp only [State.control, Prod.mk.injEq] at this
      exact this.2.1
    have hrest : Ends site e { ({ s with clock := e.now } : State).handOverOne p with
        pc := .handOver site ps } := ih rfl (Int.le_of_eq hclock)
    refine .of_step ?_ hrest
    simp [step, hle, State.mainStep, hpc]

theorem Ends.enter (hclock : s.clock ≤ e.now) : Ends site e (s.enterInteractiveBatch site) := by
  cases hd : s.decideQueue with
  | none =>
    rw [enterInteractiveBatch_none site hd]
    exact .of_over (.inl ⟨none, rfl⟩)
  | some type =>
    cases type with
    | realTime => exact absurd hd (decideQueue_ne_realTime s)
    | interactive =>
      rw [enterInteractiveBatch_interactive site hd]
      exact .handOver rfl hclock
    | batch =>
      obtain ⟨p, bs, hb⟩ := List.exists_cons_of_ne_nil (decideQueue_batch hd)
      rw [enterInteractiveBatch_batch site hd hb]
      exact .of_over (.inl ⟨some p, rfl⟩)

theorem Ends.call (hcall : s.pc = site.call) (hle : s.clock ≤ e.now) : Ends site e s := by
  cases site with
  | slot =>
    have henter : Ends .slot e
        (({ s with clock := e.now, currentTime := e.now } : State).enterInteractiveBatch .slot) :=
      .enter (Int.le_refl _)
    refine .of_step ?_ henter
    simp [step, hle, State.mainStep, hcall, Site.call, State.stepSlotCall]
  | noSchedule =>
    have henter : Ends .noSchedule e
        (({ s with clock := e.now } : State).enterInteractiveBatch .noSchedule) :=
      .enter (Int.le_refl _)
    refine .of_step ?_ henter
    simp [step, hle, State.mainStep, hcall, Site.call]

/-- Four expired tasks, of which the second may go to a worker, and a task that expired in an
earlier call. -/
def mixedQueues : State where
  heap p := { taskType := .interactive, stack := if p = 1 then .standAlone else .sharedCopy }
  iEDFPriorityQueue := [0, 1, 2, 3]
  iCancelStack := [4]
  thiefSizes := [7]
  pc := .slotCall

/-- The call, with the worker busy during the hand-over. -/
def mixedCall : List Label :=
  [.main { now := 10 }, .thiefs [5], .main { now := 20 }, .main { now := 20 },
    .main { now := 30 }]

end Call

end JamSched.Rib
