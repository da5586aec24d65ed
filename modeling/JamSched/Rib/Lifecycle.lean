import JamSched.Rib.Placed

/-!
# The life of a task

Every allocated task is in exactly one of three conditions: it lies in one place, it has the
processor, or it was deleted. A finished task has the processor until the context that
follows deletes it. This is kept by every step except two: `EndTask` deletes a real-time task
that gave up the processor without having finished, and the hand-over deletes a task for
which `GetMinThief` finds no worker.
-/
namespace JamSched.Rib

namespace State

/-- `p` runs, or has finished and was not yet left. -/
def onCpu (s : State) (p : Ptr) : Nat :=
  if s.active = some p ∧ (s.pc = .running ∨ (s.heap p).status = .finished) then 1 else 0

/-- The task may be deleted: it has finished, or was cancelled, and its notifier was told. -/
def Settled (s : State) (p : Ptr) : Prop :=
  (s.heap p).status = .finished ∧ (s.heap p).notified = true ∨
    p ∈ s.cancelled ∧ (s.heap p).notified = true

end State

structure Lifecycle (s : State) : Prop where
  placed : Placed s
  once : ∀ p < s.fresh, s.places.count p + s.onCpu p + s.deleted.count p = 1
  born : ∀ p ∈ s.deleted, p < s.fresh
  settled : ∀ p ∈ s.deleted, s.Settled p
  finished : ∀ p < s.fresh, (s.heap p).status = .finished → (s.heap p).notified = true ∧
    (s.active = some p ∧ s.pc ≠ .running ∨ p ∈ s.deleted)
  realTime : ∀ p, s.active = some p → (s.heap p).taskType = .realTime → s.pc ≠ .running →
    (s.heap p).status = .finished
  waiting : ∀ p ∈ s.waiting, (s.heap p).taskType ≠ .realTime

namespace Lifecycle

variable {s t : State}

/-- A task that lies in a place neither has the processor nor was deleted or finished. -/
theorem absent (h : Lifecycle s) {p : Ptr} (hp : p ∈ s.places) :
    s.places.count p = 1 ∧ s.onCpu p = 0 ∧ s.deleted.count p = 0 ∧
      (s.heap p).status ≠ .finished := by
  have hlt := h.placed.known p (.inl hp)
  have honce := h.once p hlt
  have hpos := List.count_pos_iff.mpr hp
  refine ⟨by omega, by omega, by omega, fun hfin => ?_⟩
  rcases (h.finished p hlt hfin).2 with ⟨ha, -⟩ | hdel
  · have : s.onCpu p = 1 := by simp [State.onCpu, ha, hfin]
    omega
  · have := List.count_pos_iff.mpr hdel
    omega

/-- The active task, once it has finished, is found nowhere else. -/
theorem alone (h : Lifecycle s) {p : Ptr} (hp : s.active = some p)
    (hfin : s.pc = .running ∨ (s.heap p).status = .finished) :
    p ∉ s.places ∧ p ∉ s.deleted := by
  have honce := h.once p (h.placed.known p (.inr hp))
  have hcpu : s.onCpu p = 1 := by simp only [State.onCpu, hp, true_and, if_pos hfin]
  refine ⟨fun hmem => ?_, fun hmem => ?_⟩ <;> have := List.count_pos_iff.mpr hmem <;> omega

theorem of_shuffles (h : Lifecycle s) (hpc : s.pc ≠ .running) (hs : Shuffles s t) :
    Lifecycle t := by
  have hty (p : Ptr) : (t.heap p).taskType = (s.heap p).taskType :=
    congrArg Prod.fst (congrFun hs.fate p)
  have hst (p : Ptr) : (t.heap p).status = (s.heap p).status :=
    congrArg (·.2.1) (congrFun hs.fate p)
  have hno (p : Ptr) : (t.heap p).notified = (s.heap p).notified :=
    congrArg (·.2.2) (congrFun hs.fate p)
  refine ⟨h.placed.of_narrows hs.narrows, fun p hp => ?_, ?_, fun p hp => ?_, fun p hp hfin => ?_,
    fun p hp => ?_, ?_⟩
  · have hcpu : t.onCpu p = s.onCpu p := by
      simp [State.onCpu, hs.active, hst, hpc, hs.running]
    rw [hs.places.count_eq, hcpu, hs.deleted]
    exact h.once p (hs.fresh ▸ hp)
  · rw [hs.deleted, hs.fresh]
    exact h.born
  · simp only [State.Settled, hst, hno, hs.cancelled]
    exact h.settled p (hs.deleted ▸ hp)
  · rw [hno, hs.active, hs.deleted]
    obtain ⟨hn, hor⟩ := h.finished p (hs.fresh ▸ hp) (hst p ▸ hfin)
    exact ⟨hn, hor.imp_left fun ha => ⟨ha.1, hs.running⟩⟩
  · rw [hty, hst]
    exact fun hrt _ => h.realTime p (hs.active ▸ hp) hrt hpc
  · intro p hp
    rw [hty]
    exact h.waiting p (hs.waiting ▸ hp)

/-- A task moves from one place to another and its status is written. -/
theorem of_moved (h : Lifecycle s) {p : Ptr} {f : TaskInterface → TaskInterface}
    (hmem : p ∈ s.places) (hplaced : Placed t) (hheap : t.heap = s.heap.modify p f)
    (hfin : (f (s.heap p)).status ≠ .finished)
    (hkeep : ∀ x, (f x).taskType = x.taskType ∧ (f x).notified = x.notified)
    (hplaces : t.places.Perm s.places) (hwait : t.waiting ⊆ s.waiting)
    (hdel : t.deleted = s.deleted) (hcan : t.cancelled = s.cancelled)
    (hact : t.active = s.active) (hfresh : t.fresh = s.fresh)
    (hrun : t.pc = .running ↔ s.pc = .running) : Lifecycle t := by
  have hst (q : Ptr) : (t.heap q).status = .finished ↔ (s.heap q).status = .finished := by
    rw [hheap, Heap.modify_apply]
    split
    · rename_i hq
      simp [hq, hfin, (h.absent hmem).2.2.2]
    · rfl
  have hty (q : Ptr) : (t.heap q).taskType = (s.heap q).taskType :=
    hheap ▸ Heap.modify_field (·.taskType) _ _ _ _ fun x => (hkeep x).1
  have hno (q : Ptr) : (t.heap q).notified = (s.heap q).notified :=
    hheap ▸ Heap.modify_field (·.notified) _ _ _ _ fun x => (hkeep x).2
  refine ⟨hplaced, fun q hq => ?_, ?_, fun q hq => ?_, fun q hq hf => ?_, fun q hq => ?_,
    fun q hq => ?_⟩
  · have hcpu : t.onCpu q = s.onCpu q := by simp [State.onCpu, hst, hrun, hact]
    rw [hcpu, hplaces.count_eq, hdel]
    exact h.once q (hfresh ▸ hq)
  · rw [hdel, hfresh]
    exact h.born
  · simp only [State.Settled, hst, hno, hcan]
    exact h.settled q (hdel ▸ hq)
  · rw [hno, hact, hdel, ne_eq, hrun]
    exact h.finished q (hfresh ▸ hq) ((hst q).mp hf)
  · rw [hty, ne_eq, hrun, hst]
    exact h.realTime q (hact ▸ hq)
  · rw [hty]
    exact h.waiting q (hwait hq)

/-- The hand-over of one task, provided that a worker is found. -/
theorem handOver (h : Lifecycle s) {site : Site} {p : Ptr} {ps : List Ptr}
    (hpc : s.pc = .handOver site (p :: ps)) (hmin : getMinThief s.thiefSizes ≠ none) :
    Lifecycle { s.handOverOne p with pc := .handOver site ps } := by
  obtain ⟨i, hi⟩ := Option.ne_none_iff_exists'.mp hmin
  have hmem : p ∈ s.places := by simp [State.places, State.served, hpc, Pc.chosen]
  have hplaced := h.placed.of_narrows (handOver_narrows hpc)
  simp only [State.handOverOne, hi] at hplaced ⊢
  refine h.of_moved (f := fun x => { x.steal (.thief i) with status := .ready }) hmem hplaced rfl
    (by simp) ?_ ?_ (List.Subset.refl _) rfl rfl rfl rfl (by simp [hpc])
  · intro x
    simp only [TaskInterface.steal]
    split <;> exact ⟨rfl, rfl⟩
  · refine List.perm_iff_count.mpr fun q => ?_
    simp only [State.places, State.served, hpc, Pc.chosen, Pc.returned, List.count_append,
      List.count_cons, List.count_nil]
    omega

/-- Deleting a task that is found nowhere takes nothing out of a list. -/
theorem delete_places {p : Ptr} (hp : p ∉ s.places) :
    (s.delete p).places = s.places ∧ (s.delete p).waiting = s.waiting := by
  simp only [State.places, State.served, List.mem_append, not_or] at hp
  obtain ⟨⟨⟨⟨⟨⟨⟨hb, he⟩, hc⟩, -⟩, -⟩, hw⟩, -⟩, -⟩ := hp
  simp only [State.places, State.served, State.delete, List.erase_of_not_mem hb,
    List.erase_of_not_mem he, List.erase_of_not_mem hc, List.erase_of_not_mem hw, and_self]

theorem cancelBack_places (h : Lifecycle s) {p : Ptr} (hp : s.iCancelStack.getLast? = some p)
    (q : Ptr) :
    (s.cancelBack p).places.count q + (if p = q then 1 else 0) = s.places.count q := by
  have hstack : s.iCancelStack = s.iCancelStack.dropLast ++ [p] :=
    (List.dropLast_append_getLast? p hp).symm
  have hmem : p ∈ s.places := by
    have : p ∈ s.iCancelStack := List.mem_of_getLast? hp
    simp [State.places, State.served, this]
  have hcount (q : Ptr) : { s with iCancelStack := s.iCancelStack.dropLast }.places.count q +
      (if p = q then 1 else 0) = s.places.count q := by
    simp only [State.places, State.served, List.count_append]
    rw [hstack, List.count_append, List.dropLast_concat]
    simp only [List.count_cons, List.count_nil, beq_iff_eq]
    omega
  have hnot : p ∉ { s with iCancelStack := s.iCancelStack.dropLast }.places := by
    rw [← List.count_eq_zero]
    have := hcount p
    have := (h.absent hmem).1
    simp only [if_true] at *
    omega
  have hplaces : (s.cancelBack p).places =
      { s with iCancelStack := s.iCancelStack.dropLast }.places := by
    simp only [State.places, State.served, List.mem_append, not_or] at hnot
    obtain ⟨⟨⟨⟨⟨⟨⟨hb, he⟩, -⟩, -⟩, -⟩, hw⟩, -⟩, -⟩ := hnot
    simp only [State.places, State.served, State.cancelBack, State.delete,
      List.erase_of_not_mem hb, List.erase_of_not_mem he, List.erase_of_not_mem hw]
  rw [hplaces, hcount q]

/-- One turn of the cancelling loop. -/
theorem cancelBack (h : Lifecycle s) {p : Ptr} (hp : s.iCancelStack.getLast? = some p) :
    Lifecycle (s.cancelBack p) := by
  have hmem : p ∈ s.places := by
    have : p ∈ s.iCancelStack := List.mem_of_getLast? hp
    simp [State.places, State.served, this]
  obtain ⟨-, -, -, hnf⟩ := h.absent hmem
  have hlt := h.placed.known p (.inl hmem)
  have hst (q : Ptr) : ((s.cancelBack p).heap q).status = (s.heap q).status :=
    Heap.modify_field (·.status) _ _ _ _ fun _ => rfl
  have hty (q : Ptr) : ((s.cancelBack p).heap q).taskType = (s.heap q).taskType :=
    Heap.modify_field (·.taskType) _ _ _ _ fun _ => rfl
  have hno (q : Ptr) (hq : (s.heap q).notified = true) :
      ((s.cancelBack p).heap q).notified = true := by
    simp only [State.cancelBack, State.delete, Heap.modify_apply]
    split
    · rfl
    · exact hq
  refine ⟨h.placed.of_narrows (cancelBack_narrows s p), fun q hq => ?_, fun q hq => ?_,
    fun q hq => ?_, fun q hq hf => ?_, fun q hq => ?_, fun q hq => ?_⟩
  · have hcpu : (s.cancelBack p).onCpu q = s.onCpu q := by
      simp only [State.onCpu, hst]
      rfl
    have hdel : (s.cancelBack p).deleted.count q = s.deleted.count q + if p = q then 1 else 0 := by
      simp [State.cancelBack, State.delete, List.count_cons]
    have hplaces := h.cancelBack_places hp q
    have honce := h.once q hq
    omega
  · rcases List.mem_cons.mp hq with rfl | hq
    · exact hlt
    · exact h.born q hq
  · rcases List.mem_cons.mp hq with rfl | hq
    · refine .inr ⟨List.mem_cons_self, ?_⟩
      simp [State.cancelBack, State.delete]
    · refine (h.settled q hq).imp (fun hs => ⟨(hst q).trans hs.1, hno q hs.2⟩) fun hs => ?_
      exact ⟨List.mem_cons_of_mem p hs.1, hno q hs.2⟩
  · obtain ⟨hn, hor⟩ := h.finished q hq ((hst q).symm.trans hf)
    exact ⟨hno q hn, hor.imp_right fun hd => List.mem_cons_of_mem p hd⟩
  · rw [hty, hst]
    exact h.realTime q hq
  · rw [hty]
    exact h.waiting q (List.erase_subset hq)

theorem cancelLoop {e : Env} {fuel : Nat} (h : Lifecycle s)
    (hl : s.cancelLoop e fuel = some t) : Lifecycle t :=
  cancelLoop_rule (fun _ _ hp hu => hu.cancelBack hp) h hl

theorem leaveInteractiveBatch {site : Site} {e : Env} (h : Lifecycle s)
    (hpc : s.pc = .afterHandOver site) : Lifecycle (s.leaveInteractiveBatch site e) := by
  have hidle : s.pc.idle = true := by rw [hpc]; rfl
  simp only [State.leaveInteractiveBatch]
  split
  · exact h.of_shuffles (by simp [hpc]) (.of_ledger hidle rfl rfl)
  · rename_i u hu
    have hpu : u.pc = s.pc := (cancelLoop_narrows hu).2
    rw [← hpu] at hidle hpc
    exact (h.cancelLoop hu).of_shuffles (by simp [hpc]) (takeInteractive_shuffles site hidle)

/-- The task that was left is deleted exactly when it has finished. -/
theorem endTask_eq (h : Lifecycle s) {a : Ptr} (ha : s.active = some a) (hpc : s.pc ≠ .running) :
    s.endTask a = if (s.heap a).status = .finished then s.delete a else s := by
  simp only [State.endTask]
  split
  · rename_i hty
    rw [if_pos (h.realTime a ha hty hpc)]
  · rfl
  · rfl

/-- The next context cleans up behind the active task. -/
theorem leave (h : Lifecycle s) {a : Ptr} (ha : s.active = some a) (hpc : s.pc ≠ .running) :
    Lifecycle { s.endTask a with active := none } := by
  have hplaced : Placed { s.endTask a with active := none } := by
    have := h.placed.of_narrows (endTask_narrows s a)
    exact ⟨fun p hp => this.known p (.inl (hp.resolve_right (by simp))), this.served⟩
  rw [h.endTask_eq ha hpc] at hplaced ⊢
  split at hplaced
  · rename_i hfin
    obtain ⟨hnp, hnd⟩ := h.alone ha (.inr hfin)
    obtain ⟨hplaces, hwait⟩ := delete_places hnp
    rw [if_pos hfin]
    refine ⟨hplaced, fun q hq => ?_, fun q hq => ?_, fun q hq => ?_, fun q hq hf => ?_, by simp,
      fun q hq => h.waiting q (hwait ▸ hq)⟩
    · have hcpu : s.onCpu q = if a = q then 1 else 0 := by
        by_cases haq : a = q
        · subst haq
          simp [State.onCpu, ha, hfin]
        · simp [State.onCpu, ha, haq]
      have honce := h.once q hq
      have hcount : { s.delete a with active := none }.places.count q = s.places.count q :=
        congrArg (List.count q) hplaces
      rw [hcount]
      simp only [State.onCpu, State.delete, List.count_cons, beq_iff_eq, reduceCtorEq, false_and,
        if_false]
      omega
    · rcases List.mem_cons.mp hq with rfl | hq
      · exact h.placed.known q (.inr ha)
      · exact h.born q hq
    · rcases List.mem_cons.mp hq with rfl | hq
      · exact .inl ⟨hfin, (h.finished q (h.placed.known q (.inr ha)) hfin).1⟩
      · exact h.settled q hq
    · obtain ⟨hn, hor⟩ := h.finished q hq hf
      refine ⟨hn, .inr ?_⟩
      rcases hor with ⟨haq, -⟩ | hd
      · obtain rfl : a = q := by simpa [ha] using haq
        exact List.mem_cons_self
      · exact List.mem_cons_of_mem a hd
  · rename_i hfin
    rw [if_neg hfin]
    refine ⟨hplaced, fun q hq => ?_, h.born, h.settled, fun q hq hf => ?_, by simp, h.waiting⟩
    · have hcpu : s.onCpu q = 0 := by
        by_cases haq : a = q
        · subst haq
          simp [State.onCpu, ha, hfin, hpc]
        · simp [State.onCpu, ha, haq]
      have honce := h.once q hq
      have hcpu' : { s with active := none }.onCpu q = 0 := by simp [State.onCpu]
      rw [hcpu', ← hcpu]
      exact honce
    · obtain ⟨hn, ⟨haq, -⟩ | hd⟩ := h.finished q hq hf
      · obtain rfl : a = q := by simpa [ha] using haq
        exact absurd hf hfin
      · exact ⟨hn, .inr hd⟩

/-- The returned task gets the processor, or the main loop goes on. -/
theorem enter (h : Lifecycle s) {next : Option Ptr} (ha : s.active = none)
    (hpc : s.pc = .ret next) :
    Lifecycle { s with active := next, pc := if next = none then .mainLoop else .running } := by
  have hidle : (if next = none then Pc.mainLoop else .running).chosen = [] ∧
      (if next = none then Pc.mainLoop else .running).returned = [] := by
    split <;> exact ⟨rfl, rfl⟩
  have hplaced := h.placed.of_narrows (switch_narrows hpc _ hidle.1 hidle.2)
  refine ⟨hplaced, fun q hq => ?_, h.born, h.settled, fun q hq hf => ?_, fun q hq hty hrun => ?_,
    h.waiting⟩
  · have honce := h.once q hq
    have hcpu : s.onCpu q = 0 := by simp [State.onCpu, ha]
    cases next with
    | none =>
      have hcount : { s with active := none, pc := .mainLoop }.places = s.places := by
        simp [State.places, State.served, hpc, Pc.chosen, Pc.returned]
      rw [hcpu] at honce
      simpa [hcount, State.onCpu] using honce
    | some p =>
      have hcount : { s with active := some p, pc := .running }.places.count q +
          (if p = q then 1 else 0) = s.places.count q := by
        simp [State.places, State.served, hpc, Pc.chosen, Pc.returned, List.count_cons]
        omega
      simp only [reduceCtorEq, if_false, State.onCpu, Option.some.injEq, true_or, and_true]
      omega
  · obtain ⟨hn, ⟨haq, -⟩ | hd⟩ := h.finished q hq hf
    · simp [ha] at haq
    · exact ⟨hn, .inr hd⟩
  · simp only at hq
    simp [hq] at hrun

theorem stepRet (h : Lifecycle s) {next : Option Ptr} (hpc : s.pc = .ret next) :
    Lifecycle (s.stepRet next) := by
  have hrun : s.pc ≠ .running := by simp [hpc]
  simp only [State.stepRet]
  split
  · rename_i ha
    have := h.enter ha hpc
    simpa [ha] using this
  · rename_i ha
    exact h.enter ha hpc
  · rename_i a ha
    have hu : { s.endTask a with active := none }.pc = .ret none := by simpa using hpc
    exact (h.leave ha hrun).enter rfl hu
  · rename_i a q ha
    have hu : { s.endTask a with active := none }.pc = .ret (some q) := by simpa using hpc
    have ht := (h.leave ha hrun).enter rfl hu
    split
    · rename_i haq
      subst haq
      have hmem : a ∈ s.places := by simp [State.places, hpc, Pc.returned]
      rw [h.endTask_eq ha hrun, if_neg (h.absent hmem).2.2.2] at ht
      simpa [ha] using ht
    · exact ht

theorem mainStep {e : Env} (h : Lifecycle s) (hs : s.mainStep e = some t)
    (hmin : ∀ site p ps, s.pc = .handOver site (p :: ps) → getMinThief s.thiefSizes ≠ none) :
    Lifecycle t := by
  by_cases hpc : s.pc.Settles
  · cases hcase : s.pc with
    | handOver site l =>
      cases l with
      | nil => simp [hcase, Pc.Settles] at hpc
      | cons p ps =>
        rw [State.mainStep, hcase, Option.some.injEq] at hs
        exact hs ▸ h.handOver hcase (hmin site p ps hcase)
    | afterHandOver site =>
      rw [State.mainStep, hcase, Option.some.injEq] at hs
      exact hs ▸ h.leaveInteractiveBatch hcase
    | ret next =>
      rw [State.mainStep, hcase, Option.some.injEq] at hs
      exact hs ▸ h.stepRet hcase
    | _ => simp [hcase, Pc.Settles] at hpc
  · have hrun : s.pc ≠ .running := by
      intro hrun
      simp [State.mainStep, hrun] at hs
    exact h.of_shuffles hrun (mainStep_shuffles hpc hs)

/-- The running task is linked in one place and gives up the processor. -/
theorem of_left (h : Lifecycle s) {p : Ptr} (ha : s.active = some p) (hpc : s.pc = .running)
    (hrt : (s.heap p).taskType ≠ .realTime) (hplaced : Placed t)
    (hplaces : ∀ q, t.places.count q = s.places.count q + if p = q then 1 else 0)
    (hfin : ∀ q, (t.heap q).status = .finished ↔ q ≠ p ∧ (s.heap q).status = .finished)
    (hkeep : ∀ q, (t.heap q).taskType = (s.heap q).taskType ∧
      (t.heap q).notified = (s.heap q).notified)
    (hwait : ∀ q ∈ t.waiting, q ∈ s.waiting ∨ q = p) (hdel : t.deleted = s.deleted)
    (hcan : t.cancelled = s.cancelled) (hact : t.active = s.active) (hfresh : t.fresh = s.fresh)
    (hrun : t.pc ≠ .running) : Lifecycle t := by
  obtain ⟨-, hnd⟩ := h.alone ha (.inl hpc)
  refine ⟨hplaced, fun q hq => ?_, ?_, fun q hq => ?_, fun q hq hf => ?_, fun q hq hty _ => ?_,
    fun q hq => ?_⟩
  · have honce := h.once q (hfresh ▸ hq)
    have hcpu : s.onCpu q = if p = q then 1 else 0 := by
      simp [State.onCpu, ha, hpc]
    have hcpu' : t.onCpu q = 0 := by
      simp only [State.onCpu, hact, ha, Option.some.injEq, hrun, false_or, hfin]
      rw [if_neg]
      rintro ⟨hpq, hne, -⟩
      exact hne hpq.symm
    have hcount := hplaces q
    rw [hdel]
    omega
  · rw [hdel, hfresh]
    exact h.born
  · rw [hdel] at hq
    have hne : q ≠ p := fun hqp => hnd (hqp ▸ hq)
    simpa only [State.Settled, hfin, hne, ne_eq, not_false_eq_true, true_and, (hkeep q).2, hcan]
      using h.settled q hq
  · obtain ⟨hn, ⟨haq, hr⟩ | hd⟩ := h.finished q (hfresh ▸ hq) ((hfin q).mp hf).2
    · exact absurd hpc hr
    · exact ⟨(hkeep q).2.trans hn, .inr (hdel ▸ hd)⟩
  · obtain rfl : p = q := by simpa [hact, ha] using hq
    exact absurd ((hkeep p).1 ▸ hty) hrt
  · rw [(hkeep q).1]
    rcases hwait q hq with hq | rfl
    · exact h.waiting q hq
    · exact hrt

theorem yieldActive (h : Lifecycle s) {p : Ptr} (ha : s.active = some p) (hpc : s.pc = .running)
    (hrt : (s.heap p).taskType ≠ .realTime) (hplaced : Placed (s.yieldActive p)) :
    Lifecycle (s.yieldActive p) := by
  refine h.of_left ha hpc hrt hplaced (fun q => ?_) (fun q => ?_) (fun q => ⟨?_, ?_⟩)
    (fun q hq => .inl hq) rfl rfl rfl rfl (by simp [State.yieldActive])
  · simp only [State.yieldActive, State.enable, State.places, State.served, hpc, Pc.chosen,
      Pc.returned, List.count_append, List.count_nil]
    cases hty : (s.heap p).taskType with
    | realTime => exact absurd hty hrt
    | batch =>
      simp [List.count_cons]
      omega
    | interactive =>
      simp
      omega
  · simp only [State.yieldActive, State.enable, Heap.modify_apply]
    split
    · simp_all
    · simp_all
  · exact Heap.modify_field (·.taskType) _ _ _ _ fun _ => rfl
  · exact Heap.modify_field (·.notified) _ _ _ _ fun _ => rfl

theorem block (h : Lifecycle s) {p : Ptr} (ha : s.active = some p) (hpc : s.pc = .running)
    (hrt : (s.heap p).taskType ≠ .realTime) (hplaced : Placed (s.taskStep p .block)) :
    Lifecycle (s.taskStep p .block) := by
  have hnf : (s.heap p).status ≠ .finished := by
    intro hfin
    rcases (h.finished p (h.placed.known p (.inr ha)) hfin).2 with ⟨-, hr⟩ | hd
    · exact hr hpc
    · exact (h.alone ha (.inl hpc)).2 hd
  refine h.of_left ha hpc hrt hplaced (fun q => ?_) (fun q => ?_) (fun q => ⟨rfl, rfl⟩)
    (fun q hq => (List.mem_cons.mp hq).symm) rfl rfl rfl rfl (by simp [State.taskStep])
  · simp only [State.taskStep, State.places, State.served, hpc, Pc.chosen, Pc.returned,
      List.count_append, List.count_cons, List.count_nil, beq_iff_eq]
    omega
  · refine ⟨fun hf => ⟨fun hqp => hnf (hqp ▸ hf), hf⟩, And.right⟩

theorem finish (h : Lifecycle s) {p : Ptr} (ha : s.active = some p) (hpc : s.pc = .running)
    (hplaced : Placed (s.taskStep p .finish)) : Lifecycle (s.taskStep p .finish) := by
  obtain ⟨-, hnd⟩ := h.alone ha (.inl hpc)
  have hself : (s.taskStep p .finish).heap p =
      { s.heap p with status := .finished, notified := true } := by
    simp [State.taskStep]
  have hother (q : Ptr) (hq : q ≠ p) : (s.taskStep p .finish).heap q = s.heap q := by
    simp [State.taskStep, Heap.modify_of_ne _ _ hq]
  have hty (q : Ptr) : ((s.taskStep p .finish).heap q).taskType = (s.heap q).taskType :=
    Heap.modify_field (·.taskType) _ _ _ _ fun _ => rfl
  refine ⟨hplaced, fun q hq => ?_, h.born, fun q hq => ?_, fun q hq hf => ?_, fun q hq _ _ => ?_,
    fun q hq => ?_⟩
  · have honce := h.once q hq
    have hcpu : s.onCpu q = if p = q then 1 else 0 := by simp [State.onCpu, ha, hpc]
    have hcpu' : (s.taskStep p .finish).onCpu q = if p = q then 1 else 0 := by
      by_cases hpq : p = q
      · subst hpq
        simp [State.onCpu, State.taskStep, ha]
      · simp [State.onCpu, State.taskStep, ha, hpq]
    have hplaces : (s.taskStep p .finish).places = s.places := by
      simp [State.taskStep, State.places, State.served, hpc, Pc.chosen, Pc.returned]
    rw [hplaces, hcpu', ← hcpu]
    exact honce
  · have hne : q ≠ p := fun hqp => hnd (hqp ▸ hq)
    simp only [State.Settled, hother q hne]
    exact h.settled q hq
  · by_cases hqp : q = p
    · subst hqp
      rw [hself]
      exact ⟨rfl, .inl ⟨ha, by simp [State.taskStep]⟩⟩
    · rw [hother q hqp] at hf ⊢
      obtain ⟨hn, ⟨-, hr⟩ | hd⟩ := h.finished q hq hf
      · exact absurd hpc hr
      · exact ⟨hn, .inr hd⟩
  · obtain rfl : p = q := by simpa [ha, State.taskStep] using hq
    rw [hself]
  · rw [hty]
    exact h.waiting q hq

/-- A wake-up moves a waiting task to a ready queue. -/
theorem wake (h : Lifecycle s) {p : Ptr} (hp : p ∈ s.waiting)
    (hplaced : Placed ({ s with waiting := s.waiting.erase p }.enable true p)) :
    Lifecycle ({ s with waiting := s.waiting.erase p }.enable true p) := by
  have hrt := h.waiting p hp
  refine h.of_moved (f := ({ · with status := .ready })) (by simp [State.places, hp]) hplaced rfl
    (by simp) (fun x => ⟨rfl, rfl⟩) ?_ List.erase_subset rfl rfl rfl rfl Iff.rfl
  refine List.perm_iff_count.mpr fun q => ?_
  have herase := (List.perm_cons_erase hp).count_eq q
  simp only [State.enable, State.places, State.served, List.count_append]
  cases hty : (s.heap p).taskType with
  | realTime => exact absurd hty hrt
  | batch =>
    simp [List.count_cons] at herase ⊢
    omega
  | interactive =>
    simp [List.count_cons] at herase ⊢
    omega

/-- A new task is linked in one place. -/
theorem of_created (h : Lifecycle s) {task : TaskInterface} (hplaced : Placed t)
    (hready : task.status = .ready) (hheap : t.heap = (s.create task).heap)
    (hplaces : ∀ q, t.places.count q = s.places.count q + if s.fresh = q then 1 else 0)
    (hwait : t.waiting = s.waiting) (hdel : t.deleted = s.deleted)
    (hcan : t.cancelled = s.cancelled) (hact : t.active = s.active)
    (hfresh : t.fresh = s.fresh + 1) (hpc : t.pc = s.pc) : Lifecycle t := by
  have hold (q : Ptr) (hq : q < s.fresh) : t.heap q = s.heap q := by
    simp [hheap, State.create, Heap.modify_of_ne _ _ (Nat.ne_of_lt hq)]
  have hnew : t.heap s.fresh = task := by
    rw [hheap]
    simp [State.create]
  have hunknown : s.places.count s.fresh = 0 ∧ s.active ≠ some s.fresh ∧
      s.deleted.count s.fresh = 0 := by
    refine ⟨List.count_eq_zero.mpr fun hm => ?_, fun hm => ?_, List.count_eq_zero.mpr fun hm => ?_⟩
    · exact Nat.lt_irrefl _ (h.placed.known _ (.inl hm))
    · exact Nat.lt_irrefl _ (h.placed.known _ (.inr hm))
    · exact Nat.lt_irrefl _ (h.born _ hm)
  have hcases (q : Ptr) (hq : q < t.fresh) : q < s.fresh ∨ q = s.fresh := by
    rw [hfresh] at hq
    exact Nat.lt_succ_iff_lt_or_eq.mp hq
  refine ⟨hplaced, fun q hq => ?_, fun q hq => ?_, fun q hq => ?_, fun q hq hf => ?_,
    fun q hq => ?_, fun q hq => ?_⟩
  · rw [hplaces, hdel]
    rcases hcases q hq with hlt | rfl
    · have hcpu : t.onCpu q = s.onCpu q := by simp [State.onCpu, hact, hpc, hold q hlt]
      rw [hcpu, if_neg (Nat.ne_of_gt hlt)]
      exact h.once q hlt
    · have hcpu : t.onCpu s.fresh = 0 := by simp [State.onCpu, hact, hunknown.2.1]
      rw [hcpu, if_pos rfl, hunknown.1, hunknown.2.2]
  · rw [hfresh]
    exact Nat.lt_succ_of_lt (h.born q (hdel ▸ hq))
  · rw [hdel] at hq
    simp only [State.Settled, hold q (h.born q hq), hcan]
    exact h.settled q hq
  · rw [hact, hdel, hpc]
    rcases hcases q hq with hlt | rfl
    · rw [hold q hlt] at hf ⊢
      exact h.finished q hlt hf
    · rw [hnew, hready] at hf
      cases hf
  · rw [hact] at hq
    rw [hold q (h.placed.known q (.inr hq)), hpc]
    exact h.realTime q hq
  · rw [hwait] at hq
    have hlt : q < s.fresh := h.placed.known q (.inl (by simp [State.places, hq]))
    rw [hold q hlt]
    exact h.waiting q hq

/-- A change of fields that say nothing about tasks. -/
theorem of_eq (h : Lifecycle s) (hpc : t.pc = s.pc) (hl : t.ledger = s.ledger) :
    Lifecycle t := by
  have hplaced := h.placed.of_eq hpc hl
  simp only [State.ledger, Prod.mk.injEq] at hl
  obtain ⟨hb, he, hc, hr, hw, hh, hd, hx, ha, hf, hm⟩ := hl
  have hplaces : t.places = s.places := by
    rw [State.places, State.places, State.served, State.served, hb, he, hc, hr, hw, hh, hpc]
  have hty (p : Ptr) : (t.heap p).taskType = (s.heap p).taskType :=
    congrArg Prod.fst (congrFun hm p)
  have hst (p : Ptr) : (t.heap p).status = (s.heap p).status := congrArg (·.2.1) (congrFun hm p)
  have hno (p : Ptr) : (t.heap p).notified = (s.heap p).notified :=
    congrArg (·.2.2) (congrFun hm p)
  have hcpu (p : Ptr) : t.onCpu p = s.onCpu p := by simp only [State.onCpu, ha, hpc, hst]
  constructor
  · exact hplaced
  · simpa only [hplaces, hcpu, hd, hf] using h.once
  · simpa only [hd, hf] using h.born
  · simpa only [hd, State.Settled, hst, hno, hx] using h.settled
  · simpa only [hf, hst, hno, ha, hpc, hd] using h.finished
  · simpa only [ha, hty, hpc, hst] using h.realTime
  · simpa only [hw, hty] using h.waiting

end Lifecycle

end JamSched.Rib
