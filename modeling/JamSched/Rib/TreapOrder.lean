import JamSched.Rib.Turn

/-!
# The order of the treap

`iEDFPriorityQueue` compares the tasks it links by the deadlines and bursts they have when one
of them is inserted. Its head is the minimum as long as no key of a linked task is written.
The one write of a key is the accounting of an interactive task at the head of the loop of
`GetNextTask`.
-/
namespace JamSched

/-- Every task of the list comes after none of those behind it. -/
def Ordered (h : Heap) (qs : List Ptr) : Prop :=
  qs.Pairwise fun p q => priorityOrder (h q) (h p) = false

/-- `priority_order` is lexicographic. -/
theorem priorityOrder_eq_false {a b : TaskInterface} : priorityOrder b a = false ↔
    a.deadline < b.deadline ∨ a.deadline = b.deadline ∧ a.burst ≤ b.burst := by
  by_cases h : b.deadline = a.deadline
  · simp [priorityOrder, h]
  · simp only [priorityOrder, if_neg h, decide_eq_false_iff_not, Int.not_lt]
    omega

theorem priorityOrder_trans {a b c : TaskInterface} (hab : priorityOrder b a = false)
    (hbc : priorityOrder c b = false) : priorityOrder c a = false := by
  rw [priorityOrder_eq_false] at hab hbc ⊢
  omega

theorem priorityOrder_asymm {a b : TaskInterface} (h : priorityOrder a b = true) :
    priorityOrder b a = false := by
  rw [priorityOrder_eq_false]
  have hne : ¬ priorityOrder a b = false := by simp [h]
  rw [priorityOrder_eq_false] at hne
  omega

/-- Insertion keeps the order. -/
theorem Ordered.insert {h : Heap} {qs : List Ptr} (hq : Ordered h qs) (p : Ptr) :
    Ordered h (edfInsert h p qs) := by
  induction qs with
  | nil => simp [edfInsert, Ordered]
  | cons q qs ih =>
    obtain ⟨hhead, htail⟩ := List.pairwise_cons.mp hq
    simp only [edfInsert]
    split
    · rename_i hlt
      refine List.pairwise_cons.mpr ⟨fun r hr => ?_, hq⟩
      have hpq := priorityOrder_asymm hlt
      rcases List.mem_cons.mp hr with rfl | hr
      · exact hpq
      · exact priorityOrder_trans hpq (hhead r hr)
    · rename_i hnot
      refine List.pairwise_cons.mpr ⟨fun r hr => ?_, ih htail⟩
      rcases (mem_edfInsert h p r qs).mp hr with rfl | hr
      · simpa using hnot
      · exact hhead r hr

/-- The order is a matter of the keys of the linked tasks. -/
theorem Ordered.congr {h h' : Heap} {qs : List Ptr} (hq : Ordered h qs)
    (hk : ∀ p ∈ qs, (h' p).deadline = (h p).deadline ∧ (h' p).burst = (h p).burst) :
    Ordered h' qs := by
  refine List.Pairwise.imp_of_mem (fun {p q} hp hq' hpq => ?_) hq
  have hp := hk p hp
  have hq' := hk q hq'
  rw [priorityOrder_eq_false] at hpq ⊢
  omega

namespace Rib

open Machine

/-- The task at `iEDFPriorityQueue.top()` is minimal under `priority_order`. -/
def TopMinimal (s : State) : Prop :=
  match s.iEDFPriorityQueue with
  | [] => True
  | p :: qs => ∀ q ∈ qs, priorityOrder (s.heap q) (s.heap p) = false

instance (s : State) : Decidable (TopMinimal s) :=
  match h : s.iEDFPriorityQueue with
  | [] => isTrue (by simp [TopMinimal, h])
  | p :: qs =>
    decidable_of_iff (∀ q ∈ qs, priorityOrder (s.heap q) (s.heap p) = false)
      (by simp [TopMinimal, h])

/-- The step writes no key of a task that is and stays linked. -/
def KeepsKeys (s : State) (l : Label) : Prop :=
  ∀ t, step s l = some t → ∀ p ∈ s.iEDFPriorityQueue, p ∈ t.iEDFPriorityQueue →
    (t.heap p).deadline = (s.heap p).deadline ∧ (t.heap p).burst = (s.heap p).burst

/-- The head of the loop finds the interactive task it accounts for linked again only if no
time has passed since its dispatch. -/
def ChargesUnlinked (s : State) : Label → Prop
  | .main e => s.pc = .top → s.toContinue = true → s.activeType = some .interactive →
    ∀ p ∈ s.iEDFPriorityQueue, s.active = some p → e.now = s.taskStartTime
  | _ => True

instance (s : State) (l : Label) : Decidable (ChargesUnlinked s l) :=
  match l with
  | .main _ => inferInstanceAs (Decidable (_ → _))
  | .task _ | .createRealTime _ _ | .createInteractive _ _ _ _ | .createBatch _ _ _ _ | .wake _
  | .setSchedule _ _ | .shutDown | .thiefs _ | .waiters _ _ _ => inferInstanceAs (Decidable True)

section Step

variable {s t : State} {e : Env} {l : Label}

theorem TopMinimal.of_ordered (h : Ordered s.heap s.iEDFPriorityQueue) : TopMinimal s := by
  simp only [TopMinimal]
  split
  · trivial
  · rename_i p qs hedf
    rw [hedf] at h
    exact (List.pairwise_cons.mp h).1

theorem stepRet_edf (s : State) (next : Option Ptr) :
    (s.stepRet next).iEDFPriorityQueue.Sublist s.iEDFPriorityQueue ∧
      (s.stepRet next).heap = s.heap := by
  obtain ⟨u, rfl | ⟨a, rfl⟩, heq⟩ := stepRet_cases s next <;> rw [heq]
  · exact ⟨List.Sublist.refl _, rfl⟩
  · exact ⟨List.erase_sublist, rfl⟩

/-- Away from the head of the loop the main thread at most takes tasks out of the treap. -/
theorem Turn.edf (h : Turn s e t) (hpc : s.pc ≠ .top) :
    t.iEDFPriorityQueue.Sublist s.iEDFPriorityQueue ∧
      ∀ p, (t.heap p).keys = (s.heap p).keys := by
  cases h with
  | top htop => exact absurd htop hpc
  | start p _ => exact ⟨List.Sublist.refl _, fun _ => rfl⟩
  | switch next _ =>
    obtain ⟨hedf, hheap⟩ := stepRet_edf s next
    exact ⟨hedf, fun p => by rw [hheap]⟩
  | dispatch => exact ⟨List.Sublist.refl _, fun _ => rfl⟩
  | quiet _ hq => exact ⟨hq.edf, hq.keys⟩

/-- The head of the loop charges the active interactive task and nothing else. -/
theorem stepTop_burst (s : State) (now : Int) (p : Ptr) :
    ((s.stepTop now).heap p).deadline = (s.heap p).deadline ∧
      ((s.stepTop now).heap p).burst = (s.heap p).burst -
        if s.toContinue = true ∧ s.activeType = some .interactive ∧ s.active = some p then
          now - s.taskStartTime else 0 := by
  cases hc : s.toContinue with
  | false => simp [State.stepTop, hc]
  | true =>
    cases ha : s.active with
    | none => simp [State.stepTop, hc, ha]
    | some a =>
      cases hty : (s.heap a).taskType with
      | batch => simp [State.stepTop, State.activeType, hc, ha, hty]
      | interactive =>
        by_cases hp : p = a
        · simp [State.stepTop, State.activeType, hc, ha, hty, hp]
        · simp [State.stepTop, State.activeType, hc, ha, hty, Heap.modify_of_ne _ _ hp,
            Ne.symm hp]
      | realTime =>
        cases hslot : s.slotNow with
        | none => simp [State.stepTop, State.activeType, hc, ha, hty, hslot]
        | some slot =>
          by_cases hlong : endOfRtSlotSpinMax < slot.eTime <;>
            simp [State.stepTop, State.activeType, hc, ha, hty, hslot, hlong]

theorem stepTop_edf (s : State) (now : Int) :
    (s.stepTop now).iEDFPriorityQueue = s.iEDFPriorityQueue := by
  have hl := (stepTop_ledger s now).1
  simp only [State.ledger, Prod.mk.injEq] at hl
  exact hl.2.1

theorem Turn.edf_sublist (h : Turn s e t) :
    t.iEDFPriorityQueue.Sublist s.iEDFPriorityQueue := by
  by_cases hpc : s.pc = .top
  · cases h with
    | top => exact stepTop_edf s e.now ▸ List.Sublist.refl _
    | quiet hplain => simp [hpc, Pc.plain] at hplain
    | _ => simp_all
  · exact (h.edf hpc).1

theorem keys_orders {a b : TaskInterface} (h : a.keys = b.keys) :
    a.deadline = b.deadline ∧ a.burst = b.burst := by
  simp only [TaskInterface.keys, Prod.mk.injEq] at h
  exact h.2.2

theorem mem_places_of_linked {p : Ptr} (hp : p ∈ s.iEDFPriorityQueue) : p ∈ s.places := by
  simp only [State.places, State.served, List.mem_append]
  grind

/-- As long as no key of a linked task is written, the treap stays in order. -/
theorem ordered_step (ho : Ordered s.heap s.iEDFPriorityQueue) (hq : Placed s)
    (hk : KeepsKeys s l) (hs : step s l = some t) : Ordered t.heap t.iEDFPriorityQueue := by
  have hkeys := hk t hs
  rcases step_turn hs with ⟨e, rfl, -, hturn⟩ | ha
  · have hsub : t.iEDFPriorityQueue.Sublist s.iEDFPriorityQueue := hturn.edf_sublist
    refine Ordered.congr (List.Pairwise.sublist hsub ho) fun p hp => ?_
    exact hkeys p (hsub.subset hp) hp
  · have hlinked (p : Ptr) (hp : p ∈ s.iEDFPriorityQueue) : (t.heap p).keys = (s.heap p).keys :=
      ha.keys p (hq.known p (.inl (mem_places_of_linked hp)))
    have hold : Ordered t.heap s.iEDFPriorityQueue :=
      ho.congr fun p hp => keys_orders (hlinked p hp)
    rcases ha.edf with heq | ⟨p, -, heq⟩
    · exact heq ▸ hold
    · exact heq ▸ hold.insert p

/-- A step writes a key of a linked task exactly at the head of the loop, when it charges an
interactive task that is linked again. -/
theorem keepsKeys_iff (hq : Placed s) (hs : step s l = some t) :
    KeepsKeys s l ↔ ChargesUnlinked s l := by
  have hone : KeepsKeys s l ↔ ∀ p ∈ s.iEDFPriorityQueue, p ∈ t.iEDFPriorityQueue →
      (t.heap p).deadline = (s.heap p).deadline ∧ (t.heap p).burst = (s.heap p).burst := by
    simp only [KeepsKeys, hs, Option.some.injEq, forall_eq']
  rw [hone]
  by_cases htop : s.pc = .top ∧ ∃ e, l = .main e
  · obtain ⟨hpc, e, rfl⟩ := htop
    simp only [Rib.step, Option.ite_none_right_eq_some] at hs
    have ht : { s with clock := e.now }.stepTop e.now = t := by
      simpa [State.mainStep, hpc] using hs.2
    have hedf : t.iEDFPriorityQueue = s.iEDFPriorityQueue := by
      rw [← ht, stepTop_edf]
    have hburst (p : Ptr) := stepTop_burst { s with clock := e.now } e.now p
    rw [ht] at hburst
    have hact : State.activeType { s with clock := e.now } = s.activeType := rfl
    simp only [hact] at hburst
    simp only [ChargesUnlinked, hpc, forall_const, hedf]
    constructor
    · intro hkeep hc hty p hp ha
      have h₁ := (hburst p).2
      have h₂ := (hkeep p hp hp).2
      rw [if_pos ⟨hc, hty, ha⟩] at h₁
      omega
    · intro hcharge p hp _
      refine ⟨(hburst p).1, ?_⟩
      rw [(hburst p).2]
      split
      · rename_i h
        have := hcharge h.1 h.2.1 p hp h.2.2
        omega
      · omega
  · have hcharge : ChargesUnlinked s l := by
      cases l with
      | main e => exact fun hpc => absurd ⟨hpc, e, rfl⟩ htop
      | _ => trivial
    refine iff_of_true (fun p hp _ => ?_) hcharge
    rcases step_turn hs with ⟨e, rfl, -, hturn⟩ | ha
    · exact keys_orders ((hturn.edf fun hpc => htop ⟨hpc, e, rfl⟩).2 p)
    · exact keys_orders (ha.keys p (hq.known p (.inl (mem_places_of_linked hp))))

end Step

/-- The head of the treap is minimal in every state of a run, and no key of a linked task is
written, exactly when the loop never charges time to an interactive task that is linked
again. -/
theorem treap_ordered_iff (thiefSizes : List Nat) (start : Int) (ls : List Label) (s : State)
    (hr : run step (initial thiefSizes start) ls = some s) :
    (Always step TopMinimal (initial thiefSizes start) ls ∧
      Along step KeepsKeys (initial thiefSizes start) ls) ↔
      Along step ChargesUnlinked (initial thiefSizes start) ls := by
  have hq := placed_initial thiefSizes start
  have hiff : Along step KeepsKeys (initial thiefSizes start) ls ↔
      Along step ChargesUnlinked (initial thiefSizes start) ls :=
    along_congr_of_run (I := Placed) (fun _ _ _ h _ hs => h.step hs)
      (fun _ _ _ h hs => keepsKeys_iff h hs) hq hr
  rw [← hiff]
  refine ⟨And.right, fun hk => ⟨?_, hk⟩⟩
  refine always_invariant_along (I := fun s => Ordered s.heap s.iEDFPriorityQueue ∧ Placed s)
    (fun s l t h hk hs => ⟨ordered_step h.1 h.2 hk hs, h.2.step hs⟩)
    (fun s h => .of_ordered h.1) ⟨?_, hq⟩ hk
  simp [initial, Ordered]

/-- Two interactive tasks of one deadline. The first, with the larger burst, runs and leaves
the processor at `now`. -/
def leaveRun (a : TaskAction) (now : Int) : List Label :=
  [Label.createInteractive .sharedCopy false 1000 10] ++
    List.replicate 9 (Label.main { now := 0 }) ++
    [Label.createInteractive .sharedCopy false 1000 8, .task a, .main { now }]

theorem treap_ordered_leaveRun : ∃ s,
    run step (initial [0] 0) (leaveRun .block 5) = some s ∧ s.iEDFPriorityQueue = [1] ∧
    Always step TopMinimal (initial [0] 0) (leaveRun .block 5) :=
  ⟨_, rfl, rfl, ((treap_ordered_iff [0] 0 (leaveRun .block 5) _ rfl).mpr (by decide)).1⟩

/-- A task that yields is inserted with its full burst of 10 and then charged: with the 5 that
are left it should be the head. -/
theorem treap_not_ordered_leaveRun : ∃ s,
    run step (initial [0] 0) (leaveRun .yield 5) = some s ∧ s.iEDFPriorityQueue = [1, 0] ∧
    (s.heap 1).burst = 8 ∧ (s.heap 0).burst = 5 ∧ ¬ TopMinimal s :=
  ⟨_, rfl, by decide, by decide, by decide, by decide⟩

end Rib

end JamSched
