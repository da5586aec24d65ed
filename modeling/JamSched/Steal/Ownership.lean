import JamSched.Steal.Step

/-!
# Which thread owns a task

Every task has one location: a ready queue, the hands of a thread that moves it to another
scheduler, a wait list, the hands of a thread that wakes it, or none of these. Beside this a
task is dispatched on a thread from the moment `GetNextTask` returns it until `EndTask` is
called for it; a dispatched task may already be linked again, after a yield or an early
wake-up, but then only in the queue of the same scheduler. The flag `isStealable` keeps it
there.
-/
namespace JamSched.Steal

/-- Where a task is linked. -/
inductive Loc where
  | none
  | ready (x : SchedId)
  /-- Taken out of a queue by thread `x`, to be given to another scheduler. -/
  | limbo (x : SchedId)
  | blocked
  | waking (x : SchedId)
  deriving DecidableEq, Repr

namespace Thread

/-- The tasks the thread is moving to another scheduler. -/
def limbo : Thread → List Ptr
  | .steal _ l | .handOver _ l => l
  | _ => []

/-- `Active()` while `EndTask` has not been called for it. -/
def active : Thread → Option Ptr
  | .next a | .steal a _ | .handOver a _ | .switch a _ => a
  | .endSet a _ => some a
  | .run p => some p
  | .loop | .endTest _ _ => none

/-- The task that `GetNextTask` returned, from then on until it gives up the processor. -/
def held : Thread → Option Ptr
  | .switch _ q | .endSet _ q | .endTest _ q => q
  | .run p => some p
  | _ => none

/-- What `GetNextTask` returned is another task than the one that is left. -/
def Apart : Thread → Prop
  | .switch (some a) q | .endSet a q | .endTest a q => q ≠ some a
  | _ => True

end Thread

/-- Between the pop that dispatched `p` on thread `x` and the `EndTask` call for it. -/
def Pool.Dispatched (s : Pool) (x : SchedId) (p : Ptr) : Prop :=
  (s.thread x).active = some p ∨ (s.thread x).held = some p

/-- How often a task is linked at a location. -/
def Pool.count (s : Pool) (p : Ptr) : Loc → Nat
  | .none => 0
  | .ready x => (s.isReady x).count p
  | .limbo x => (s.thread x).limbo.count p
  | .blocked => s.blocked.count p
  | .waking x => s.waking.count (p, x)

/-- What is kept about task `p`, whose location is `l`. -/
structure Sound (s : Pool) (p : Ptr) (l : Loc) : Prop where
  count : ∀ k, k ≠ .none → s.count p k = if l = k then 1 else 0
  scheduler : ∀ x, l = .ready x ∨ l = .waking x ∨ s.Dispatched x p → (s.heap p).scheduler = x
  held : ∀ x, (s.thread x).held = some p → l = .none ∧ (s.heap p).status ≠ .finished
  finished : (s.heap p).status = .finished → l = .none
  cleared : ∀ i, s.Dispatched (.thief i) p → (s.heap p).isStealable = false
  moving : ∀ x, l = .limbo x → (s.heap p).isStealable = true ∧ ∀ y, ¬ s.Dispatched y p
  pinned : p ∈ s.unstealable → (s.heap p).scheduler = .rib ∧ (s.heap p).isStealable = false
  shared : p ∈ s.executed → (s.heap p).stack = .sharedCopy →
    (∀ x, l ≠ .limbo x) ∧ ((s.heap p).scheduler = .rib ∨ (s.heap p).isStealable = false)
  known : s.fresh ≤ p → l = .none ∧ (∀ x, ¬ s.Dispatched x p) ∧ p ∉ s.executed ∧
    p ∉ s.unstealable

/-- Every task has a location. -/
def Owned (s : Pool) : Prop := ∀ p, ∃ l, Sound s p l

variable {s t : Pool} {x : SchedId} {p q : Ptr} {l : Loc}

/-- What the invariant reads of a task is the same in both states. -/
structure Frame (s t : Pool) (p : Ptr) : Prop where
  heap : t.heap p = s.heap p
  count : ∀ k, t.count p k = s.count p k
  active : ∀ x, (t.thread x).active = some p ↔ (s.thread x).active = some p
  held : ∀ x, (t.thread x).held = some p ↔ (s.thread x).held = some p
  executed : p ∈ t.executed ↔ p ∈ s.executed
  unstealable : p ∈ t.unstealable ↔ p ∈ s.unstealable
  fresh : s.fresh ≤ t.fresh

theorem Frame.dispatched (h : Frame s t p) (x : SchedId) : t.Dispatched x p ↔ s.Dispatched x p := by
  unfold Pool.Dispatched
  rw [h.active, h.held]

theorem Sound.frame (h : Sound s p l) (hf : Frame s t p) : Sound t p l where
  count k hk := by rw [hf.count, h.count k hk]
  scheduler := by simpa only [hf.heap, hf.dispatched] using h.scheduler
  held := by simpa only [hf.heap, hf.held] using h.held
  finished := by simpa only [hf.heap] using h.finished
  cleared := by simpa only [hf.heap, hf.dispatched] using h.cleared
  moving := by simpa only [hf.heap, hf.dispatched] using h.moving
  pinned := by simpa only [hf.heap, hf.unstealable] using h.pinned
  shared := by simpa only [hf.heap, hf.executed] using h.shared
  known hle := by
    simpa only [hf.dispatched, hf.executed, hf.unstealable] using
      h.known (Nat.le_trans hf.fresh hle)

/-- A task has one location. -/
theorem Sound.loc_eq (h : Sound s p l) {k : Loc} (hk : k ≠ .none) (hpos : 0 < s.count p k) :
    l = k := by
  by_contra hne
  rw [h.count k hk, if_neg hne] at hpos
  exact Nat.lt_irrefl 0 hpos

theorem Sound.loc_eq_none (h : Sound s p l) (hfree : ∀ k, s.count p k = 0) : l = .none := by
  by_contra hl
  have := h.count l hl
  simp [hfree] at this

section Updates

theorem setThread_apply (s : Pool) (x : SchedId) (th : Thread) (y : SchedId) :
    (s.setThread x th).thread y = if y = x then th else s.thread y := by
  simp [Function.update_apply]

/-- A thread moves on with the same active task and nothing else in its hands. -/
theorem setThread_same {th : Thread} (hact : th.active = (s.thread x).active)
    (hheld : th.held = (s.thread x).held) (y : SchedId) :
    ((s.setThread x th).thread y).active = (s.thread y).active ∧
      ((s.setThread x th).thread y).held = (s.thread y).held := by
  rw [setThread_apply]
  split
  · rename_i hy
    subst hy
    exact ⟨hact, hheld⟩
  · exact ⟨rfl, rfl⟩

theorem count_setThread {th : Thread} (hlimbo : th.limbo = (s.thread x).limbo) (q : Ptr) (k : Loc) :
    (s.setThread x th).count q k = s.count q k := by
  cases k <;> simp only [Pool.count, Pool.setThread_thread, Function.update_apply] <;>
    grind [Pool.setThread]

/-- A thread moves on and carries the same tasks to other schedulers as before. What it works
for from then on was its own already, or is ready to be dispatched on it. -/
theorem Owned.setThread (h : Owned s) {th : Thread} (hlimbo : th.limbo = (s.thread x).limbo)
    (hdisp : ∀ q l, Sound s q l → th.active = some q ∨ th.held = some q → s.Dispatched x q ∨
      (s.heap q).scheduler = x ∧ (x ≠ .rib → (s.heap q).isStealable = false) ∧
        (∀ y, l ≠ .limbo y) ∧ q < s.fresh)
    (hheld : ∀ q l, Sound s q l → th.held = some q →
      l = .none ∧ (s.heap q).status ≠ .finished) : Owned (s.setThread x th) := by
  intro q
  obtain ⟨l, hq⟩ := h q
  have hd := hdisp q l hq
  have hh := hheld q l hq
  have hth := setThread_apply s x th
  have hdisp' (y : SchedId) (hy : (s.setThread x th).Dispatched y q) : s.Dispatched y q ∨
      (s.heap q).scheduler = y ∧ (y ≠ .rib → (s.heap q).isStealable = false) ∧
        (∀ y, l ≠ .limbo y) ∧ q < s.fresh := by
    rw [Pool.Dispatched, hth] at hy
    split at hy
    · rename_i hyx
      exact hyx ▸ hd hy
    · exact .inl hy
  refine ⟨l, fun k hk => by rw [count_setThread hlimbo, hq.count k hk], ?_, ?_, hq.finished, ?_,
    ?_, hq.pinned, hq.shared, ?_⟩
  · intro y hy
    rcases hy with hy | hy | hy
    · exact hq.scheduler y (.inl hy)
    · exact hq.scheduler y (.inr (.inl hy))
    · exact (hdisp' y hy).elim (fun hy => hq.scheduler y (.inr (.inr hy))) fun hy => hy.1
  · intro y hy
    rw [hth] at hy
    split at hy
    · exact hh hy
    · exact hq.held y hy
  · intro i hi
    exact (hdisp' _ hi).elim (hq.cleared i) fun hi => hi.2.1 (by simp)
  · intro y hy
    exact ⟨(hq.moving y hy).1, fun z hz => (hdisp' z hz).elim ((hq.moving y hy).2 z) fun hz =>
      hz.2.2.1 y hy⟩
  · intro hlt
    obtain ⟨h₁, h₂, h₃⟩ := hq.known hlt
    exact ⟨h₁, fun y hy => (hdisp' y hy).elim (h₂ y) fun hy => Nat.not_lt.mpr hlt hy.2.2.2, h₃⟩

/-- Only the counters change, and the record of where tasks have finished. -/
theorem Owned.of_sizes (h : Owned s) (f : Nat → Nat) (g : Ptr → Option SchedId) :
    Owned { s with sizeOfQueue := f, finishedOn := g } := by
  intro q
  obtain ⟨l, hq⟩ := h q
  refine ⟨l, hq.frame ⟨rfl, ?_, fun _ => Iff.rfl, fun _ => Iff.rfl, Iff.rfl, Iff.rfl,
    Nat.le_refl _⟩⟩
  rintro (_ | _) <;> rfl

/-- Task `p` goes from one location to another; nothing else about it changes, nor anything
about other tasks. -/
theorem Owned.move (h : Owned s) {l m : Loc} (hp : Sound s p l)
    (hframe : ∀ q, q ≠ p → Frame s t q) (hheap : t.heap p = s.heap p)
    (hthread : ∀ x, (t.thread x).active = (s.thread x).active ∧
      (t.thread x).held = (s.thread x).held)
    (hexec : p ∈ t.executed ↔ p ∈ s.executed) (hpin : p ∈ t.unstealable ↔ p ∈ s.unstealable)
    (hfresh : t.fresh = s.fresh)
    (hcount : ∀ k, k ≠ .none → t.count p k = if m = k then 1 else 0)
    (hready : ∀ x, m = .ready x ∨ m = .waking x → (s.heap p).scheduler = x)
    (hlinked : m ≠ .none → (s.heap p).status ≠ .finished ∧ p < s.fresh ∧
      ∀ x, (s.thread x).held ≠ some p)
    (hlimbo : ∀ x, m = .limbo x → l = .limbo x) : Owned t := by
  intro q
  by_cases hqp : q = p
  · subst hqp
    have hd (y : SchedId) : t.Dispatched y q ↔ s.Dispatched y q := by
      simp [Pool.Dispatched, hthread]
    obtain ⟨-, h₁, h₂, h₃, h₄, h₅, h₆, h₇, h₈⟩ := hp
    refine ⟨m, hcount, ?_, ?_, ?_, ?_, ?_, ?_, ?_, ?_⟩ <;>
      simp only [hheap, hd, hexec, hpin, hfresh, hthread] <;> grind
  · obtain ⟨l, hq⟩ := h q
    exact ⟨l, hq.frame (hframe q hqp)⟩

theorem frame_setReady {ls : List Ptr} (hq : ls.count q = (s.isReady x).count q) :
    Frame s (s.setReady x ls) q := by
  refine ⟨rfl, ?_, fun _ => Iff.rfl, fun _ => Iff.rfl, Iff.rfl, Iff.rfl, Nat.le_refl _⟩
  rintro (_ | y | _ | _ | _)
  case ready =>
    simp only [Pool.count, Pool.setReady_isReady, Function.update_apply]
    split
    · rename_i hy
      rw [hq, hy]
    · rfl
  all_goals rfl

theorem count_unlink (hp : Sound s p (.ready x)) {ls : List Ptr}
    (hl : (s.isReady x).Perm (p :: ls)) (k : Loc) : (s.setReady x ls).count p k = 0 := by
  have hone := hp.count (.ready x) (by simp)
  have hcount := hl.count_eq p
  rcases k with _ | y | y | _ | y
  case none => rfl
  case ready =>
    have hy := hp.count (.ready y) (by simp)
    simp only [Pool.count, Pool.setReady_isReady, Function.update_apply] at *
    grind
  case limbo => exact (hp.count (.limbo y) (by simp)).trans (by simp)
  case blocked => exact (hp.count .blocked (by simp)).trans (by simp)
  case waking => exact (hp.count (.waking y) (by simp)).trans (by simp)

/-- A task leaves the queue it is linked in. -/
theorem Owned.unlink (h : Owned s) (hp : Sound s p (.ready x)) {ls : List Ptr}
    (hl : (s.isReady x).Perm (p :: ls)) : Owned (s.setReady x ls) := by
  refine h.move (m := .none) hp (fun q hq => frame_setReady ?_) rfl (fun _ => ⟨rfl, rfl⟩) Iff.rfl
    Iff.rfl rfl ?_ (by simp) (by simp) (by simp)
  · rw [hl.count_eq, List.count_cons_of_ne (Ne.symm hq)]
  · intro k hk
    rw [count_unlink hp hl, if_neg hk.symm]

/-- A task that is linked nowhere is linked in the queue of its scheduler. -/
theorem Owned.link (h : Owned s) (hp : Sound s p .none) {ls : List Ptr}
    (hl : ls.Perm (p :: s.isReady x)) (hx : (s.heap p).scheduler = x)
    (hfin : (s.heap p).status ≠ .finished) (hheld : ∀ y, (s.thread y).held ≠ some p)
    (hlt : p < s.fresh) : Owned (s.setReady x ls) := by
  have hcount (q : Ptr) : ls.count q = (s.isReady x).count q + if q = p then 1 else 0 := by
    rw [hl.count_eq, List.count_cons]
    grind
  refine h.move (m := .ready x) hp (fun q hq => frame_setReady ?_) rfl (fun _ => ⟨rfl, rfl⟩)
    Iff.rfl Iff.rfl rfl ?_ (by simp [hx]) (fun _ => ⟨hfin, hlt, hheld⟩) (by simp)
  · simp [hcount, hq]
  · intro k hk
    have := hp.count k hk
    have hpx := hcount p
    cases k <;> simp_all [Pool.count, Function.update_apply]
    grind

/-- A write to the object of a task that leaves it with its scheduler. -/
theorem Owned.write (h : Owned s) {f : TaskInterface → TaskInterface} (hp : Sound s p l)
    (hkeep : (f (s.heap p)).scheduler = (s.heap p).scheduler ∧
      (f (s.heap p)).stack = (s.heap p).stack)
    (hfin : (f (s.heap p)).status = .finished → l = .none ∧ ∀ y, (s.thread y).held ≠ some p)
    (hset : (f (s.heap p)).isStealable = (s.heap p).isStealable ∨
      (f (s.heap p)).isStealable = false ∧ (∀ y, l ≠ .limbo y) ∨
      (f (s.heap p)).isStealable = true ∧ (∀ i, ¬ s.Dispatched (.thief i) p) ∧
        p ∉ s.unstealable ∧ (s.heap p).stack ≠ .sharedCopy) : Owned (s.write p f) := by
  intro q
  have hcount (k : Loc) : (s.write p f).count q k = s.count q k := by cases k <;> rfl
  by_cases hqp : q = p
  · subst hqp
    have hheap : (s.write q f).heap q = f (s.heap q) := Heap.modify_self _ _ _
    have hd (y : SchedId) : (s.write q f).Dispatched y q ↔ s.Dispatched y q := Iff.rfl
    obtain ⟨h₀, h₁, h₂, h₃, h₄, h₅, h₆, h₇, h₈⟩ := hp
    refine ⟨l, fun k hk => by rw [hcount, h₀ k hk], ?_, ?_, ?_, ?_, ?_, ?_, ?_, h₈⟩ <;>
      simp only [hheap, hd, Pool.write_thread, Pool.write_executed, Pool.write_unstealable] <;>
      grind
  · obtain ⟨l, hq⟩ := h q
    exact ⟨l, hq.frame ⟨Heap.modify_of_ne _ _ hqp, hcount, fun _ => Iff.rfl, fun _ => Iff.rfl,
      Iff.rfl, Iff.rfl, Nat.le_refl _⟩⟩

/-- `Steal` of a task that no thread works for and that is linked nowhere. -/
theorem Owned.rehome (h : Owned s) (hp : Sound s p .none)
    (hst : (s.heap p).isStealable = true) (hnd : ∀ y, ¬ s.Dispatched y p)
    (hsh : p ∈ s.executed → (s.heap p).stack ≠ .sharedCopy) (x : SchedId) :
    Owned (s.write p (·.steal x)) := by
  intro q
  have hcount (k : Loc) : (s.write p (·.steal x)).count q k = s.count q k := by cases k <;> rfl
  by_cases hqp : q = p
  · subst hqp
    have hheap : (s.write q (·.steal x)).heap q = { s.heap q with scheduler := x } := by
      simp [TaskInterface.steal, hst]
    have hd (y : SchedId) : ¬ (s.write q (·.steal x)).Dispatched y q := hnd y
    refine ⟨.none, fun k hk => by rw [hcount, hp.count k hk], ?_,
      fun y hy => absurd (.inr hy) (hd y), fun _ => rfl, fun i hi => absurd hi (hd _), by simp,
      ?_, ?_, hp.known⟩
    · intro y hy
      simp [hd] at hy
    · intro hpin
      simp [(hp.pinned hpin).2] at hst
    · intro he hs
      rw [hheap] at hs
      exact absurd hs (hsh he)
  · obtain ⟨l, hq⟩ := h q
    exact ⟨l, hq.frame ⟨Heap.modify_of_ne _ _ hqp, hcount, fun _ => Iff.rfl, fun _ => Iff.rfl,
      Iff.rfl, Iff.rfl, Nat.le_refl _⟩⟩

/-- A task is entered. -/
theorem Owned.execute (h : Owned s) (hp : Sound s p l) (hl : ∀ y, l ≠ .limbo y)
    (hstay : (s.heap p).scheduler = .rib ∨ (s.heap p).isStealable = false) (hlt : p < s.fresh) :
    Owned { s with executed := p :: s.executed } := by
  intro q
  have hcount (k : Loc) : Pool.count { s with executed := p :: s.executed } q k = s.count q k := by
    cases k <;> rfl
  by_cases hqp : q = p
  · subst hqp
    refine ⟨l, fun k hk => by rw [hcount, hp.count k hk], hp.scheduler, hp.held, hp.finished,
      hp.cleared, hp.moving, hp.pinned, fun _ _ => ⟨hl, hstay⟩, ?_⟩
    intro hle
    exact absurd hlt (Nat.not_lt.mpr hle)
  · obtain ⟨l, hq⟩ := h q
    exact ⟨l, hq.frame ⟨rfl, hcount, fun _ => Iff.rfl, fun _ => Iff.rfl, by simp [hqp], Iff.rfl,
      Nat.le_refl _⟩⟩

/-- A deleted task is in no queue and in no wait list. -/
theorem Owned.delete (h : Owned s) : Owned (s.delete x p) := by
  obtain ⟨l, hp⟩ := h p
  have hother (q : Ptr) (hq : q ≠ p) : Frame s (s.delete x p) q := by
    refine ⟨rfl, ?_, fun _ => Iff.rfl, fun _ => Iff.rfl, Iff.rfl, Iff.rfl, Nat.le_refl _⟩
    intro k
    cases k <;> simp [Pool.count, Pool.delete, List.count_erase, hq.symm]
  refine h.move (m := match l with | .ready _ | .blocked => .none | l => l) hp hother rfl
    (fun _ => ⟨rfl, rfl⟩) Iff.rfl Iff.rfl rfl ?_ ?_ ?_ ?_
  · intro k hk
    have := hp.count k hk
    cases l <;> cases k <;> simp_all [Pool.count, Pool.delete]
    grind
  · intro y hy
    refine hp.scheduler y ?_
    cases l <;> simp_all
  · intro hl
    have hne : l ≠ .none := by
      rintro rfl
      exact hl rfl
    exact ⟨fun hf => hne (hp.finished hf), Nat.lt_of_not_le fun hle => hne (hp.known hle).1,
      fun y hy => hne (hp.held y hy).1⟩
  · cases l <;> simp

/-- The task that a thread runs waits. -/
theorem Owned.block (h : Owned s) (hp : Sound s p .none) (hfin : (s.heap p).status ≠ .finished)
    (hheld : ∀ y, (s.thread y).held ≠ some p) (hlt : p < s.fresh) :
    Owned { s with blocked := p :: s.blocked } := by
  refine h.move (m := .blocked) hp (fun q hq => ⟨rfl, ?_, fun _ => Iff.rfl, fun _ => Iff.rfl,
    Iff.rfl, Iff.rfl, Nat.le_refl _⟩) rfl (fun _ => ⟨rfl, rfl⟩) Iff.rfl Iff.rfl rfl ?_ (by simp)
    (fun _ => ⟨hfin, hlt, hheld⟩) (by simp)
  · intro k
    cases k <;> simp [Pool.count, hq.symm]
  · intro k hk
    have := hp.count k hk
    cases k <;> simp_all [Pool.count]

/-- A task is taken out of its wait list and its scheduler is read. -/
theorem Owned.wakeRead (h : Owned s) (hp : Sound s p .blocked) :
    Owned { s with
      blocked := s.blocked.erase p, waking := (p, (s.heap p).scheduler) :: s.waking } := by
  refine h.move (m := .waking (s.heap p).scheduler) hp (fun q hq => ⟨rfl, ?_, fun _ => Iff.rfl,
    fun _ => Iff.rfl, Iff.rfl, Iff.rfl, Nat.le_refl _⟩) rfl (fun _ => ⟨rfl, rfl⟩) Iff.rfl Iff.rfl
    rfl ?_ (by simp) ?_ (by simp)
  · intro k
    cases k <;> simp [Pool.count, List.count_erase, hq.symm]
  · intro k hk
    have := hp.count k hk
    cases k <;> simp_all [Pool.count, List.count_cons]
  · intro _
    exact ⟨fun hf => by simpa using hp.finished hf, Nat.lt_of_not_le fun hle => by
      simpa using (hp.known hle).1, fun y hy => by simpa using (hp.held y hy).1⟩

/-- The task that is being woken is with the thread that wakes it. -/
theorem Owned.wakePop (h : Owned s) (hp : Sound s p (.waking x)) :
    Owned { s with waking := s.waking.erase (p, x) } ∧
      ∀ k, Pool.count { s with waking := s.waking.erase (p, x) } p k = 0 := by
  have hfree (k : Loc) : Pool.count { s with waking := s.waking.erase (p, x) } p k = 0 := by
    have hx := hp.count (.waking x) (by simp)
    rcases k with _ | y | y | _ | y
    case none => rfl
    case ready => exact (hp.count (.ready y) (by simp)).trans (by simp)
    case limbo => exact (hp.count (.limbo y) (by simp)).trans (by simp)
    case blocked => exact (hp.count .blocked (by simp)).trans (by simp)
    case waking =>
      have hy := hp.count (.waking y) (by simp)
      simp only [Pool.count, List.count_erase] at *
      grind
  refine ⟨h.move (m := .none) hp (fun q hq => ⟨rfl, ?_, fun _ => Iff.rfl, fun _ => Iff.rfl,
    Iff.rfl, Iff.rfl, Nat.le_refl _⟩) rfl (fun _ => ⟨rfl, rfl⟩) Iff.rfl Iff.rfl rfl
    (fun k hk => by rw [hfree, if_neg hk.symm]) (by simp) (by simp) (by simp), hfree⟩
  intro k
  cases k <;> simp [Pool.count, List.count_erase, hq.symm]

/-- The main thread lets go of a task it took out of its queues. -/
theorem Owned.release (h : Owned s) {a : Option Ptr} {ls : List Ptr}
    (ht : s.thread .rib = .handOver a (p :: ls)) :
    Owned (s.setThread .rib (.handOver a ls)) ∧
      ∀ k, (s.setThread .rib (.handOver a ls)).count p k = 0 := by
  obtain ⟨l, hp⟩ := h p
  obtain rfl : l = .limbo .rib := hp.loc_eq (by simp) (by simp [Pool.count, ht, Thread.limbo])
  have hth := setThread_apply s .rib (.handOver a ls)
  have hsame (y : SchedId) :
      ((s.setThread .rib (.handOver a ls)).thread y).active = (s.thread y).active ∧
        ((s.setThread .rib (.handOver a ls)).thread y).held = (s.thread y).held := by
    refine setThread_same ?_ ?_ y
    · simp [ht, Thread.active]
    · simp [ht, Thread.held]
  have hfree (k : Loc) : (s.setThread .rib (.handOver a ls)).count p k = 0 := by
    have hrib := hp.count (.limbo .rib) (by simp)
    rcases k with _ | y | y | _ | y
    case none => rfl
    case ready => exact (hp.count (.ready y) (by simp)).trans (by simp)
    case limbo =>
      have hy := hp.count (.limbo y) (by simp)
      simp only [Pool.count, hth, ht, Thread.limbo, List.count_cons_self] at hrib hy ⊢
      grind
    case blocked => exact (hp.count .blocked (by simp)).trans (by simp)
    case waking => exact (hp.count (.waking y) (by simp)).trans (by simp)
  refine ⟨h.move (m := .none) hp (fun q hq => ⟨rfl, ?_, fun y => by rw [(hsame y).1],
    fun y => by rw [(hsame y).2], Iff.rfl, Iff.rfl, Nat.le_refl _⟩) rfl hsame Iff.rfl Iff.rfl rfl
    (fun k hk => by rw [hfree, if_neg hk.symm]) (by simp) (by simp) (by simp), hfree⟩
  rintro (_ | _ | y | _ | _)
  case limbo =>
    simp only [Pool.count, hth]
    split
    · rename_i hy
      simp [hy, ht, Thread.limbo, hq.symm]
    · rfl
  all_goals rfl

/-- A new task, with the scheduler it is made for. -/
theorem Owned.alloc (h : Owned s) {o : TaskInterface} {pinned : Bool}
    (hpin : pinned = true → o.scheduler = .rib ∧ o.isStealable = false) :
    Owned (s.alloc o pinned) := by
  intro q
  obtain ⟨l, hq⟩ := h q
  have hcount (k : Loc) : (s.alloc o pinned).count q k = s.count q k := by cases k <;> rfl
  have hheap : (s.alloc o pinned).heap q = if q = s.fresh then o else s.heap q :=
    Heap.modify_apply s.heap s.fresh q fun _ => o
  have hpinned : q ∈ (s.alloc o pinned).unstealable ↔
      q = s.fresh ∧ pinned = true ∨ q ∈ s.unstealable := by
    cases pinned <;> simp [Pool.alloc]
  by_cases hqf : q = s.fresh
  · obtain ⟨rfl, hd, he, hu⟩ := hq.known (Nat.le_of_eq hqf.symm)
    have hd' (y : SchedId) : ¬ (s.alloc o pinned).Dispatched y q := hd y
    have hlt : ¬ s.fresh + 1 ≤ q := by
      rw [hqf]
      exact Nat.not_succ_le_self _
    rw [if_pos hqf] at hheap
    refine ⟨.none, fun k hk => by rw [hcount, hq.count k hk], ?_, ?_, fun _ => rfl, ?_, ?_, ?_, ?_,
      fun hle => absurd hle hlt⟩
    · intro y hy
      simp [hd'] at hy
    · intro y hy
      exact absurd (.inr hy) (hd' y)
    · intro i hi
      exact absurd hi (hd' _)
    · simp
    · intro hp
      simp only [hpinned, hu, or_false] at hp
      rw [hheap]
      exact hpin hp.2
    · intro hx
      exact absurd hx he
  · rw [if_neg hqf] at hheap
    exact ⟨l, hq.frame ⟨hheap, hcount, fun _ => Iff.rfl, fun _ => Iff.rfl, Iff.rfl,
      by simp [hpinned, hqf], Nat.le_succ _⟩⟩

/-- Thread `x` takes stealable tasks out of queue `y` for another scheduler. -/
theorem Owned.take (h : Owned s) {y : SchedId} {a : Option Ptr} {kept taken : List Ptr}
    {th : Thread} (ht : s.thread x = .next a) (hlimbo : th.limbo = taken) (hact : th.active = a)
    (hheld : th.held = none)
    (hcount : ∀ q, kept.count q + taken.count q = (s.isReady y).count q)
    (hok : ∀ q ∈ taken, (s.heap q).isStealable = true ∧ (∀ z, ¬ s.Dispatched z q) ∧
      (q ∈ s.executed → (s.heap q).stack ≠ .sharedCopy)) :
    Owned ((s.setReady y kept).setThread x th) := by
  intro q
  obtain ⟨l, hq⟩ := h q
  have hth (z : SchedId) : ((s.setReady y kept).setThread x th).thread z =
      if z = x then th else s.thread z := setThread_apply _ x th z
  have hsame (z : SchedId) : (((s.setReady y kept).setThread x th).thread z).active =
      (s.thread z).active ∧ (((s.setReady y kept).setThread x th).thread z).held =
      (s.thread z).held := by
    refine setThread_same (s := s.setReady y kept) ?_ ?_ z
    · rw [hact, Pool.setReady_thread, ht]
      rfl
    · rw [hheld, Pool.setReady_thread, ht]
      rfl
  have hd (z : SchedId) : ((s.setReady y kept).setThread x th).Dispatched z q ↔
      s.Dispatched z q := by
    simp only [Pool.Dispatched, hsame]
  have hqc := hcount q
  by_cases hmem : q ∈ taken
  · obtain ⟨hst, hnd, hsh⟩ := hok q hmem
    have hpos : 0 < taken.count q := List.count_pos_iff.mpr hmem
    obtain rfl : l = .ready y := hq.loc_eq (by simp) (by simp only [Pool.count]; omega)
    have hone := hq.count (.ready y) (by simp)
    refine ⟨.limbo x, ?_, ?_, ?_, ?_, ?_, ?_, ?_, ?_, ?_⟩
    · intro k hk
      have := hq.count k hk
      cases k <;> simp_all [Pool.count, Function.update_apply]
      all_goals grind [Thread.limbo]
    · intro z hz
      simp [hd, hnd] at hz
    · intro z hz
      exact absurd ((hd z).mp (.inr hz)) (hnd z)
    · intro hf
      simpa using hq.finished hf
    · intro i hi
      exact absurd ((hd _).mp hi) (hnd _)
    · intro _ _
      exact ⟨hst, fun z hz => hnd z ((hd z).mp hz)⟩
    · exact hq.pinned
    · intro he hs
      exact absurd hs (hsh he)
    · intro hle
      simpa using (hq.known hle).1
  · have hzero : taken.count q = 0 := List.count_eq_zero.mpr hmem
    refine ⟨l, hq.frame ⟨rfl, ?_, fun z => by rw [(hsame z).1], fun z => by rw [(hsame z).2],
      Iff.rfl, Iff.rfl, Nat.le_refl _⟩⟩
    rintro (_ | z | z | _ | _)
    case ready =>
      simp only [Pool.count, Pool.setThread_isReady, Pool.setReady_isReady, Function.update_apply]
      grind
    case limbo =>
      simp only [Pool.count, hth]
      grind [Thread.limbo]
    all_goals rfl

/-- Worker `i` links what it took, as its own. -/
theorem Owned.put (h : Owned s) {i : Nat} {a : Option Ptr} {got ls : List Ptr} {hp : Heap}
    (ht : s.thread (.thief i) = .steal a got)
    (hheap : ∀ q, hp q = if q ∈ got then (s.heap q).steal (.thief i) else s.heap q)
    (hl : ∀ q, ls.count q = got.count q + (s.isReady (.thief i)).count q) :
    Owned (({ s with heap := hp }.setReady (.thief i) ls).setThread (.thief i) (.next a)) := by
  intro q
  obtain ⟨l, hq⟩ := h q
  set t := (({ s with heap := hp }.setReady (.thief i) ls).setThread (.thief i) (.next a)) with hdef
  have hth (z : SchedId) : t.thread z = if z = .thief i then .next a else s.thread z :=
    setThread_apply _ (.thief i) (.next a) z
  have hready (z : SchedId) : t.isReady z = if z = .thief i then ls else s.isReady z := by
    simp [hdef, Function.update_apply]
  have hsame (z : SchedId) : (t.thread z).active = (s.thread z).active ∧
      (t.thread z).held = (s.thread z).held := by
    refine setThread_same (s := { s with heap := hp }.setReady (.thief i) ls) ?_ ?_ z
    · simp [ht, Thread.active]
    · simp [ht, Thread.held]
  have hd (z : SchedId) : t.Dispatched z q ↔ s.Dispatched z q := by
    simp only [Pool.Dispatched, hsame]
  have hhq : t.heap q = if q ∈ got then (s.heap q).steal (.thief i) else s.heap q := hheap q
  have hlq := hl q
  by_cases hmem : q ∈ got
  · obtain rfl : l = .limbo (.thief i) :=
      hq.loc_eq (by simp) (by simpa [Pool.count, ht, Thread.limbo] using hmem)
    obtain ⟨hst, hnd⟩ := hq.moving _ rfl
    have hone : got.count q = 1 := by
      simpa [Pool.count, ht, Thread.limbo] using hq.count (.limbo (.thief i)) (by simp)
    have hobj : t.heap q = { s.heap q with scheduler := .thief i } := by
      simp [hhq, hmem, TaskInterface.steal, hst]
    refine ⟨.ready (.thief i), ?_, ?_, ?_, ?_, ?_, ?_, ?_, ?_, ?_⟩
    · rintro (_ | z | z | _ | z) hk
      case ready =>
        have hz := hq.count (.ready z) hk
        simp only [Pool.count, hready] at hz ⊢
        grind
      case limbo =>
        have hz := hq.count (.limbo z) hk
        simp only [Pool.count, hth] at hz ⊢
        grind [Thread.limbo]
      all_goals exact (hq.count _ hk).trans (by simp)
    · intro z hz
      rw [hobj]
      simpa [hd, hnd] using hz
    · intro z hz
      exact absurd ((hd z).mp (.inr hz)) (hnd z)
    · intro hf
      rw [hobj] at hf
      simpa using hq.finished hf
    · intro j hj
      exact absurd ((hd _).mp hj) (hnd _)
    · simp
    · intro hpin
      simp [(hq.pinned hpin).2] at hst
    · intro he hs
      rw [hobj] at hs
      exact absurd rfl ((hq.shared he hs).1 (.thief i))
    · intro hle
      simpa using (hq.known hle).1
  · rw [if_neg hmem] at hhq
    have hzero : got.count q = 0 := List.count_eq_zero.mpr hmem
    refine ⟨l, hq.frame ⟨hhq, ?_, fun z => by rw [(hsame z).1], fun z => by rw [(hsame z).2],
      Iff.rfl, Iff.rfl, Nat.le_refl _⟩⟩
    rintro (_ | z | z | _ | _)
    case ready =>
      simp only [Pool.count, hready]
      grind
    case limbo =>
      simp only [Pool.count, hth]
      grind [Thread.limbo]
    all_goals rfl

end Updates

end JamSched.Steal
