import JamSched.Steal.Ownership

/-!
# Every reachable state is sound

Each operation of the threads is put together from the changes whose effect on the locations is
known, and keeps the ownership of tasks. By cases over the steps, and by induction over runs,
it holds in every state that the threads reach.
-/
namespace JamSched.Steal

variable {s t : Pool} {x : SchedId} {p q : Ptr} {l : Loc}

section Apart

/-- No thread switches from a task to itself. -/
def Pool.Apart (s : Pool) : Prop := ∀ x, (s.thread x).Apart

theorem Pool.Apart.setThread (h : s.Apart) {th : Thread} (hth : th.Apart) :
    (s.setThread x th).Apart := by
  intro y
  rw [setThread_apply]
  split
  · exact hth
  · exact h y

theorem Pool.Apart.enter (h : s.Apart) {q : Option Ptr} : (s.enter x q).Apart := by
  cases q with
  | none => exact h.setThread trivial
  | some p =>
    have hrun : (Thread.run p).Apart := trivial
    exact h.setThread hrun

theorem Pool.Apart.returns (h : s.Apart) {a q : Option Ptr} : (s.returns x a q).Apart := by
  unfold Pool.returns
  split
  · exact h.enter
  · rename_i hne
    cases a with
    | none => exact h.setThread trivial
    | some a => exact h.setThread (Ne.symm hne)

theorem Pool.Apart.of_thread (h : s.Apart) (ht : t.thread = s.thread) : t.Apart := by
  intro x
  rw [ht]
  exact h x

theorem Pool.Apart.step (h : s.Apart) {lab : Label} (ht : Step s lab t) : t.Apart := by
  cases ht with
  | pop | pick => exact Pool.Apart.returns (by exact h)
  | quit => exact h.returns
  | start | endKeep | testKeep => exact h.enter
  | endDelete | testDelete => exact Pool.Apart.enter (by exact h)
  | @swap x a q hth =>
    have hx := h x
    rw [hth] at hx
    exact h.setThread hx
  | @endSet x a q i hth =>
    have hx := h x
    rw [hth] at hx
    exact Pool.Apart.setThread (by exact h) hx
  | giveTo | yield =>
    refine Pool.Apart.setThread ?_ trivial
    exact h.of_thread (enable_thread _ _ _ _)
  | cancel | wakeRead => exact h.of_thread rfl
  | wakePush => exact h.of_thread (enable_thread _ _ _ _)
  | create | createFor => exact h.of_thread (push_thread _ _ _ _)
  | _ => exact Pool.Apart.setThread (by exact h) trivial

end Apart

section Operations

/-- Task `p` is linked nowhere and may run on thread `x`. -/
structure Runnable (s : Pool) (x : SchedId) (p : Ptr) : Prop where
  scheduler : (s.heap p).scheduler = x
  cleared : x ≠ .rib → (s.heap p).isStealable = false
  status : (s.heap p).status ≠ .finished
  known : p < s.fresh
  free : ∀ k, s.count p k = 0

theorem Owned.lt_fresh (h : Owned s) (hd : s.Dispatched x p) : p < s.fresh := by
  obtain ⟨l, hp⟩ := h p
  exact Nat.lt_of_not_le fun hle => (hp.known hle).2.1 x hd

theorem Owned.runnable_of_held (h : Owned s) (hp : (s.thread x).held = some p) :
    Runnable s x p := by
  obtain ⟨l, hs⟩ := h p
  obtain ⟨rfl, hst⟩ := hs.held x hp
  refine ⟨hs.scheduler x (.inr (.inr (.inr hp))), ?_, hst, h.lt_fresh (.inr hp), ?_⟩
  · intro hx
    cases x with
    | rib => exact absurd rfl hx
    | thief i => exact hs.cleared i (.inr hp)
  · rintro (_ | _ | _ | _ | _)
    case none => rfl
    all_goals exact (hs.count _ (by simp)).trans (by simp)

theorem Runnable.delete (h : Runnable s x p) (y : SchedId) (q : Ptr) :
    Runnable (s.delete y q) x p := by
  refine ⟨h.scheduler, h.cleared, h.status, h.known, ?_⟩
  intro k
  have hk := h.free k
  cases k <;> simp_all [Pool.count, Pool.delete, List.count_erase]

theorem Owned.enter (h : Owned s) {q : Option Ptr} (hlimbo : (s.thread x).limbo = [])
    (hq : ∀ p ∈ q, Runnable s x p) : Owned (s.enter x q) := by
  cases q with
  | none =>
    exact h.setThread hlimbo.symm (by simp [Thread.active, Thread.held]) (by simp [Thread.held])
  | some p =>
    have hp := hq p rfl
    have hrun : Owned (s.setThread x (.run p)) := by
      refine h.setThread hlimbo.symm ?_ ?_
      · intro p' l hl hp'
        obtain rfl : p = p' := by simpa [Thread.active, Thread.held] using hp'
        exact .inr ⟨hp.scheduler, hp.cleared, by simp [hl.loc_eq_none hp.free], hp.known⟩
      · intro p' l hl hp'
        obtain rfl : p = p' := by simpa [Thread.held] using hp'
        exact ⟨hl.loc_eq_none hp.free, hp.status⟩
    obtain ⟨l, hl⟩ := hrun p
    have hheld : ((s.setThread x (.run p)).thread x).held = some p := by simp [Thread.held]
    refine hrun.execute hl (by simp [(hl.held x hheld).1]) ?_ hp.known
    cases x with
    | rib => exact .inl hp.scheduler
    | thief i => exact .inr (hp.cleared (by simp))

theorem Owned.returns (h : Owned s) {a q : Option Ptr} (ht : s.thread x = .next a)
    (hq : ∀ p ∈ q, Runnable s x p) : Owned (s.returns x a q) := by
  unfold Pool.returns
  split
  · exact h.enter (by simp [ht, Thread.limbo]) hq
  · refine h.setThread (by simp [ht, Thread.limbo]) ?_ ?_
    · intro p l hl hp
      rcases hp with hp | hp
      · exact .inl (.inl (by simpa [ht, Thread.active] using hp))
      · have hr := hq p hp
        exact .inr ⟨hr.scheduler, hr.cleared, by simp [hl.loc_eq_none hr.free], hr.known⟩
    · intro p l hl hp
      have hr := hq p hp
      exact ⟨hl.loc_eq_none hr.free, hr.status⟩

/-- A thread moves on with the tasks it has, or with fewer. -/
theorem Owned.advance (h : Owned s) {old th : Thread} (hth : s.thread x = old)
    (hlimbo : th.limbo = old.limbo)
    (hdisp : ∀ p, th.active = some p ∨ th.held = some p → old.active = some p ∨ old.held = some p)
    (hheld : ∀ p, th.held = some p → old.held = some p) : Owned (s.setThread x th) := by
  subst hth
  exact h.setThread hlimbo (fun p _ _ hp => .inl (hdisp p hp)) fun p l hl hp =>
    hl.held x (hheld p hp)

/-- A task is held only by the thread of its scheduler. -/
theorem Owned.not_held (h : Owned s) (hx : (s.heap p).scheduler = x)
    (hth : (s.thread x).held = none) (y : SchedId) : (s.thread y).held ≠ some p := by
  intro hy
  obtain rfl : x = y := hx.symm.trans (h.runnable_of_held hy).scheduler
  simp [hth] at hy

/-- The task that runs gives up the processor. -/
theorem Owned.giveUpCpu (h : Owned s) (hth : s.thread x = .run p) :
    Owned (s.setThread x (.next (some p))) ∧ Sound (s.setThread x (.next (some p))) p .none ∧
      ∀ y, ((s.setThread x (.next (some p))).thread y).held ≠ some p := by
  have hrun := h.runnable_of_held (p := p) (x := x) (by simp [hth, Thread.held])
  have hnext : Owned (s.setThread x (.next (some p))) :=
    h.advance hth rfl (by simp [Thread.active, Thread.held]) (by simp [Thread.held])
  obtain ⟨l, hl⟩ := hnext p
  obtain rfl := hl.loc_eq_none fun k => by
    rw [count_setThread (by simp [hth, Thread.limbo]), hrun.free]
  exact ⟨hnext, hl, hnext.not_held hrun.scheduler (by simp [Thread.held])⟩

theorem Owned.push (h : Owned s) (hp : Sound s p .none) (hx : (s.heap p).scheduler = x)
    (hfin : (s.heap p).status ≠ .finished) (hheld : ∀ y, (s.thread y).held ≠ some p)
    (hlt : p < s.fresh) (front : Bool) : Owned (s.push x front p) := by
  have hperm : (if front then p :: s.isReady x else s.isReady x ++ [p]).Perm
      (p :: s.isReady x) := by
    cases front
    · exact List.perm_append_singleton _ _
    · exact List.Perm.refl _
  have hlink := h.link hp hperm hx hfin hheld hlt
  cases x with
  | rib => exact hlink
  | thief i => exact hlink.of_sizes _ _

/-- `Enable` of the scheduler of a task. -/
theorem Owned.enable (h : Owned s) (hp : Sound s p .none) (hx : (s.heap p).scheduler = x)
    (hfin : (s.heap p).status ≠ .finished) (hheld : ∀ y, (s.thread y).held ≠ some p)
    (hlt : p < s.fresh) (front : Bool) : Owned (s.enable x front p) := by
  unfold Pool.enable
  split
  · exact h.write hp ⟨rfl, rfl⟩ (by simp) (.inl rfl)
  · have hpush := h.push hp hx hfin hheld hlt front
    obtain ⟨l, hl⟩ := hpush p
    exact hpush.write hl ⟨rfl, rfl⟩ (by simp) (.inl rfl)

theorem enable_setThread (s : Pool) (x y : SchedId) (front : Bool) (p : Ptr) (th : Thread) :
    (s.enable y front p).setThread x th = (s.setThread x th).enable y front p := by
  simp only [Pool.enable, Pool.setThread_heap]
  split
  · rfl
  · cases y <;> rfl

theorem takeStealable_spec (h : Heap) (n : Nat) (ls : List Ptr) :
    (∀ q, (takeStealable h n ls).1.count q + (takeStealable h n ls).2.count q = ls.count q) ∧
      ∀ q ∈ (takeStealable h n ls).2, (h q).isStealable = true := by
  induction ls generalizing n with
  | nil => cases n <;> simp [takeStealable]
  | cons p ls ih =>
    cases n with
    | zero => simp [takeStealable]
    | succ n =>
      unfold takeStealable
      split
      · rename_i hp
        obtain ⟨hc, hs⟩ := ih n
        refine ⟨fun q => ?_, ?_⟩
        · have := hc q
          simp only [List.count_cons]
          omega
        · simpa [hp] using hs
      · obtain ⟨hc, hs⟩ := ih (n + 1)
        refine ⟨fun q => ?_, hs⟩
        have := hc q
        simp only [List.count_cons]
        omega

theorem loot_spec (s : Pool) (j : Nat) :
    (∀ q, (s.loot j).1.count q + (s.loot j).2.count q = (s.isReady (.thief j)).count q) ∧
      ∀ q ∈ (s.loot j).2, (s.heap q).isStealable = true := by
  unfold Pool.loot
  dsimp only
  split
  · obtain ⟨hc, hs⟩ := takeStealable_spec s.heap
      (min (s.stealableCount j) ((s.isReady (.thief j)).length / 2)) (s.isReady (.thief j)).reverse
    refine ⟨fun q => ?_, hs⟩
    simpa using hc q
  · simp

theorem mem_loot (s : Pool) (j : Nat) (q : Ptr) :
    q ∈ (s.loot j).1 ∨ q ∈ (s.loot j).2 ↔ q ∈ s.isReady (.thief j) := by
  have := (loot_spec s j).1 q
  simp only [← List.count_pos_iff]
  omega

theorem loc_ready (hp : Sound s p l) (hmem : p ∈ s.isReady x) : l = .ready x :=
  hp.loc_eq (by simp) (List.count_pos_iff.mpr hmem)

theorem scheduler_of_mem_ready (h : Owned s) (hp : p ∈ s.isReady x) :
    (s.heap p).scheduler = x := by
  obtain ⟨l, hs⟩ := h p
  obtain rfl := loc_ready hs hp
  exact hs.scheduler x (.inl rfl)

/-- What the main scheduler hands over is dispatched nowhere: only the main thread could have
it, and that one has no interactive task active. -/
theorem Owned.not_dispatched_of_collect (h : Owned s) {a : Option Ptr}
    (hth : s.thread .rib = .next a) (hact : ∀ b ∈ a, (s.heap b).taskType ≠ .interactive)
    (hr : p ∈ s.isReady .rib) (hty : (s.heap p).taskType = .interactive) (z : SchedId) :
    ¬ s.Dispatched z p := by
  intro hz
  obtain ⟨l, hs⟩ := h p
  obtain rfl := loc_ready hs hr
  have hx := hs.scheduler .rib (.inl rfl)
  obtain rfl : .rib = z := hx.symm.trans (hs.scheduler z (.inr (.inr hz)))
  rcases hz with hz | hz
  · rw [hth] at hz
    exact hact p hz hty
  · simpa using (hs.held _ hz).1

/-- What a `StealFrom` takes is dispatched nowhere, and is no shared stack that has run. -/
theorem Owned.of_loot (h : Owned s) {j : Nat} (hp : p ∈ (s.loot j).2) :
    (s.heap p).isStealable = true ∧ (∀ z, ¬ s.Dispatched z p) ∧
      (p ∈ s.executed → (s.heap p).stack ≠ .sharedCopy) := by
  obtain ⟨l, hs⟩ := h p
  obtain ⟨hcount, hst⟩ := loot_spec s j
  have hq := hcount p
  have hpos := List.count_pos_iff.mpr hp
  obtain rfl : l = .ready (.thief j) := hs.loc_eq (by simp) (by simp only [Pool.count]; omega)
  have hx := hs.scheduler (.thief j) (.inl rfl)
  refine ⟨hst p hp, ?_, ?_⟩
  · -- A dispatched task is dispatched on the worker in whose queue it is, with the flag cleared.
    intro z hz
    obtain rfl : .thief j = z := hx.symm.trans (hs.scheduler z (.inr (.inr hz)))
    exact absurd (hst p hp) (by simp [hs.cleared j hz])
  · intro he hsh
    have := (hs.shared he hsh).2
    simp [hx, hst p hp] at this

theorem Owned.pop (h : Owned s) {i : Nat} {a : Option Ptr} {ls : List Ptr}
    (hth : s.thread (.thief i) = .next a) (hr : s.isReady (.thief i) = p :: ls) :
    Owned ((((s.setReady (.thief i) ls).subSize i 1).write p
      ({ · with isStealable := false, status := .running })).returns (.thief i) a (some p)) := by
  obtain ⟨l, hp⟩ := h p
  obtain rfl : l = .ready (.thief i) := loc_ready hp (by simp [hr])
  have hlt : p < s.fresh := Nat.lt_of_not_le fun hle => by simpa using (hp.known hle).1
  have hperm : (s.isReady (.thief i)).Perm (p :: ls) := by rw [hr]
  have hun := h.unlink hp hperm
  have hfree := count_unlink hp hperm
  have hsize := hun.of_sizes ((s.setReady (.thief i) ls).subSize i 1).sizeOfQueue s.finishedOn
  obtain ⟨l, hl⟩ := hsize p
  obtain rfl := hl.loc_eq_none fun k => by
    rw [← hfree k]
    cases k <;> rfl
  have hw := hsize.write (f := ({ · with isStealable := false, status := .running })) hl
    ⟨rfl, rfl⟩ (by simp) (.inr (.inl ⟨rfl, by simp⟩))
  refine hw.returns hth ?_
  rintro _ ⟨⟩
  refine ⟨?_, ?_, ?_, hlt, ?_⟩
  · simpa using hp.scheduler _ (.inl rfl)
  · simp
  · simp
  · intro k
    rw [← hfree k]
    cases k <;> rfl

theorem Owned.collect (h : Owned s) {a : Option Ptr} {ls : List Ptr}
    (hth : s.thread .rib = .next a) (hnodup : ls.Nodup)
    (hact : ∀ b ∈ a, (s.heap b).taskType ≠ .interactive)
    (hall : ∀ p ∈ ls, p ∈ s.isReady .rib ∧ (s.heap p).taskType = .interactive ∧
      (s.heap p).isStealable = true ∧ (s.heap p).stack.canSteal = true) :
    Owned ((s.setReady .rib ((s.isReady .rib).filter (· ∉ ls))).setThread .rib
      (.handOver a ls)) := by
  have hlimbo : (Thread.handOver a ls).limbo = ls := rfl
  refine h.take hth hlimbo rfl rfl ?_ ?_
  · intro q
    by_cases hq : q ∈ ls
    · obtain ⟨l, hs⟩ := h q
      obtain rfl := loc_ready hs (hall q hq).1
      have hone : (s.isReady .rib).count q = 1 := by
        simpa [Pool.count] using hs.count (.ready .rib) (by simp)
      have hzero : ((s.isReady .rib).filter (· ∉ ls)).count q = 0 :=
        List.count_eq_zero.mpr (by simp [hq])
      rw [hone, hzero, hnodup.count, if_pos hq]
    · rw [List.count_eq_zero.mpr hq, List.count_filter (by simpa using hq), Nat.add_zero]
  · intro q hq
    obtain ⟨hr, hty, hst, hcan⟩ := hall q hq
    refine ⟨hst, h.not_dispatched_of_collect hth hact hr hty, ?_⟩
    intro _ hsh
    simp [hsh, StackKind.canSteal] at hcan

theorem Owned.pick (h : Owned s) {a : Option Ptr} (hth : s.thread .rib = .next a)
    (hp : p ∈ s.isReady .rib) :
    Owned ((s.setReady .rib ((s.isReady .rib).erase p)).returns .rib a (some p)) := by
  obtain ⟨l, hs⟩ := h p
  obtain rfl := loc_ready hs hp
  have hperm := List.perm_cons_erase hp
  refine (h.unlink hs hperm).returns hth ?_
  rintro _ ⟨⟩
  exact ⟨hs.scheduler _ (.inl rfl), by simp, fun hf => by simpa using hs.finished hf,
    Nat.lt_of_not_le fun hle => by simpa using (hs.known hle).1, count_unlink hs hperm⟩

theorem Owned.giveTo (h : Owned s) {i : Nat} {a : Option Ptr} {ls : List Ptr}
    (hth : s.thread .rib = .handOver a (p :: ls)) :
    Owned (((s.write p (·.steal (.thief i))).enable (.thief i) true p).setThread .rib
      (.handOver a ls)) := by
  obtain ⟨l, hp⟩ := h p
  obtain rfl : l = .limbo .rib := hp.loc_eq (by simp) (by simp [Pool.count, hth, Thread.limbo])
  obtain ⟨hst, hnd⟩ := hp.moving _ rfl
  have hlt : p < s.fresh := Nat.lt_of_not_le fun hle => by simpa using (hp.known hle).1
  have hfin : (s.heap p).status ≠ .finished := fun hf => by simpa using hp.finished hf
  obtain ⟨hrel, hfree⟩ := h.release hth
  have hnd' (y : SchedId) : ¬ (s.setThread .rib (.handOver a ls)).Dispatched y p := by
    intro hy
    refine hnd y ?_
    simp only [Pool.Dispatched, Pool.setThread_thread, Function.update_apply] at hy
    split at hy
    · rename_i hx
      simpa [Pool.Dispatched, hx, hth, Thread.active, Thread.held] using hy
    · exact hy
  obtain ⟨l, hl⟩ := hrel p
  obtain rfl := hl.loc_eq_none hfree
  have hre := hrel.rehome hl hst hnd' (fun he hs => (hp.shared he hs).1 _ rfl) (.thief i)
  obtain ⟨l, hl⟩ := hre p
  obtain rfl := hl.loc_eq_none fun k => by
    rw [← hfree k]
    cases k <;> rfl
  rw [enable_setThread]
  refine hre.enable hl ?_ ?_ (fun y hy => hnd' y (.inr hy)) hlt true
  · simp [TaskInterface.steal, hst]
  · simpa [TaskInterface.steal, hst] using hfin

theorem Owned.endSet (h : Owned s) (hap : s.Apart) {a : Ptr} {q : Option Ptr} {i : Nat}
    (hth : s.thread x = .endSet a q) (hx : (s.heap a).scheduler = .thief i) :
    Owned ((s.write a fun t => if t.stack.canSteal then { t with isStealable := true } else t
      ).setThread x (.endTest a q)) := by
  have hset : Owned (s.setThread x (.endTest a q)) :=
    h.advance hth rfl (by grind [Thread.active, Thread.held]) (by simp [Thread.held])
  have hdisp : s.Dispatched x a := .inl (by simp [hth, Thread.active])
  obtain ⟨l, ha⟩ := hset a
  obtain ⟨l', ha'⟩ := h a
  have hxi : (s.heap a).scheduler = x := ha'.scheduler x (.inr (.inr hdisp))
  have hheld : ((s.setThread x (.endTest a q)).thread x).held ≠ some a := by
    have hne := hap x
    rw [hth] at hne
    simpa [Thread.held, Thread.Apart] using hne
  have hnd (y : SchedId) : ¬ (s.setThread x (.endTest a q)).Dispatched y a := by
    intro hy
    obtain rfl : x = y := hxi.symm.trans (ha.scheduler y (.inr (.inr hy)))
    rcases hy with hy | hy
    · simp [Thread.active] at hy
    · exact hheld hy
  refine hset.write ha ?_ ?_ ?_
  · split <;> exact ⟨rfl, rfl⟩
  · intro hf
    refine ⟨ha.finished ?_, fun y hy => hnd y (.inr hy)⟩
    split at hf <;> exact hf
  · split
    · rename_i hcan
      refine .inr (.inr ⟨rfl, fun i => hnd _, ?_, ?_⟩)
      · intro hpin
        simp [(ha'.pinned hpin).1] at hx
      · intro hsh
        simp [show (s.heap a).stack = .sharedCopy from hsh, StackKind.canSteal] at hcan
    · exact .inl rfl

theorem Owned.wakePush (h : Owned s) (hp : (p, x) ∈ s.waking) :
    Owned ({ s with waking := s.waking.erase (p, x) }.enable x true p) := by
  obtain ⟨l, hs⟩ := h p
  obtain rfl : l = .waking x := hs.loc_eq (by simp) (List.count_pos_iff.mpr hp)
  obtain ⟨hpop, hfree⟩ := h.wakePop hs
  obtain ⟨l, hl⟩ := hpop p
  obtain rfl := hl.loc_eq_none hfree
  refine hpop.enable hl (hs.scheduler x (.inr (.inl rfl))) (fun hf => ?_) (fun y hy => ?_) ?_ true
  · simpa using hs.finished hf
  · simpa using (hs.held y hy).1
  · exact Nat.lt_of_not_le fun hle => by simpa using (hs.known hle).1

theorem Owned.create (h : Owned s) {o : TaskInterface} {pinned : Bool}
    (hpin : pinned = true → o.scheduler = .rib ∧ o.isStealable = false)
    (hst : o.status ≠ .finished) (front : Bool) :
    Owned ((s.alloc o pinned).push o.scheduler front s.fresh) := by
  have halloc := h.alloc hpin
  obtain ⟨l, hl⟩ := halloc s.fresh
  obtain ⟨l', hl'⟩ := h s.fresh
  obtain ⟨rfl, hnd, -⟩ := hl'.known (Nat.le_refl _)
  have hobj : (s.alloc o pinned).heap s.fresh = o := by simp [Pool.alloc]
  obtain rfl := hl.loc_eq_none fun k => by
    rcases k with _ | y | y | _ | y
    case none => rfl
    case ready => exact (hl'.count (.ready y) (by simp)).trans (by simp)
    case limbo => exact (hl'.count (.limbo y) (by simp)).trans (by simp)
    case blocked => exact (hl'.count .blocked (by simp)).trans (by simp)
    case waking => exact (hl'.count (.waking y) (by simp)).trans (by simp)
  exact halloc.push hl (by rw [hobj]) (by rw [hobj]; exact hst) (fun y hy => hnd y (.inr hy))
    (Nat.lt_succ_self _) front

theorem Owned.step (h : Owned s) (hap : s.Apart) {lab : Label} (ht : Step s lab t) : Owned t := by
  cases ht with
  | next hx hth =>
    exact h.advance hth rfl (by simp [Thread.active, Thread.held]) (by simp [Thread.held])
  | pop hth hr => exact h.pop hth hr
  | quit hth => exact h.returns hth (by simp)
  | stealOut hth =>
    have hlimbo {a : Option Ptr} {j : Nat} :
        (Thread.steal a (s.loot j).2).limbo = (s.loot j).2 := rfl
    exact (h.take hth hlimbo rfl rfl (loot_spec s _).1 fun q hq => h.of_loot hq).of_sizes _ _
  | stealIn hth => exact (h.put hth (fun _ => rfl) (by simp)).of_sizes _ _
  | pick hth hp => exact h.pick hth hp
  | collect hth _ hl ha hall => exact h.collect hth hl ha hall
  | giveTo hth => exact h.giveTo hth
  | giveUp hth => exact (h.release hth).1.delete
  | given hth =>
    exact h.advance hth rfl (by simp [Thread.active, Thread.held]) (by simp [Thread.held])
  | cancel => exact h.delete
  | start hth =>
    exact h.enter (by simp [hth, Thread.limbo]) fun p hp =>
      h.runnable_of_held (by rw [hth]; exact hp)
  | swap hth =>
    exact h.advance hth rfl (by simp [Thread.active, Thread.held]) (by simp [Thread.held])
  | endDelete hth | testDelete hth =>
    exact h.delete.enter (by simp [Pool.delete, hth, Thread.limbo]) fun p hp =>
      (h.runnable_of_held (by rw [hth]; exact hp)).delete _ _
  | endKeep hth | testKeep hth =>
    exact h.enter (by simp [hth, Thread.limbo]) fun p hp =>
      h.runnable_of_held (by rw [hth]; exact hp)
  | endSet hth hx => exact h.endSet hap hth hx
  | yield hth =>
    have hrun := h.runnable_of_held (by rw [hth]; rfl)
    obtain ⟨hnext, hl, hheld⟩ := h.giveUpCpu hth
    rw [enable_setThread]
    exact hnext.enable hl rfl hrun.status hheld hrun.known false
  | block hth =>
    have hrun := h.runnable_of_held (by rw [hth]; rfl)
    obtain ⟨hnext, hl, hheld⟩ := h.giveUpCpu hth
    exact hnext.block hl hrun.status hheld hrun.known
  | finish hth =>
    obtain ⟨hnext, hl, hheld⟩ := h.giveUpCpu hth
    exact (hnext.write (f := ({ · with status := .finished, notified := true })) hl ⟨rfl, rfl⟩
      (fun _ => ⟨rfl, hheld⟩) (.inl rfl)).of_sizes _ _
  | @wakeRead p hp =>
    obtain ⟨l, hs⟩ := h p
    obtain rfl : l = .blocked := hs.loc_eq (by simp) (List.count_pos_iff.mpr hp)
    exact h.wakeRead hs
  | wakePush hp => exact h.wakePush hp
  | create => exact h.create (fun hpin => ⟨rfl, (Bool.not_eq_true' _).mp hpin⟩) (by simp) false
  | createFor => exact h.create (by simp) (by simp) _

end Operations

section Home

/-- A write that leaves the scheduler and the stack of every task alone. -/
theorem modify_home (h : Heap) (q : Ptr) {f : TaskInterface → TaskInterface}
    (hf : ∀ o, (f o).stack = o.stack ∧ (f o).scheduler = o.scheduler) :
    (h.modify q f p).stack = (h p).stack ∧ (h.modify q f p).scheduler = (h p).scheduler :=
  ⟨Heap.modify_field (·.stack) h q p f fun o => (hf o).1,
    Heap.modify_field (·.scheduler) h q p f fun o => (hf o).2⟩

/-- Only a task that is being moved gets another scheduler. -/
theorem step_home {lab : Label} (ht : Step s lab t) (hlimbo : ∀ x, p ∉ (s.thread x).limbo)
    (hfresh : p ≠ s.fresh) :
    (t.heap p).stack = (s.heap p).stack ∧ (t.heap p).scheduler = (s.heap p).scheduler := by
  cases ht with
  | pop =>
    rw [returns_heap]
    exact modify_home s.heap _ fun _ => ⟨rfl, rfl⟩
  | quit | pick | start | endKeep | testKeep | endDelete | testDelete => simp
  | @stealIn i a got hth =>
    have hnot : p ∉ got := fun hmem => hlimbo (.thief i) (by simpa [hth, Thread.limbo] using hmem)
    simp [hnot]
  | @giveTo i a q ls hth =>
    have hne : p ≠ q := fun hpq => hlimbo .rib (by simp [hth, Thread.limbo, hpq])
    simp [Heap.modify_of_ne _ _ hne]
  | endSet =>
    rw [Pool.setThread_heap, Pool.write_heap]
    refine modify_home s.heap _ fun o => ?_
    split <;> exact ⟨rfl, rfl⟩
  | finish => exact modify_home s.heap _ fun _ => ⟨rfl, rfl⟩
  | yield | wakePush =>
    simp only [Pool.setThread_heap, enable_heap]
    exact modify_home s.heap _ fun _ => ⟨rfl, rfl⟩
  | create | createFor => simp [Pool.alloc, Heap.modify_of_ne _ _ hfresh]
  | _ => exact ⟨rfl, rfl⟩

end Home

theorem owned_initial (n : Nat) : Owned (initial n) := by
  intro p
  refine ⟨.none, ?_, ?_, ?_, ?_, ?_, ?_, ?_, ?_, ?_⟩ <;>
    simp [initial, Pool.Dispatched, Thread.active, Thread.held]
  intro k hk
  cases k <;> simp [Pool.count, Thread.limbo]
  exact hk rfl

/-- The invariant of all runs. -/
structure Reach (s : Pool) : Prop where
  owned : Owned s
  apart : s.Apart

theorem Reach.initial (n : Nat) : Reach (initial n) := ⟨owned_initial n, fun _ => trivial⟩

theorem Reach.step (h : Reach s) {lab : Label} (ht : Steal.step s lab = some t) : Reach t :=
  ⟨h.owned.step h.apart (step_cases ht), h.apart.step (step_cases ht)⟩

theorem Reach.run (h : Reach s) {ls : List Label} (hr : Machine.run Steal.step s ls = some t) :
    Reach t :=
  Machine.run_invariant (fun _ _ _ hs ht => hs.step ht) h hr

end JamSched.Steal
