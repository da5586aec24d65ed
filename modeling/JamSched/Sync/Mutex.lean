import JamSched.Sync.Semaphore

/-!
# Mutual exclusion

A `Mutex` whose tasks call `unlock` only when they have it. The mutex changes hands at the decrement
in `lock` and `try_lock`, and at the call of `unlock`.
-/
namespace JamSched.Sync

open Machine

namespace Mutex

/-- A mutex, with what its tasks have of it as history. -/
structure Held where
  s : Semaphore
  /-- Tasks that have the mutex. -/
  owners : List Ptr := []
  /-- Tasks in `unlock`, before the increment. -/
  releasing : List Ptr := []

namespace Held

def step (this : Nat) (x : Held) : Semaphore.Label → Option Held
  | .call p .signal =>
    if p ∈ x.owners then
      (Semaphore.step this x.s (unlock p)).map fun s => { x with
        s
        owners := x.owners.erase p
        releasing := p :: x.releasing }
    else none
  | .call p .wait => (Semaphore.step this x.s (lock p)).map fun s => { x with s }
  | .call p .tryWait => (Semaphore.step this x.s (tryLock p)).map fun s => { x with s }
  | .call _ .getCount => none
  | .next p =>
    (Semaphore.step this x.s (.next p)).map fun s =>
      match x.s.pc p with
      | .take _ => { x with s, owners := p :: x.owners }
      | .body .signal => { x with s, releasing := x.releasing.erase p }
      | _ => { x with s }

structure Inv (x : Held) : Prop where
  sem : x.s.Inv 1
  balance : x.s.count + x.owners.length + x.releasing.length = 1
  releasing : ∀ p, p ∈ x.releasing ↔ x.s.pc p = .lock .signal ∨ x.s.pc p = .body .signal

variable {this : Nat} {x y : Held} {l : Semaphore.Label} {p : Ptr}

theorem inv_initial (cvStatus : Ptr → CvStatus) : Inv { s := Semaphore.initial 1 cvStatus } where
  sem := Semaphore.inv_initial cvStatus (by decide)
  balance := rfl
  releasing p := by simp [Semaphore.initial]

theorem Inv.noOverflow (h : Inv x) (l : Semaphore.Label) : x.s.NoOverflow l := by
  have hbalance := h.balance
  cases l with
  | call p op => trivial
  | next p =>
    intro _
    omega

/-- A call of `unlock`, up to the increment. -/
def Releases (c : Semaphore.Pc) : Prop := c = .lock .signal ∨ c = .body .signal

/-- The task at `p` goes on and leaves the count as it is. -/
theorem Inv.goto (h : Inv x) {s : Semaphore} {c : Semaphore.Pc} (hs : s.Inv 1)
    (hcount : s.count = x.s.count) (hpc : s.pc = Function.update x.s.pc p c)
    (hc : Releases c ↔ Releases (x.s.pc p)) : Inv { x with s } where
  sem := hs
  balance := by
    rw [hcount]
    exact h.balance
  releasing q := by
    rw [hpc, Function.update_apply]
    split
    · next hq =>
      rw [hq]
      exact (h.releasing p).trans hc.symm
    · exact h.releasing q

theorem Inv.take (h : Inv x) {result : Semaphore.Result} (hp : x.s.pc p = .take result) :
    Inv { x with s := x.s.take.goto p (.unlock result), owners := p :: x.owners } where
  sem := h.sem.take hp
  balance := by
    have hbalance := h.balance
    have hpos := h.sem.taking p result hp
    have hcount : int32 (x.s.count - 1) = x.s.count - 1 := int32_eq (by omega) (by omega)
    simp only [Semaphore.goto_count, Semaphore.take, hcount, List.length_cons]
    omega
  releasing q := by
    have hq := h.releasing q
    rw [Semaphore.goto_pc]
    grind [Semaphore.take]

theorem Inv.signal (h : Inv x) (hp : x.s.pc p = .body .signal) :
    Inv { x with s := x.s.body p .signal, releasing := x.releasing.erase p } := by
  have hbalance := h.balance
  have hnonneg := h.sem.nonneg
  have hmem : p ∈ x.releasing := (h.releasing p).mpr (.inr hp)
  -- Nobody else is there.
  obtain ⟨q, hlist⟩ : ∃ q, x.releasing = [q] := by
    refine List.length_eq_one_iff.mp ?_
    have hpos := List.length_pos_of_mem hmem
    omega
  obtain rfl : p = q := by simpa [hlist] using hmem
  have hcount : int32 (x.s.count + 1) = x.s.count + 1 := int32_eq (by omega) (by omega)
  refine ⟨h.sem.body_signal hp (by omega), ?_, fun q => ?_⟩
  · simp only [Semaphore.body, Semaphore.goto_count, hcount, hlist, List.erase_cons_head,
      List.length_nil]
    simp only [hlist, List.length_singleton] at hbalance
    omega
  · have hq := h.releasing q
    rw [Semaphore.body, Semaphore.goto_pc]
    grind

theorem Inv.call (h : Inv x) {op : Semaphore.Op} {s : Semaphore}
    (hs : Semaphore.step this x.s (.call p op) = some s) :
    x.s.pc p = .idle ∧ s = x.s.goto p (.lock op) ∧ s.Inv 1 := by
  have hinv := h.sem.step (h.noOverflow _) hs
  simp only [Semaphore.step, Option.ite_none_right_eq_some, Option.some.injEq] at hs
  exact ⟨hs.1, hs.2.symm, hinv⟩

/-- The owner calls `unlock`. -/
theorem Inv.unlock (h : Inv x) (hmem : p ∈ x.owners) (hp : x.s.pc p = .idle)
    (hinv : (x.s.goto p (.lock .signal)).Inv 1) :
    Inv { x with
      s := x.s.goto p (.lock .signal)
      owners := x.owners.erase p
      releasing := p :: x.releasing } where
  sem := hinv
  balance := by
    have hbalance := h.balance
    have hlength := List.length_erase_of_mem hmem
    have hpos := List.length_pos_of_mem hmem
    simp only [Semaphore.goto_count, hlength, List.length_cons]
    omega
  releasing q := by
    have hq := h.releasing q
    rw [Semaphore.goto_pc]
    grind

theorem Inv.step (h : Inv x) (hy : x.step this l = some y) : Inv y := by
  cases l with
  | call p op =>
    have hother {s : Semaphore} (hop : op ≠ .signal)
        (hs : Semaphore.step this x.s (.call p op) = some s) : Inv { x with s } := by
      obtain ⟨hp, rfl, hinv⟩ := h.call hs
      exact h.goto (p := p) hinv rfl rfl (by simp [Releases, hp, hop])
    cases op with
    | signal =>
      simp only [Held.step, Option.ite_none_right_eq_some, Option.map_eq_some_iff] at hy
      obtain ⟨hmem, s, hs, rfl⟩ := hy
      obtain ⟨hp, rfl, hinv⟩ := h.call hs
      exact h.unlock hmem hp hinv
    | wait =>
      obtain ⟨s, hs, rfl⟩ := Option.map_eq_some_iff.mp hy
      exact hother (by simp) hs
    | tryWait =>
      obtain ⟨s, hs, rfl⟩ := Option.map_eq_some_iff.mp hy
      exact hother (by simp) hs
    | getCount => cases hy
  | next p =>
    obtain ⟨s, hs, rfl⟩ := Option.map_eq_some_iff.mp hy
    have hinv := h.sem.step (h.noOverflow _) hs
    cases hp : x.s.pc p <;>
      simp only [Semaphore.step, hp, Option.ite_none_right_eq_some, Option.some.injEq,
        reduceCtorEq] at hs
    case take result =>
      subst hs
      exact h.take hp
    case lock op =>
      obtain ⟨-, rfl⟩ := hs
      exact h.goto (p := p) hinv rfl rfl (by simp [Releases, hp])
    case asleep =>
      obtain ⟨-, rfl⟩ := hs
      exact h.goto (p := p) hinv rfl rfl (by simp [Releases, hp])
    all_goals subst hs
    case body op =>
      cases op with
      | signal => exact h.signal hp
      | wait =>
        refine h.goto (p := p) hinv rfl rfl ?_
        split <;> simp [Releases, hp]
      | tryWait =>
        refine h.goto (p := p) hinv rfl rfl ?_
        split <;> simp [Releases, hp]
      | getCount => exact h.goto (p := p) hinv rfl rfl (by simp [Releases, hp])
    case notify =>
      have hnotify : (x.s.notifyOne this).count = x.s.count ∧
          (x.s.notifyOne this).pc = x.s.pc := by
        unfold Semaphore.notifyOne
        grind
      refine h.goto (p := p) (c := .unlock .void) hinv hnotify.1 ?_ (by simp [Releases, hp])
      rw [Semaphore.goto, hnotify.2]
    case link => exact h.goto (p := p) hinv rfl rfl (by simp [Releases, hp])
    case release => exact h.goto (p := p) hinv rfl rfl (by simp [Releases, hp])
    case unlock => exact h.goto (p := p) hinv rfl rfl (by simp [Releases, hp])

/-- If nobody has the mutex and no task can go on in its call, nobody is in a call. -/
theorem Inv.idle (h : Inv x) (hfree : x.owners = [])
    (hs : ∀ p, Semaphore.step this x.s (.next p) = none) (p : Ptr) : x.s.pc p = .idle := by
  have hm : x.s.mutex = none := by
    cases hm : x.s.mutex with
    | none => rfl
    | some q =>
      have hholds := (h.sem.holder q).mpr hm
      have hnext := hs q
      cases hq : x.s.pc q <;> simp [Semaphore.step, hq, Semaphore.Pc.holds] at hholds hnext
  have hpc (q : Ptr) : x.s.pc q = .idle ∨ x.s.pc q = .asleep ∧ x.s.enabled q = false := by
    have hnext := hs q
    cases hq : x.s.pc q <;> simp [Semaphore.step, hq, hm] at hnext ⊢
    exact hnext
  have hreleasing : x.releasing = [] := by
    refine List.eq_nil_iff_forall_not_mem.mpr fun q hq => ?_
    have hq := (h.releasing q).mp hq
    obtain hidle | ⟨hasleep, -⟩ := hpc q <;> simp_all
  have hnotified : x.s.notified = [] := by
    refine List.eq_nil_iff_forall_not_mem.mpr fun q hq => ?_
    have hwoken := h.sem.woken q hq
    obtain hidle | ⟨hasleep, he⟩ := hpc q <;> simp_all [Semaphore.Woken]
  refine (hpc p).resolve_right ?_
  rintro ⟨hasleep, he⟩
  have hlinked : p ∈ x.s.waitList := (h.sem.linked p).mpr (.inr ⟨hasleep, he⟩)
  have hwakeup := h.sem.wakeup (List.ne_nil_of_mem hlinked)
  have hbalance := h.balance
  simp [hnotified, Semaphore.inFlight, hm] at hwakeup
  simp [hfree, hreleasing] at hbalance
  omega

/-- A `Mutex` excludes: however the calls of `lock`, `try_lock` and `unlock` interleave, at most
one task has it, as long as only that task calls `unlock`. And it is handed over: when nobody has
it, there is a task that can go on, or no call is under way. -/
theorem mutual_exclusion (cvStatus : Ptr → CvStatus) {ls : List Semaphore.Label}
    (hr : run (step this) { s := Semaphore.initial 1 cvStatus } ls = some x) :
    x.owners.length ≤ 1 ∧
      (x.owners = [] → (∀ p, Semaphore.step this x.s (.next p) = none) →
        ∀ p, x.s.pc p = .idle) := by
  have h : Inv x := run_invariant (fun _ _ _ h hy => h.step hy) (inv_initial cvStatus) hr
  have hbalance := h.balance
  have hnonneg := h.sem.nonneg
  exact ⟨by omega, fun hfree hs => h.idle hfree hs⟩

/-- Task 1 waits for task 0 and gets the mutex from it. -/
theorem mutual_exclusion_handoverRun : ∃ x : Held,
    run (step 9) { s := Semaphore.initial 1 fun _ => .zero }
      (lock 0 :: List.replicate 4 (.next 0) ++ lock 1 :: List.replicate 4 (.next 1) ++
        unlock 0 :: List.replicate 4 (.next 0) ++ List.replicate 4 (.next 1)) = some x ∧
      x.owners = [1] ∧ x.owners.length ≤ 1 := by
  have hrun : ∃ x : Held, run (step 9) { s := Semaphore.initial 1 fun _ => .zero }
      (lock 0 :: List.replicate 4 (.next 0) ++ lock 1 :: List.replicate 4 (.next 1) ++
        unlock 0 :: List.replicate 4 (.next 0) ++ List.replicate 4 (.next 1)) = some x ∧
      x.owners = [1] := run_reaches (by decide)
  obtain ⟨x, hr, howners⟩ := hrun
  exact ⟨x, hr, howners, (mutual_exclusion _ hr).1⟩

end Held

end Mutex

end JamSched.Sync
