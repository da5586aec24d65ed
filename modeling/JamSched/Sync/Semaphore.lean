import JamSched.Sync.Primitives
import JamSched.Machine.Run

/-!
# Semaphores

One `Semaphore<N>` and any number of tasks that call `Signal`, `Wait`, `TryWait` and `GetCount`.
A step is one action under the spin lock `mutex`, or the taking or releasing of it, so the steps
of different calls interleave wherever the lock allows it. `Wait` sleeps on the condition variable
`queue`: it enters the wait list before it releases `mutex`, and takes `mutex` again when it has
been woken, by which time another call may have taken the unit it was woken for.

The wait list is only used under `mutex`, hence the critical sections of its own lock `wListLock`
are single steps. The window between the release of `mutex` and `SwapOut` is part of the sleep.
`count` is an `int`: a larger `N` is converted to it, and `Signal` can run over its end.
-/
namespace JamSched.Sync

open Machine

namespace Semaphore

inductive Op where
  | signal | wait | tryWait | getCount
  deriving DecidableEq, Repr

/-- What a call returns. -/
inductive Result where
  | void
  | bool (b : Bool)
  | int (n : Int)
  deriving DecidableEq, Repr

/-- Where a task stands in a call. -/
inductive Pc where
  | idle
  /-- Before `mutex` is taken. -/
  | lock (op : Op)
  /-- At the first action under `mutex`: the increment of `Signal`, the test of `count > 0` of
  `Wait` and `TryWait`. -/
  | body (op : Op)
  /-- Before the `notify_one` of `Signal`. -/
  | notify
  /-- The test came out true, `count` is decremented next. -/
  | take (result : Result)
  /-- The test of `Wait` came out false, the task enters the wait list next. -/
  | link
  /-- In the wait list, before `li.unlock()`. -/
  | release
  | asleep
  /-- Before `mutex` is released and the call returns. -/
  | unlock (result : Result)
  deriving DecidableEq, Repr

/-- The task holds `mutex`. -/
def Pc.holds : Pc → Bool
  | .idle | .lock _ | .asleep => false
  | .body _ | .notify | .take _ | .link | .release | .unlock _ => true

inductive Label where
  | call (p : Ptr) (op : Op)
  /-- The next action of the task in its call. -/
  | next (p : Ptr)
  deriving DecidableEq, Repr

end Semaphore

structure Semaphore where
  mutex : Option Ptr := none
  count : Int
  waitList : List Ptr := []
  cvStatus : Ptr → CvStatus := fun _ => .zero
  /-- `EnableImmediately` has been called for the sleeping task. -/
  enabled : Ptr → Bool := fun _ => false
  pc : Ptr → Semaphore.Pc := fun _ => .idle
  /-- Increments by `Signal`. -/
  signals : Nat := 0
  /-- Units taken by `Wait` and `TryWait`. -/
  grants : Nat := 0
  /-- The tasks that were notified and have not tested `count > 0` since. -/
  notified : List Ptr := []

namespace Semaphore

variable (s : Semaphore)

def goto (p : Ptr) (pc : Pc) : Semaphore := { s with pc := Function.update s.pc p pc }

section Goto

variable (p q : Ptr) (pc : Pc)

theorem goto_pc : (s.goto p pc).pc q = if q = p then pc else s.pc q := by
  simp [goto, Function.update_apply]

theorem goto_mutex : (s.goto p pc).mutex = s.mutex := rfl
theorem goto_count : (s.goto p pc).count = s.count := rfl
theorem goto_waitList : (s.goto p pc).waitList = s.waitList := rfl
theorem goto_cvStatus : (s.goto p pc).cvStatus q = s.cvStatus q := rfl
theorem goto_enabled : (s.goto p pc).enabled q = s.enabled q := rfl
theorem goto_signals : (s.goto p pc).signals = s.signals := rfl
theorem goto_grants : (s.goto p pc).grants = s.grants := rfl
theorem goto_notified : (s.goto p pc).notified = s.notified := rfl

end Goto

/-- `notify_one` of the condition variable at address `this`. -/
def notifyOne (this : Nat) : Semaphore :=
  match s.waitList with
  | [] => s
  | q :: l =>
    let r := (s.cvStatus q).notify this
    let t := { s with waitList := l, cvStatus := Function.update s.cvStatus q r.1 }
    if r.2 then
      { t with enabled := Function.update s.enabled q true, notified := q :: s.notified }
    else t

theorem notifyOne_cons (this : Nat) {s : Semaphore} {q : Ptr} {l : List Ptr}
    (hl : s.waitList = q :: l) (hq : s.cvStatus q = .zero) :
    s.notifyOne this = { s with
      waitList := l
      enabled := Function.update s.enabled q true
      notified := q :: s.notified } := by
  have hsame : Function.update s.cvStatus q .zero = s.cvStatus := by
    rw [← hq, Function.update_eq_self]
  simp [notifyOne, hl, hq, CvStatus.notify, hsame]

/-- `count -= 1`. -/
def take : Semaphore := { s with count := int32 (s.count - 1), grants := s.grants + 1 }

/-- The task enters the wait list. -/
def link (p : Ptr) : Semaphore :=
  { s with
    waitList := s.waitList ++ [p]
    cvStatus := Function.update s.cvStatus p .zero }

/-- The first action under `mutex`. -/
def body (p : Ptr) : Op → Semaphore
  | .signal => { s with count := int32 (s.count + 1), signals := s.signals + 1 }.goto p .notify
  | .wait =>
    { s with notified := s.notified.erase p }.goto p
      (if 0 < s.count then .take .void else .link)
  | .tryWait => s.goto p (if 0 < s.count then .take (.bool true) else .unlock (.bool false))
  | .getCount => s.goto p (.unlock (.int s.count))

end Semaphore

namespace Semaphore

/-- The machine of a semaphore whose condition variable is at address `this`. -/
def step (this : Nat) (s : Semaphore) : Label → Option Semaphore
  | .call p op => if s.pc p = .idle then some (s.goto p (.lock op)) else none
  | .next p => match s.pc p with
    | .idle => none
    | .lock op =>
      if s.mutex = none then some ({ s with mutex := some p }.goto p (.body op)) else none
    | .body op => some (s.body p op)
    | .notify => some ((s.notifyOne this).goto p (.unlock .void))
    | .take result => some (s.take.goto p (.unlock result))
    | .link => some ((s.link p).goto p .release)
    | .release => some ({ s with mutex := none }.goto p .asleep)
    | .asleep =>
      if s.enabled p then
        some ({ s with enabled := Function.update s.enabled p false }.goto p (.lock .wait))
      else none
    | .unlock _ => some ({ s with mutex := none }.goto p .idle)

/-- `Semaphore<size>`, with any values in the `cvStatus` of the tasks. -/
def initial (size : Nat) (cvStatus : Ptr → CvStatus) : Semaphore :=
  { count := int32 size, cvStatus }

end Semaphore

/-! ## Mutex

A `Mutex` is a `Semaphore<1>`. -/

namespace Mutex

def lock (p : Ptr) : Semaphore.Label := .call p .wait

def tryLock (p : Ptr) : Semaphore.Label := .call p .tryWait

def unlock (p : Ptr) : Semaphore.Label := .call p .signal

end Mutex

/-! ## The invariant -/

namespace Semaphore

/-- A unit that the holder of `mutex` has put into `count` and not yet announced, or has found
there and not yet taken. -/
def Pc.inFlight : Pc → Nat
  | .notify | .take _ => 1
  | .idle | .lock _ | .body _ | .link | .release | .asleep | .unlock _ => 0

def inFlight (s : Semaphore) : Nat := s.mutex.elim 0 fun p => (s.pc p).inFlight

/-- The task has been notified and is on its way to test `count > 0`. -/
def Woken (s : Semaphore) (p : Ptr) : Prop :=
  s.pc p = .asleep ∧ s.enabled p = true ∨ s.pc p = .lock .wait ∨ s.pc p = .body .wait

/-- The increment of a `Signal` stays within an `int`. -/
def NoOverflow (s : Semaphore) : Label → Prop
  | .next p => s.pc p = .body .signal → s.count < 2147483647
  | .call _ _ => True

structure Inv (size : Nat) (s : Semaphore) : Prop where
  balance : s.count + s.grants = size + s.signals
  nonneg : 0 ≤ s.count
  bound : s.count < 2147483648
  holder : ∀ p, (s.pc p).holds = true ↔ s.mutex = some p
  taking : ∀ p result, s.pc p = .take result → 0 < s.count
  linking : ∀ p, s.pc p = .link → s.count = 0
  linked : ∀ p, p ∈ s.waitList ↔ s.pc p = .release ∨ s.pc p = .asleep ∧ s.enabled p = false
  untimed : ∀ p ∈ s.waitList, s.cvStatus p = .zero
  enabled : ∀ p, s.enabled p = true → s.pc p = .asleep ∧ p ∈ s.notified
  woken : ∀ p ∈ s.notified, s.Woken p
  waitList_nodup : s.waitList.Nodup
  notified_nodup : s.notified.Nodup
  wakeup : s.waitList ≠ [] → s.count ≤ s.notified.length + s.inFlight

variable {size this : Nat} {s t : Semaphore} {p : Ptr} {l : Label}

theorem inv_initial (cvStatus : Ptr → CvStatus) (hsize : size < 2 ^ 31) :
    Inv size (initial size cvStatus) := by
  have hcount : int32 size = size := int32_eq (by omega) (by omega)
  constructor <;> simp [initial, hcount, Pc.holds]
  omega

section Step

attribute [local grind =] goto_pc goto_mutex goto_count goto_waitList goto_cvStatus goto_enabled
  goto_signals goto_grants goto_notified Function.update_apply Woken inFlight Pc.holds Pc.inFlight

/-- What makes `c` a place for task `p` when `mutex` is `m` and all else is as it is. -/
structure Fits (s : Semaphore) (m : Option Ptr) (p : Ptr) (c : Pc) : Prop where
  holder : c.holds = true ↔ m = some p
  others : ∀ q, q ≠ p → (m = some q ↔ s.mutex = some q)
  taking : ∀ result, c = .take result → 0 < s.count
  linking : c ≠ .link
  linked : p ∈ s.waitList ↔ c = .release ∨ c = .asleep ∧ s.enabled p = false
  enabled : s.enabled p = true → c = .asleep
  woken : p ∈ s.notified → s.enabled p = true ∨ c = .lock .wait ∨ c = .body .wait
  inFlight : s.inFlight ≤ ({ s with mutex := m }.goto p c).inFlight

/-- A task that goes from place to place leaves the others where they are. -/
theorem Inv.goto {m : Option Ptr} {c : Pc} (h : Inv size s) (hf : s.Fits m p c) :
    Inv size ({ s with mutex := m }.goto p c) where
  balance := h.balance
  nonneg := h.nonneg
  bound := h.bound
  holder q := by
    by_cases hq : q = p
    · rw [hq, goto_pc, if_pos rfl]
      exact hf.holder
    · rw [goto_pc, if_neg hq]
      exact (h.holder q).trans (hf.others q hq).symm
  taking q result := by
    rw [goto_pc]
    split
    · exact hf.taking result
    · exact h.taking q result
  linking q := by
    rw [goto_pc]
    split
    · exact fun hc => absurd hc hf.linking
    · exact h.linking q
  linked q := by
    rw [goto_pc]
    split
    · next hq => exact hq ▸ hf.linked
    · exact h.linked q
  untimed := h.untimed
  enabled q he := by
    rw [goto_pc]
    split
    · next hq => exact ⟨hf.enabled (hq ▸ he), (h.enabled q he).2⟩
    · exact h.enabled q he
  woken q hq := by
    rw [Woken, goto_pc]
    split
    · next hqp =>
      subst hqp
      have henabled := hf.enabled
      exact (hf.woken hq).imp_left fun he => ⟨henabled he, he⟩
    · exact h.woken q hq
  waitList_nodup := h.waitList_nodup
  notified_nodup := h.notified_nodup
  wakeup hl :=
    Int.le_trans (h.wakeup hl) (Int.add_le_add_left (Int.ofNat_le.mpr hf.inFlight) _)

/-- A task that is not asleep is not linked, and nobody has enabled it. -/
theorem Inv.awake (h : Inv size s) {c : Pc} (hp : s.pc p = c) (hr : c ≠ .release)
    (ha : c ≠ .asleep) : p ∉ s.waitList ∧ s.enabled p = false := by
  rw [h.linked p, Bool.eq_false_iff]
  exact ⟨by simp [hp, hr, ha], fun he => ha (hp.symm.trans (h.enabled p he).1)⟩

/-- The notified tasks are asleep or at the beginning of `Wait`. -/
theorem Inv.not_notified (h : Inv size s) {c : Pc} (hp : s.pc p = c) (ha : c ≠ .asleep)
    (hl : c ≠ .lock .wait) (hb : c ≠ .body .wait) : p ∉ s.notified := by
  intro hn
  simpa [Woken, hp, ha, hl, hb] using h.woken p hn

theorem Inv.mutex_eq (h : Inv size s) {c : Pc} (hp : s.pc p = c) (hc : c.holds = true) :
    s.mutex = some p ∧ s.inFlight = c.inFlight := by
  have hm := (h.holder p).mp (hp ▸ hc)
  exact ⟨hm, by rw [inFlight, hm, Option.elim, hp]⟩

theorem Inv.call (h : Inv size s) (hp : s.pc p = .idle) (op : Op) :
    Inv size (s.goto p (.lock op)) := by
  obtain ⟨hl, he⟩ := h.awake hp (by simp) (by simp)
  have hn := h.not_notified hp (by simp) (by simp) (by simp)
  have hm : s.mutex ≠ some p := by simp [← h.holder p, hp, Pc.holds]
  refine h.goto ⟨by simp [Pc.holds, hm], by simp, by simp, by simp, by simp [hl], by simp [he],
    by simp [hn], ?_⟩
  cases hq : s.mutex <;> grind

theorem Inv.lock (h : Inv size s) {op : Op} (hp : s.pc p = .lock op) (hm : s.mutex = none) :
    Inv size ({ s with mutex := some p }.goto p (.body op)) := by
  obtain ⟨hl, he⟩ := h.awake hp (by simp) (by simp)
  have hn : p ∈ s.notified → op = .wait := fun hn => by simpa [Woken, hp] using h.woken p hn
  refine h.goto ⟨by simp [Pc.holds], fun q hq => by simp [hm, hq.symm], by simp, by simp,
    by simp [hl], by simp [he], by simpa using fun hp => .inr (hn hp), ?_⟩
  simp [inFlight, hm]

theorem Inv.body_signal (h : Inv size s) (hp : s.pc p = .body .signal)
    (hlt : s.count < 2147483647) : Inv size (s.body p .signal) := by
  have hcount : int32 (s.count + 1) = s.count + 1 :=
    int32_eq (by have := h.nonneg; omega) (by omega)
  obtain ⟨hm, hf⟩ := h.mutex_eq hp rfl
  -- The unit is in flight until `notify_one` has announced it.
  have hwake : s.waitList ≠ [] → s.count + 1 ≤ s.notified.length + 1 := by
    intro hl
    have hbound := h.wakeup hl
    rw [hf, Pc.inFlight] at hbound
    omega
  cases h
  constructor <;> grind -ring -linarith -order [body]

theorem Inv.body_wait (h : Inv size s) (hp : s.pc p = .body .wait) :
    Inv size (s.body p .wait) := by
  obtain ⟨hm, hf⟩ := h.mutex_eq hp rfl
  -- A woken task that finds a unit carries it on; one that finds none was not needed.
  have hwake : s.waitList ≠ [] → 0 < s.count →
      s.count ≤ (s.notified.erase p).length + 1 := by
    intro hl hpos
    have hbound := h.wakeup hl
    have herase := List.length_erase (a := p) (l := s.notified)
    rw [hf, Pc.inFlight] at hbound
    grind
  cases h
  constructor <;> grind -ring -linarith -order [body]

theorem Inv.body_tryWait (h : Inv size s) (hp : s.pc p = .body .tryWait) :
    Inv size (s.body p .tryWait) := by
  obtain ⟨hl, he⟩ := h.awake hp (by simp) (by simp)
  obtain ⟨hm, hf⟩ := h.mutex_eq hp rfl
  have hn := h.not_notified hp (by simp) (by simp) (by simp)
  refine h.goto ⟨?_, by simp, ?_, ?_, ?_, by simp [he], by simp [hn], by simp [hf, Pc.inFlight]⟩
  all_goals grind

theorem Inv.body_getCount (h : Inv size s) (hp : s.pc p = .body .getCount) :
    Inv size (s.body p .getCount) := by
  obtain ⟨hl, he⟩ := h.awake hp (by simp) (by simp)
  obtain ⟨hm, hf⟩ := h.mutex_eq hp rfl
  have hn := h.not_notified hp (by simp) (by simp) (by simp)
  exact h.goto ⟨by simp [Pc.holds, hm], by simp, by simp, by simp, by simp [hl], by simp [he],
    by simp [hn], by simp [hf, Pc.inFlight]⟩

theorem Inv.take (h : Inv size s) {result : Result} (hp : s.pc p = .take result) :
    Inv size (s.take.goto p (.unlock result)) := by
  have hpos := h.taking p result hp
  have hcount : int32 (s.count - 1) = s.count - 1 :=
    int32_eq (by omega) (by have := h.bound; omega)
  rw [Semaphore.take, hcount]
  cases h
  constructor <;> grind -ring -linarith -order

theorem Inv.notify (h : Inv size s) (hp : s.pc p = .notify) :
    Inv size ((s.notifyOne this).goto p (.unlock .void)) := by
  cases hl : s.waitList with
  | nil =>
    cases h
    constructor <;> grind -ring -linarith -order [notifyOne]
  | cons q l =>
    -- Only untimed waits use this condition variable, so the popped task is enabled.
    have hnotify := notifyOne_cons this hl (h.untimed q (by simp [hl]))
    have hnot : q ∉ s.notified := by
      intro hmem
      have := h.woken q hmem
      have := (h.linked q).mp (by simp [hl])
      grind
    rw [hnotify]
    cases h
    constructor <;> grind -ring -linarith -order

theorem Inv.link (h : Inv size s) (hp : s.pc p = .link) :
    Inv size ((s.link p).goto p .release) := by
  have hzero := h.linking p hp
  have hfree : p ∉ s.waitList := by
    rw [h.linked p]
    simp [hp]
  rw [Semaphore.link]
  cases h
  constructor <;> grind -ring -linarith -order

theorem Inv.release (h : Inv size s) (hp : s.pc p = .release) :
    Inv size ({ s with mutex := none }.goto p .asleep) := by
  obtain ⟨hm, hf⟩ := h.mutex_eq hp rfl
  have hn := h.not_notified hp (by simp) (by simp) (by simp)
  have hl : p ∈ s.waitList := (h.linked p).mpr (.inl hp)
  have he : s.enabled p = false := by
    rw [Bool.eq_false_iff]
    exact fun he => hn (h.enabled p he).2
  exact h.goto ⟨by simp [Pc.holds], fun q hq => by simp [hm, hq.symm], by simp, by simp,
    by simp [hl, he], by simp, by simp [hn], by simp [hf, Pc.inFlight]⟩

theorem Inv.resume (h : Inv size s) (hp : s.pc p = .asleep) (he : s.enabled p = true) :
    Inv size ({ s with enabled := Function.update s.enabled p false }.goto p (.lock .wait)) := by
  cases h
  constructor <;> grind -ring -linarith -order

theorem Inv.unlock (h : Inv size s) {result : Result} (hp : s.pc p = .unlock result) :
    Inv size ({ s with mutex := none }.goto p .idle) := by
  obtain ⟨hl, he⟩ := h.awake hp (by simp) (by simp)
  obtain ⟨hm, hf⟩ := h.mutex_eq hp rfl
  have hn := h.not_notified hp (by simp) (by simp) (by simp)
  exact h.goto ⟨by simp [Pc.holds], fun q hq => by simp [hm, hq.symm], by simp, by simp,
    by simp [hl], by simp [he], by simp [hn], by simp [hf, Pc.inFlight]⟩

end Step

theorem Inv.step (h : Inv size s) (hc : NoOverflow s l) (hs : step this s l = some t) :
    Inv size t := by
  cases l with
  | call p op =>
    simp only [Semaphore.step, Option.ite_none_right_eq_some, Option.some.injEq] at hs
    obtain ⟨hp, rfl⟩ := hs
    exact h.call hp op
  | next p =>
    cases hp : s.pc p <;>
      simp only [Semaphore.step, hp, Option.ite_none_right_eq_some, Option.some.injEq,
        reduceCtorEq] at hs
    case lock op =>
      obtain ⟨hm, rfl⟩ := hs
      exact h.lock hp hm
    case body op =>
      subst hs
      cases op with
      | signal => exact h.body_signal hp (hc hp)
      | wait => exact h.body_wait hp
      | tryWait => exact h.body_tryWait hp
      | getCount => exact h.body_getCount hp
    case notify =>
      subst hs
      exact h.notify hp
    case take result =>
      subst hs
      exact h.take hp
    case link =>
      subst hs
      exact h.link hp
    case release =>
      subst hs
      exact h.release hp
    case asleep =>
      obtain ⟨he, rfl⟩ := hs
      exact h.resume hp he
    case unlock result =>
      subst hs
      exact h.unlock hp

/-- A semaphore whose size and whose count fit into an `int` keeps its count and loses no
wake-up: in every interleaving, the count is the size with the signals and without the grants, and
it is not negative; while a task is linked in the wait list, a unit in `count` is matched by a task
that is on its way to it, or is in the hands of the holder of `mutex`; and a task that sleeps is
linked or has been notified. -/
theorem units_announced (this size : Nat) (cvStatus : Ptr → CvStatus) (ls : List Label)
    (s : Semaphore) (hsize : size < 2 ^ 31)
    (hc : Along (step this) NoOverflow (initial size cvStatus) ls)
    (hr : run (step this) (initial size cvStatus) ls = some s) :
    s.count = size + s.signals - s.grants ∧ 0 ≤ s.count ∧
    (s.waitList ≠ [] → s.count ≤ s.notified.length + s.inFlight) ∧
    (s.mutex = none → s.waitList ≠ [] → s.count ≤ s.notified.length) ∧
    s.notified.Nodup ∧ (∀ p ∈ s.notified, p ∉ s.waitList ∧ s.Woken p) ∧
    ∀ p, s.pc p = .asleep → p ∈ s.waitList ∨ s.enabled p = true ∧ p ∈ s.notified := by
  have h : Inv size s := run_invariant_along (fun _ _ _ h hc hs => h.step hc hs)
    (inv_initial cvStatus hsize) hc hr
  refine ⟨by have := h.balance; omega, h.nonneg, h.wakeup, fun hm hl => ?_, h.notified_nodup,
    fun p hp => ⟨fun hl => ?_, h.woken p hp⟩, fun p hp => ?_⟩
  · simpa [inFlight, hm] using h.wakeup hl
  · have hwoken := h.woken p hp
    have hlinked := (h.linked p).mp hl
    grind [Woken]
  · cases he : s.enabled p with
    | true => exact .inr ⟨rfl, (h.enabled p he).2⟩
    | false => exact .inl ((h.linked p).mpr (.inr ⟨hp, he⟩))

/-- Task 0 holds the mutex, tasks 1 and 3 wait for it, and task 0 gives it back. -/
def handoverRun : List Label :=
  [(0, Mutex.lock 0), (1, Mutex.lock 1), (3, Mutex.lock 3), (0, Mutex.unlock 0)].flatMap
    fun c => c.2 :: List.replicate 4 (.next c.1)

instance (s : Semaphore) (l : Label) : Decidable (NoOverflow s l) :=
  match l with
  | .next _ => inferInstanceAs (Decidable (_ → _))
  | .call _ _ => inferInstanceAs (Decidable True)

theorem units_announced_handoverRun : ∃ s,
    run (step 9) (initial 1 fun _ => .zero) handoverRun = some s ∧ s.waitList = [3] ∧
    s.notified = [1] ∧ s.count = 1 ∧ (s.waitList ≠ [] → s.count ≤ s.notified.length) := by
  have h := units_announced 9 1 (fun _ => .zero) handoverRun _ (by decide) (by decide) rfl
  exact ⟨_, rfl, by decide, by decide, by decide, h.2.2.2.1 (by decide)⟩

/-- A size from `2 ^ 31` on becomes a negative count, and so does the greatest size with one
`Signal`. -/
theorem count_negative_largeSize :
    (initial 2147483648 fun _ => .zero).count = -2147483648 ∧
    ∃ s, run (step 9) (initial 2147483647 fun _ => .zero)
        (.call 0 .signal :: List.replicate 4 (.next 0)) = some s ∧
      s.signals = 1 ∧ s.grants = 0 ∧ s.count = -2147483648 :=
  ⟨by decide, _, rfl, by decide, by decide, by decide⟩

end Semaphore

end JamSched.Sync
