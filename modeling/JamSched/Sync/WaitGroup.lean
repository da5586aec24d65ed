import JamSched.Sync.Primitives
import JamSched.Machine.Run

/-!
# Wait groups

One `WaitGroup` and any number of tasks that call `Add`, `Done` and `Wait`. A step is one action
under the lock `m`, or the taking or releasing of it. The counter `c` has no initialiser, so a
machine starts with whatever value it is found with.

`balance` is the sum of the arguments of `Add` less the number of calls of `Done`, an integer, and
`low` tells of a task whether the balance was zero or less at some moment of its call.
-/
namespace JamSched.Sync

open Machine

namespace WaitGroup

inductive Op where
  | add (incr : Int)
  | done
  | wait
  deriving DecidableEq, Repr

/-- Where a task stands in a call. -/
inductive Pc where
  | idle
  /-- Before `m` is taken. -/
  | lock (op : Op)
  /-- At the first action under `m`: the change of `c`, or the test of `c > 0` of `Wait`. -/
  | body (op : Op)
  /-- Before the `notify_all` of `Done`. -/
  | notify
  /-- The test of `Wait` came out true, the task enters the wait list next. -/
  | link
  /-- In the wait list, before `m` is released. -/
  | release
  | asleep
  /-- Before `m` is released and the call returns. -/
  | unlock (op : Op)
  deriving DecidableEq, Repr

/-- The task holds `m`. -/
def Pc.holds : Pc → Bool
  | .idle | .lock _ | .asleep => false
  | .body _ | .notify | .link | .release | .unlock _ => true

inductive Label where
  | call (p : Ptr) (op : Op)
  /-- The next action of the task in its call. -/
  | next (p : Ptr)
  deriving DecidableEq, Repr

end WaitGroup

structure WaitGroup where
  m : Option Ptr := none
  c : Int
  waitList : List Ptr := []
  cvStatus : Ptr → CvStatus := fun _ => .zero
  /-- `EnableImmediately` has been called for the sleeping task. -/
  enabled : Ptr → Bool := fun _ => false
  pc : Ptr → WaitGroup.Pc := fun _ => .idle
  balance : Int := 0
  low : Ptr → Bool := fun _ => false

namespace WaitGroup

variable (s : WaitGroup)

def goto (p : Ptr) (pc : Pc) : WaitGroup := { s with pc := Function.update s.pc p pc }

section Goto

variable (p q : Ptr) (pc : Pc)

theorem goto_pc : (s.goto p pc).pc q = if q = p then pc else s.pc q := by
  simp [goto, Function.update_apply]

theorem goto_m : (s.goto p pc).m = s.m := rfl
theorem goto_c : (s.goto p pc).c = s.c := rfl
theorem goto_waitList : (s.goto p pc).waitList = s.waitList := rfl
theorem goto_cvStatus : (s.goto p pc).cvStatus q = s.cvStatus q := rfl
theorem goto_enabled : (s.goto p pc).enabled q = s.enabled q := rfl
theorem goto_balance : (s.goto p pc).balance = s.balance := rfl
theorem goto_low : (s.goto p pc).low q = s.low q := rfl

end Goto

/-- A call begins. -/
def call (p : Ptr) (op : Op) : WaitGroup :=
  { s with low := Function.update s.low p (decide (s.balance ≤ 0)) }.goto p (.lock op)

/-- `c += incr`. -/
def add (incr : Int) : WaitGroup :=
  { s with
    c := int32 (s.c + incr)
    balance := s.balance + incr
    low := fun q => s.low q || decide (s.balance + incr ≤ 0) }

section Add

variable (p : Ptr) (incr : Int)

theorem add_m : (s.add incr).m = s.m := rfl
theorem add_c : (s.add incr).c = int32 (s.c + incr) := rfl
theorem add_waitList : (s.add incr).waitList = s.waitList := rfl
theorem add_cvStatus : (s.add incr).cvStatus p = s.cvStatus p := rfl
theorem add_enabled : (s.add incr).enabled p = s.enabled p := rfl
theorem add_pc : (s.add incr).pc p = s.pc p := rfl
theorem add_balance : (s.add incr).balance = s.balance + incr := rfl
theorem add_low :
    (s.add incr).low p = (s.low p || decide (s.balance + incr ≤ 0)) := rfl

end Add

/-- The first action under `m`. -/
def body (p : Ptr) : Op → WaitGroup
  | .add incr => (s.add incr).goto p (.unlock (.add incr))
  | .done =>
    -- `c--`
    let t := s.add (-1)
    t.goto p (if t.c ≤ 0 then .notify else .unlock .done)
  | .wait => s.goto p (if 0 < s.c then .link else .unlock .wait)

/-- The task enters the wait list. -/
def link (p : Ptr) : WaitGroup :=
  { s with
    waitList := s.waitList ++ [p]
    cvStatus := Function.update s.cvStatus p .zero }

/-- `notify_all` of the condition variable at address `this`. -/
def notifyAll (this : Nat) : WaitGroup :=
  { s with
    waitList := []
    cvStatus := fun q =>
      if q ∈ s.waitList then ((s.cvStatus q).notify this).1 else s.cvStatus q
    enabled := fun q =>
      s.enabled q || decide (q ∈ s.waitList) && ((s.cvStatus q).notify this).2 }

theorem notifyAll_eq (this : Nat) {s : WaitGroup} (h : ∀ q ∈ s.waitList, s.cvStatus q = .zero) :
    s.notifyAll this = { s with
      waitList := []
      enabled := fun q => s.enabled q || decide (q ∈ s.waitList) } := by
  have hstatus : ∀ q, (if q ∈ s.waitList then ((s.cvStatus q).notify this).1
      else s.cvStatus q) = s.cvStatus q := by
    intro q
    split
    · next hq => simp [h q hq, CvStatus.notify]
    · rfl
  have henabled : ∀ q, (s.enabled q || decide (q ∈ s.waitList) &&
      ((s.cvStatus q).notify this).2) = (s.enabled q || decide (q ∈ s.waitList)) := by
    intro q
    by_cases hq : q ∈ s.waitList
    · simp [h q hq, CvStatus.notify]
    · simp [hq]
  simp only [notifyAll, hstatus, henabled]

/-- The machine of a wait group whose condition variable is at address `this`. -/
def step (this : Nat) (s : WaitGroup) : Label → Option WaitGroup
  | .call p op => if s.pc p = .idle then some (s.call p op) else none
  | .next p => match s.pc p with
    | .idle => none
    | .lock op =>
      if s.m = none then some ({ s with m := some p }.goto p (.body op)) else none
    | .body op => some (s.body p op)
    | .notify => some ((s.notifyAll this).goto p (.unlock .done))
    | .link => some ((s.link p).goto p .release)
    | .release => some ({ s with m := none }.goto p .asleep)
    | .asleep =>
      if s.enabled p then
        some ({ s with enabled := Function.update s.enabled p false }.goto p (.lock .wait))
      else none
    | .unlock _ => some ({ s with m := none }.goto p .idle)

/-- A fresh object in memory that held `c`, with any values in the `cvStatus` of the tasks. -/
def initial (c : Int) (cvStatus : Ptr → CvStatus) : WaitGroup := { c, cvStatus }

/-- A task is linked in the wait list at a balance of zero or less only while a `notify_all` is
about to come. -/
def Awake (s : WaitGroup) : Prop :=
  s.balance ≤ 0 → s.waitList ≠ [] → ∃ q, s.pc q = .notify

/-- A task that returns from `Wait` has seen the balance at zero or less during its call, and no
task is left behind at such a balance. -/
structure Ok (s : WaitGroup) : Prop where
  returns : ∀ p, s.pc p = .unlock .wait → s.low p = true
  wakeup : Awake s

/-- What the next action adds to `c`. -/
def Pc.incr : Pc → Option Int
  | .body (.add incr) => some incr
  | .body .done => some (-1)
  | _ => none

/-- What the next action adds to `c` by an `Add`. -/
def Pc.added : Pc → Option Int
  | .body (.add incr) => some incr
  | _ => none

theorem added_eq_some {c : Pc} {incr : Int} (h : c.added = some incr) : c = .body (.add incr) := by
  cases c with
  | body op => cases op <;> simp_all [Pc.added]
  | _ => simp [Pc.added] at h

/-- The counter stays within an `int`. -/
def NoOverflow (s : WaitGroup) : Label → Prop
  | .next p => ∀ n ∈ (s.pc p).incr, -2147483648 ≤ s.c + n ∧ s.c + n < 2147483648
  | .call _ _ => True

/-- No `Add` takes the balance to zero or less while a task is linked in the wait list. -/
def NoSilentAdd (s : WaitGroup) : Label → Prop
  | .next p => ∀ n ∈ (s.pc p).added, s.waitList ≠ [] → 0 < s.balance + n
  | .call _ _ => True

instance (s : WaitGroup) (l : Label) : Decidable (NoOverflow s l) :=
  match l with
  | .next p => inferInstanceAs (Decidable (∀ n ∈ (s.pc p).incr, _))
  | .call _ _ => inferInstanceAs (Decidable True)

instance (s : WaitGroup) (l : Label) : Decidable (NoSilentAdd s l) :=
  match l with
  | .next p => inferInstanceAs (Decidable (∀ n ∈ (s.pc p).added, _))
  | .call _ _ => inferInstanceAs (Decidable True)

/-- What holds in the runs of a wait group whose counter was found to be zero. -/
structure Inv (s : WaitGroup) : Prop where
  counter : s.c = s.balance
  lower : -2147483648 ≤ s.c
  upper : s.c < 2147483648
  holder : ∀ p, (s.pc p).holds = true ↔ s.m = some p
  linking : ∀ p, s.pc p = .link → 0 < s.balance
  linked : ∀ p, p ∈ s.waitList ↔ s.pc p = .release ∨ s.pc p = .asleep ∧ s.enabled p = false
  untimed : ∀ p ∈ s.waitList, s.cvStatus p = .zero
  enabled : ∀ p, s.enabled p = true → s.pc p = .asleep
  low : ∀ p, s.pc p ≠ .idle → s.balance ≤ 0 → s.low p = true
  returns : ∀ p, s.pc p = .unlock .wait → s.low p = true

variable {s} {t : WaitGroup} {this : Nat} {p : Ptr} {l : Label}

theorem inv_initial (cvStatus : Ptr → CvStatus) : Inv (initial 0 cvStatus) := by
  constructor <;> simp [initial, Pc.holds]

section Step

attribute [local grind =] goto_pc goto_m goto_c goto_waitList goto_cvStatus goto_enabled
  goto_balance goto_low add_m add_c add_waitList add_cvStatus add_enabled add_pc add_balance
  add_low Function.update_apply Pc.holds

theorem Inv.mutex_eq (h : Inv s) {c : Pc} (hp : s.pc p = c) (hc : c.holds = true) :
    s.m = some p := (h.holder p).mp (hp ▸ hc)

/-- Only one task stands under the lock. -/
theorem Inv.eq_of_holds (h : Inv s) {q : Ptr} (hp : (s.pc p).holds = true)
    (hq : (s.pc q).holds = true) : p = q := by
  have hm := (h.holder p).mp hp
  have hm' := (h.holder q).mp hq
  exact Option.some.inj (hm.symm.trans hm')

theorem Inv.call (h : Inv s) (hp : s.pc p = .idle) (op : Op) : Inv (s.call p op) := by
  cases h
  constructor <;> grind -ring -linarith -order [WaitGroup.call]

theorem Inv.lock (h : Inv s) {op : Op} (hp : s.pc p = .lock op) (hm : s.m = none) :
    Inv ({ s with m := some p }.goto p (.body op)) := by
  cases h
  constructor <;> grind -ring -linarith -order

theorem Inv.body_add (h : Inv s) {incr : Int} (hp : s.pc p = .body (.add incr))
    (hle : -2147483648 ≤ s.c + incr) (hlt : s.c + incr < 2147483648) :
    Inv (s.body p (.add incr)) := by
  have hcount : int32 (s.c + incr) = s.c + incr := int32_eq hle hlt
  have hm := h.mutex_eq hp rfl
  cases h
  constructor <;> grind -ring -linarith -order [body]

theorem Inv.body_done (h : Inv s) (hp : s.pc p = .body .done) (hle : -2147483648 ≤ s.c + -1) :
    Inv (s.body p .done) := by
  have hcount : int32 (s.c + -1) = s.c - 1 :=
    int32_eq (by omega) (by have := h.upper; omega)
  have hm := h.mutex_eq hp rfl
  cases h
  constructor <;> grind -ring -linarith -order [body]

theorem Inv.body_wait (h : Inv s) (hp : s.pc p = .body .wait) : Inv (s.body p .wait) := by
  have hm := h.mutex_eq hp rfl
  cases h
  constructor <;> grind -ring -linarith -order [body]

theorem Inv.notify (h : Inv s) (hp : s.pc p = .notify) :
    Inv ((s.notifyAll this).goto p (.unlock .done)) := by
  have hm := h.mutex_eq hp rfl
  rw [notifyAll_eq this h.untimed]
  cases h
  constructor <;> grind -ring -linarith -order

theorem Inv.link (h : Inv s) (hp : s.pc p = .link) : Inv ((s.link p).goto p .release) := by
  have hm := h.mutex_eq hp rfl
  have hpos := h.linking p hp
  rw [WaitGroup.link]
  cases h
  constructor <;> grind -ring -linarith -order

theorem Inv.release (h : Inv s) (hp : s.pc p = .release) :
    Inv ({ s with m := none }.goto p .asleep) := by
  have hm := h.mutex_eq hp rfl
  cases h
  constructor <;> grind -ring -linarith -order

theorem Inv.resume (h : Inv s) (hp : s.pc p = .asleep) (he : s.enabled p = true) :
    Inv ({ s with enabled := Function.update s.enabled p false }.goto p (.lock .wait)) := by
  cases h
  constructor <;> grind -ring -linarith -order

theorem Inv.unlock (h : Inv s) {op : Op} (hp : s.pc p = .unlock op) :
    Inv ({ s with m := none }.goto p .idle) := by
  have hm := h.mutex_eq hp rfl
  cases h
  constructor <;> grind -ring -linarith -order

/-- The pending `notify_all` is that of another task. -/
theorem Awake.goto (ha : Awake s) (hp : s.pc p ≠ .notify) {u : WaitGroup} {c : Pc}
    (hpc : u.pc = s.pc) (hb : u.balance = s.balance) (hl : u.waitList = s.waitList) :
    Awake (u.goto p c) := by
  intro hle hne
  rw [goto_balance, hb] at hle
  rw [goto_waitList, hl] at hne
  obtain ⟨q, hq⟩ := ha hle hne
  have hqp : q ≠ p := by
    rintro rfl
    exact hp hq
  exact ⟨q, by rw [goto_pc, if_neg hqp, hpc, hq]⟩

end Step

/-- What the steps of a call do to the two parts of the invariant. -/
theorem Inv.step (h : Inv s) (ha : Awake s) (ho : NoOverflow s l) (hn : NoSilentAdd s l)
    (hs : WaitGroup.step this s l = some t) : Inv t ∧ Awake t := by
  cases l with
  | call p op =>
    simp only [WaitGroup.step, Option.ite_none_right_eq_some, Option.some.injEq] at hs
    obtain ⟨hp, rfl⟩ := hs
    exact ⟨h.call hp op, ha.goto (by simp [hp]) rfl rfl rfl⟩
  | next p =>
    cases hp : s.pc p <;>
      simp only [WaitGroup.step, hp, Option.ite_none_right_eq_some, Option.some.injEq,
        reduceCtorEq] at hs
    case lock op =>
      obtain ⟨hm, rfl⟩ := hs
      exact ⟨h.lock hp hm, ha.goto (by simp [hp]) rfl rfl rfl⟩
    case body op =>
      subst hs
      cases op with
      | add incr =>
        simp only [NoOverflow, NoSilentAdd, hp] at ho hn
        obtain ⟨hlower, hupper⟩ := ho incr rfl
        refine ⟨h.body_add hp hlower hupper, fun hle hne => ?_⟩
        have := hn incr rfl hne
        have hbalance : (s.body p (.add incr)).balance = s.balance + incr := rfl
        omega
      | done =>
        simp only [NoOverflow, hp] at ho
        obtain ⟨hlower, -⟩ := ho (-1) rfl
        refine ⟨h.body_done hp hlower, fun hle hne => ?_⟩
        have hcount : int32 (s.c + -1) = s.c - 1 :=
          int32_eq (by omega) (by have := h.upper; omega)
        have hcounter := h.counter
        -- the test of `Done` sees the balance
        have hlow : (s.add (-1)).c ≤ 0 := by
          have hbalance : (s.body p .done).balance = s.balance + -1 := rfl
          rw [add_c, hcount]
          omega
        exact ⟨p, by simp [body, hlow, goto_pc]⟩
      | wait => exact ⟨h.body_wait hp, ha.goto (by simp [hp]) rfl rfl rfl⟩
    case notify =>
      subst hs
      exact ⟨h.notify hp, fun _ hne => absurd rfl hne⟩
    case link =>
      subst hs
      have := h.linking p hp
      have hbalance : ((s.link p).goto p .release).balance = s.balance := rfl
      exact ⟨h.link hp, fun hle => by omega⟩
    case release =>
      subst hs
      exact ⟨h.release hp, ha.goto (by simp [hp]) rfl rfl rfl⟩
    case asleep =>
      obtain ⟨he, rfl⟩ := hs
      exact ⟨h.resume hp he, ha.goto (by simp [hp]) rfl rfl rfl⟩
    case unlock op =>
      subst hs
      exact ⟨h.unlock hp, ha.goto (by simp [hp]) rfl rfl rfl⟩

/-- After an `Add` that takes the balance to zero or less, the linked tasks are left behind. -/
theorem Inv.not_ok (h : Inv s) (hn : ¬ NoSilentAdd s l)
    (hs : WaitGroup.step this s l = some t) : ¬ Ok t := by
  cases l with
  | call p op => exact absurd trivial hn
  | next p =>
    obtain ⟨incr, hadded, hne, hle⟩ :
        ∃ incr, (s.pc p).added = some incr ∧ s.waitList ≠ [] ∧ s.balance + incr ≤ 0 := by
      simpa [NoSilentAdd] using hn
    have hp := added_eq_some hadded
    simp only [WaitGroup.step, hp, Option.some.injEq] at hs
    subst hs
    intro hok
    obtain ⟨q, hq⟩ := hok.wakeup hle hne
    -- the task that adds holds the lock, so no other one is about to notify
    have hqp : q ≠ p := by
      rintro rfl
      simp [body, goto_pc] at hq
    have hpc : s.pc q = .notify := by simpa [body, goto_pc, hqp, add_pc] using hq
    exact hqp (h.eq_of_holds (by simp [hpc, Pc.holds]) (by simp [hp, Pc.holds]))

/-- The first task waits. -/
def waitRun : List Label := .call 0 .wait :: List.replicate 3 (.next 0)

/-- A counter that was found positive makes the first task wait, though nothing was added. -/
theorem blocked_of_pos {c : Int} (hc : 0 < c) (this : Nat) (cvStatus : Ptr → CvStatus) :
    ∃ s, run (step this) (initial c cvStatus) waitRun = some s ∧ s.balance = 0 ∧
      Along (step this) NoOverflow (initial c cvStatus) waitRun ∧
      Along (step this) NoSilentAdd (initial c cvStatus) waitRun ∧ ¬ Ok s := by
  simp [waitRun, run, step, initial, call, goto, body, link, hc, Along, NoOverflow, NoSilentAdd,
    Pc.incr, Pc.added]
  intro hok
  obtain ⟨q, hq⟩ := hok.wakeup (by simp) (by simp)
  simp only [Function.update_apply] at hq
  split at hq <;> cases hq

/-- The first task adds one and waits. -/
def addRun : List Label :=
  .call 0 (.add 1) :: List.replicate 3 (.next 0) ++ .call 0 .wait :: List.replicate 2 (.next 0)

/-- A counter that was found negative lets a task through while the balance is one. -/
theorem returned_of_neg {c : Int} (hc : c < 0) (hle : -2147483648 ≤ c) (this : Nat)
    (cvStatus : Ptr → CvStatus) :
    ∃ s, run (step this) (initial c cvStatus) addRun = some s ∧
      Along (step this) NoOverflow (initial c cvStatus) addRun ∧
      Along (step this) NoSilentAdd (initial c cvStatus) addRun ∧ ¬ Ok s := by
  have hcount : int32 (c + 1) = c + 1 := int32_eq (by omega) (by omega)
  have hlow : ¬ 0 < c + 1 := by omega
  simp [addRun, run, step, initial, call, goto, body, add, hcount, hlow, Along, NoOverflow,
    NoSilentAdd, Pc.incr, Pc.added]
  refine ⟨by omega, fun hok => ?_⟩
  simpa using hok.returns 0 (by simp)

/-- Of a wait group that was found with the value `c` in its counter: in all runs that keep the
counter within an `int`, every task that returns from `Wait` has seen the balance at zero or less
during its call, and no task stays linked at such a balance without a `notify_all` about to come,
exactly as long as no `Add` takes the balance to zero or less while a task is linked; this is so if
and only if `c` is zero. -/
theorem ok_iff (this : Nat) (cvStatus : Ptr → CvStatus) {c : Int} (hle : -2147483648 ≤ c) :
    (∀ ls s, run (step this) (initial c cvStatus) ls = some s →
      Along (step this) NoOverflow (initial c cvStatus) ls →
      (Always (step this) Ok (initial c cvStatus) ls ↔
        Along (step this) NoSilentAdd (initial c cvStatus) ls)) ↔ c = 0 := by
  constructor
  · intro h
    rcases Int.lt_trichotomy c 0 with hneg | hzero | hpos
    · obtain ⟨s, hr, ho, hn, hnot⟩ := returned_of_neg hneg hle this cvStatus
      exact absurd (((h _ s hr ho).mpr hn).last hr) hnot
    · exact hzero
    · obtain ⟨s, hr, -, ho, hn, hnot⟩ := blocked_of_pos hpos this cvStatus
      exact absurd (((h _ s hr ho).mpr hn).last hr) hnot
  · rintro rfl ls s hr ho
    exact always_iff_along_of_invariant_along (I := fun s => Inv s ∧ Awake s)
      (fun s h => ⟨h.1.returns, h.2⟩) (fun s l t h ho hn hs => h.1.step h.2 ho hn hs)
      (fun s l t h _ hn hs => h.1.not_ok hn hs)
      ⟨inv_initial cvStatus, fun _ hne => absurd rfl hne⟩ ho hr

/-- Task 0 adds two, task 1 waits, and tasks 2 and 3 are done. -/
def doneRun : List Label :=
  [Label.call 0 (.add 2)] ++ List.replicate 3 (.next 0) ++ [.call 1 .wait] ++
    List.replicate 4 (.next 1) ++ [.call 2 .done] ++ List.replicate 3 (.next 2) ++
    [.call 3 .done] ++ List.replicate 4 (.next 3) ++ List.replicate 4 (.next 1)

theorem ok_doneRun : ∃ s, run (step 9) (initial 0 fun _ => .zero) doneRun = some s ∧
    s.pc 1 = .idle ∧ s.balance = 0 ∧
    Always (step 9) Ok (initial 0 fun _ => .zero) doneRun := by
  obtain ⟨s, hr, hpc, hbalance⟩ : ∃ s, run (step 9) (initial 0 fun _ => .zero) doneRun = some s ∧
    s.pc 1 = .idle ∧ s.balance = 0 := run_reaches (by decide)
  have hiff := (ok_iff 9 (fun _ => .zero) (by decide)).mpr rfl doneRun s hr (by decide)
  exact ⟨s, hr, hpc, hbalance, hiff.mpr (by decide)⟩

/-- Task 0 adds one, task 1 waits, and task 0 takes the one back. -/
def takenBackRun : List Label :=
  [Label.call 0 (.add 1)] ++ List.replicate 3 (.next 0) ++ [.call 1 .wait] ++
    List.replicate 4 (.next 1) ++ [.call 0 (.add (-1))] ++ List.replicate 3 (.next 0)

/-- Nobody wakes task 1 in this run; and a fresh object that was found with 7 in its counter lets
the first `Wait` sleep. -/
theorem not_ok_takenBackRun :
    (∃ s, run (step 9) (initial 0 fun _ => .zero) takenBackRun = some s ∧ s.balance = 0 ∧
      s.waitList = [1] ∧ s.m = none ∧ ¬ Ok s) ∧
    ∃ s, run (step 9) (initial 7 fun _ => .zero) waitRun = some s ∧ s.balance = 0 ∧ ¬ Ok s := by
  constructor
  · simp [takenBackRun, run, step, initial, call, goto, body, add, link, int32]
    intro hok
    obtain ⟨q, hq⟩ := hok.wakeup (by decide) (by decide)
    simp only [Function.update_apply] at hq
    split_ifs at hq
  · obtain ⟨s, hr, hbalance, -, -, hnot⟩ := blocked_of_pos (c := 7) (by decide) 9 fun _ => .zero
    exact ⟨s, hr, hbalance, hnot⟩

end WaitGroup

end JamSched.Sync
