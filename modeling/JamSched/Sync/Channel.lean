import JamSched.Sync.Primitives
import JamSched.Machine.Run

/-!
# Channels

One `Channel` and any number of tasks that push with `>>`, pop with `<<` and call `close`. A step is
one action under the spin lock `mtx`, or the taking or releasing of it. `closed()` is read before
`mtx` is taken, hence an element can be pushed behind `close`. Pushes and pops wait on the same
condition variable `cnd` and wake one task each, whichever it is; `close` wakes one without `mtx`,
and stores `is_closed` afterwards.

The critical sections of `wListLock` are single steps, and the window between the release of `mtx`
and `SwapOut` is part of the sleep.
-/
namespace JamSched.Sync

open Machine

namespace Channel

inductive Op (V : Type) where
  /-- `>>` with its element. -/
  | push (v : V)
  /-- `<<`. -/
  | pop
  deriving DecidableEq, Repr

/-- Where a task stands in a call. -/
inductive Pc (V : Type) where
  | idle
  /-- Before `closed()` is read. -/
  | check (op : Op V)
  /-- Before `mtx` is taken for the first time. -/
  | lock (op : Op V)
  /-- At the test of `>>` in front of its wait. -/
  | full (v : V)
  /-- At the predicate of the wait. -/
  | test (op : Op V)
  /-- The predicate came out false, the task enters the wait list next. -/
  | link (op : Op V)
  /-- In the wait list, before `li.unlock()`. -/
  | release (op : Op V)
  | asleep (op : Op V)
  /-- At the `li.lock()` behind the sleep. -/
  | relock (op : Op V)
  /-- At `push_back`, or at the test and the `pop_front` of `<<`. -/
  | act (op : Op V)
  /-- Before the `notify_one` of `>>` or `<<`. -/
  | notify (op : Op V)
  | unlock
  /-- In `close`, before `notify_one`. -/
  | closing
  /-- In `close`, before `is_closed` is stored. -/
  | store
  deriving DecidableEq, Repr

/-- The task holds `mtx`. -/
def Pc.holds {V : Type} : Pc V → Bool
  | .full _ | .test _ | .link _ | .release _ | .act _ | .notify _ | .unlock => true
  | .idle | .check _ | .lock _ | .asleep _ | .relock _ | .closing | .store => false

inductive Label (V : Type) where
  | call (p : Ptr) (op : Op V)
  | close (p : Ptr)
  /-- The next action of the task in its call. -/
  | next (p : Ptr)
  deriving DecidableEq, Repr

end Channel

structure Channel (V : Type) where
  mtx : Option Ptr := none
  queue : List V := []
  isClosed : Bool := false
  waitList : List Ptr := []
  cvStatus : Ptr → CvStatus := fun _ => .zero
  /-- `EnableImmediately` has been called for the waiting task. -/
  enabled : Ptr → Bool := fun _ => false
  pc : Ptr → Channel.Pc V := fun _ => .idle
  /-- History: the elements pushed and those popped, with the tasks. -/
  pushed : List (Ptr × V) := []
  popped : List (Ptr × V) := []
  /-- History: the tasks that were notified and have not tested their predicate since. -/
  notified : List Ptr := []

namespace Channel

variable {V : Type} (cap this : Nat) (s : Channel V)

def goto (p : Ptr) (pc : Pc V) : Channel V := { s with pc := Function.update s.pc p pc }

section Goto

variable (p q : Ptr) (pc : Pc V)

theorem goto_pc : (s.goto p pc).pc q = if q = p then pc else s.pc q := by
  simp [goto, Function.update_apply]

theorem goto_mtx : (s.goto p pc).mtx = s.mtx := rfl
theorem goto_queue : (s.goto p pc).queue = s.queue := rfl
theorem goto_isClosed : (s.goto p pc).isClosed = s.isClosed := rfl
theorem goto_waitList : (s.goto p pc).waitList = s.waitList := rfl
theorem goto_cvStatus : (s.goto p pc).cvStatus q = s.cvStatus q := rfl
theorem goto_enabled : (s.goto p pc).enabled q = s.enabled q := rfl
theorem goto_pushed : (s.goto p pc).pushed = s.pushed := rfl
theorem goto_popped : (s.goto p pc).popped = s.popped := rfl
theorem goto_notified : (s.goto p pc).notified = s.notified := rfl

end Goto

/-- `notify_one` of the condition variable at address `this`. -/
def notifyOne : Channel V :=
  match s.waitList with
  | [] => s
  | q :: l =>
    let r := (s.cvStatus q).notify this
    let t := { s with waitList := l, cvStatus := Function.update s.cvStatus q r.1 }
    if r.2 then
      { t with enabled := Function.update s.enabled q true, notified := q :: s.notified }
    else t

/-- The task enters the wait list. -/
def link (p : Ptr) : Channel V :=
  { s with
    waitList := s.waitList ++ [p]
    cvStatus := Function.update s.cvStatus p .zero }

/-- The predicate of the wait. -/
def pred : Op V → Bool
  | .push _ => s.queue.length < cap
  | .pop => 0 < s.queue.length || s.isClosed

/-- `push_back`, or `pop_front` if there is an element. -/
def act (p : Ptr) : Op V → Channel V
  | .push v => { s with queue := s.queue ++ [v], pushed := s.pushed ++ [(p, v)] }
  | .pop =>
    match s.queue with
    | [] => s
    | v :: queue => { s with queue, popped := s.popped ++ [(p, v)] }

/-- Behind `closed()`; `>>` throws `ClosedChannel`. -/
def checked : Op V → Pc V
  | .push v => if s.isClosed then .idle else .lock (.push v)
  | .pop => if s.isClosed && s.queue.isEmpty then .idle else .lock .pop

/-- Behind the `lock` of a call. -/
def Op.entry : Op V → Pc V
  | .push v => .full v
  | .pop => .test .pop

/-- The machine of a channel whose condition variable is at address `this`. -/
def step : Label V → Option (Channel V)
  | .call p op =>
    match s.pc p with
    | .idle => some (s.goto p (.check op))
    | _ => none
  | .close p =>
    match s.pc p with
    | .idle => some (s.goto p .closing)
    | _ => none
  | .next p =>
    match s.pc p with
    | .idle => none
    | .check op => some (s.goto p (s.checked op))
    | .lock op => if s.mtx = none then some ({ s with mtx := some p }.goto p op.entry) else none
    | .full v =>
      some (s.goto p (if 0 < cap ∧ s.queue.length = cap then .test (.push v) else .act (.push v)))
    | .test op =>
      some ({ s with notified := s.notified.erase p }.goto p
        (if s.pred cap op then .act op else .link op))
    | .link op => some ((s.link p).goto p (.release op))
    | .release op => some ({ s with mtx := none }.goto p (.asleep op))
    | .asleep op =>
      if s.enabled p then
        some ({ s with enabled := Function.update s.enabled p false }.goto p (.relock op))
      else none
    | .relock op =>
      if s.mtx = none then some ({ s with mtx := some p }.goto p (.test op)) else none
    | .act op => some ((s.act p op).goto p (.notify op))
    | .notify _ => some ((s.notifyOne this).goto p .unlock)
    | .unlock => some ({ s with mtx := none }.goto p .idle)
    | .closing => some ((s.notifyOne this).goto p .store)
    | .store => some ({ s with isClosed := true }.goto p .idle)

/-! ## The invariant -/

/-- The call that waits, from its predicate to `li.lock()`. -/
def Pc.waits : Pc V → Option (Op V)
  | .test op | .link op | .release op | .asleep op | .relock op => some op
  | _ => none

def Pc.sleeps : Pc V → Bool
  | .release _ | .asleep _ => true
  | _ => false

/-- Behind the sleep, up to the predicate. -/
def Pc.resumes : Pc V → Bool
  | .test _ | .relock _ => true
  | _ => false

/-- The call cannot go on with this queue. -/
def Op.Blocked (queue : List V) : Op V → Prop
  | .push _ => queue.length = cap
  | .pop => queue = []

/-- The task has been notified and is on its way to its predicate. -/
def Woken (p : Ptr) : Prop :=
  (s.pc p).sleeps = true ∧ s.enabled p = true ∨ (s.pc p).resumes = true

structure Inv : Prop where
  fifo : s.popped.map Prod.snd ++ s.queue = s.pushed.map Prod.snd
  bound : 0 < cap → s.queue.length ≤ cap
  room : ∀ p v, s.pc p = .act (.push v) → 0 < cap → s.queue.length < cap
  bounded : ∀ p v, (s.pc p).waits = some (.push v) → 0 < cap
  linking : ∀ p op, s.pc p = .link op → op.Blocked cap s.queue
  holder : ∀ p, (s.pc p).holds = true ↔ s.mtx = some p
  linked : ∀ p, p ∈ s.waitList ↔ (s.pc p).sleeps = true ∧ s.enabled p = false
  untimed : ∀ p ∈ s.waitList, s.cvStatus p = .zero
  enabled : ∀ p, s.enabled p = true → (s.pc p).sleeps = true ∧ p ∈ s.notified
  woken : ∀ p ∈ s.notified, s.Woken p
  waitList_nodup : s.waitList.Nodup
  notified_nodup : s.notified.Nodup

variable {cap this s} {t : Channel V} {p : Ptr} {l : Label V} {op : Op V}

theorem inv_initial (cvStatus : Ptr → CvStatus) : Inv cap ({ cvStatus } : Channel V) := by
  constructor <;> simp [Pc.holds, Pc.waits, Pc.sleeps]

theorem Pc.resumes_of_sleeps {c : Pc V} (hc : c.sleeps = true) : c.resumes = false := by
  cases c <;> simp_all [Pc.sleeps, Pc.resumes]

theorem notifyOne_nil (hl : s.waitList = []) : s.notifyOne this = s := by
  simp [notifyOne, hl]

theorem notifyOne_cons {q : Ptr} {w : List Ptr} (hl : s.waitList = q :: w)
    (hq : s.cvStatus q = .zero) : s.notifyOne this = { s with
      waitList := w
      enabled := Function.update s.enabled q true
      notified := q :: s.notified } := by
  have hsame : Function.update s.cvStatus q .zero = s.cvStatus := by
    rw [← hq, Function.update_eq_self]
  simp [notifyOne, hl, hq, CvStatus.notify, hsame]

section Step

attribute [local grind =] goto_pc goto_mtx goto_queue goto_isClosed goto_waitList goto_cvStatus
  goto_enabled goto_pushed goto_popped goto_notified Function.update_apply Woken Pc.holds Pc.waits
  Pc.sleeps Pc.resumes Op.Blocked

theorem Inv.check (h : Inv cap s) (hp : s.pc p = .check op) :
    Inv cap (s.goto p (s.checked op)) := by
  cases h
  cases op <;> constructor <;> grind -ring -linarith -order [checked]

theorem Inv.lock (h : Inv cap s) (hp : s.pc p = .lock op) (hm : s.mtx = none) :
    Inv cap ({ s with mtx := some p }.goto p op.entry) := by
  cases h
  cases op <;> constructor <;> grind -ring -linarith -order [Op.entry]

theorem Inv.full (h : Inv cap s) {v : V} (hp : s.pc p = .full v) :
    Inv cap (s.goto p
      (if 0 < cap ∧ s.queue.length = cap then .test (.push v) else .act (.push v))) := by
  cases h
  split <;> constructor <;> grind -ring -linarith -order

/-- The predicate comes out as it should. -/
theorem Inv.blocked (h : Inv cap s) (hp : s.pc p = .test op) (hb : s.pred cap op = false) :
    op.Blocked cap s.queue := by
  cases op with
  | push v =>
    have hcap := h.bounded p v (by rw [hp]; rfl)
    have hbound := h.bound hcap
    simp only [pred, decide_eq_false_iff_not] at hb
    exact Nat.le_antisymm hbound (Nat.le_of_not_lt hb)
  | pop =>
    simp only [pred, Bool.or_eq_false_iff, decide_eq_false_iff_not, Nat.not_lt,
      Nat.le_zero_eq, List.length_eq_zero_iff] at hb
    exact hb.1

theorem Inv.test (h : Inv cap s) (hp : s.pc p = .test op) :
    Inv cap ({ s with notified := s.notified.erase p }.goto p
      (if s.pred cap op then .act op else .link op)) := by
  have hblocked := h.blocked hp
  cases h
  split
  · cases op <;> constructor <;> grind -ring -linarith -order [pred]
  · constructor <;> grind -ring -linarith -order

theorem Inv.link (h : Inv cap s) (hp : s.pc p = .link op) :
    Inv cap ((s.link p).goto p (.release op)) := by
  rw [Channel.link]
  cases h
  constructor <;> grind -ring -linarith -order

theorem Inv.release (h : Inv cap s) (hp : s.pc p = .release op) :
    Inv cap ({ s with mtx := none }.goto p (.asleep op)) := by
  cases h
  constructor <;> grind -ring -linarith -order

theorem Inv.resume (h : Inv cap s) (hp : s.pc p = .asleep op) (he : s.enabled p = true) :
    Inv cap ({ s with enabled := Function.update s.enabled p false }.goto p (.relock op)) := by
  cases h
  constructor <;> grind -ring -linarith -order

theorem Inv.relock (h : Inv cap s) (hp : s.pc p = .relock op) (hm : s.mtx = none) :
    Inv cap ({ s with mtx := some p }.goto p (.test op)) := by
  cases h
  constructor <;> grind -ring -linarith -order

theorem Inv.push (h : Inv cap s) {v : V} (hp : s.pc p = .act (.push v)) :
    Inv cap ((s.act p (.push v)).goto p (.notify (.push v))) := by
  have hfifo := h.fifo
  rw [Channel.act]
  cases h
  constructor <;> grind -ring -linarith -order

theorem Inv.pop (h : Inv cap s) (hp : s.pc p = .act .pop) :
    Inv cap ((s.act p .pop).goto p (.notify .pop)) := by
  cases hq : s.queue with
  | nil =>
    rw [Channel.act, hq]
    cases h
    constructor <;> grind -ring -linarith -order
  | cons v queue =>
    rw [Channel.act, hq]
    cases h
    constructor <;> grind -ring -linarith -order

theorem Inv.unlock (h : Inv cap s) (hp : s.pc p = .unlock) :
    Inv cap ({ s with mtx := none }.goto p .idle) := by
  cases h
  constructor <;> grind -ring -linarith -order

/-- `notify_one` in front of `unlock` or `store`. -/
theorem Inv.notify (h : Inv cap s) {c c' : Pc V} (hp : s.pc p = c)
    (hc : (∃ op, c = .notify op) ∧ c' = .unlock ∨ c = .closing ∧ c' = .store) :
    Inv cap ((s.notifyOne this).goto p c') := by
  cases hl : s.waitList with
  | nil =>
    rw [notifyOne_nil hl]
    cases h
    constructor <;> grind -ring -linarith -order
  | cons q w =>
    -- Only untimed waits use this condition variable, so the popped task is enabled.
    rw [notifyOne_cons hl (h.untimed q (by simp [hl]))]
    obtain ⟨hsleeps, he⟩ := (h.linked q).mp (by simp [hl])
    have hnew : q ∉ s.notified := by
      intro hmem
      obtain ⟨-, htrue⟩ | hresumes := h.woken q hmem
      · simp [he] at htrue
      · simp [Pc.resumes_of_sleeps hsleeps] at hresumes
    cases h
    constructor <;> grind -ring -linarith -order

theorem Inv.store (h : Inv cap s) (hp : s.pc p = .store) :
    Inv cap ({ s with isClosed := true }.goto p .idle) := by
  cases h
  constructor <;> grind -ring -linarith -order

theorem Inv.begin (h : Inv cap s) (hp : s.pc p = .idle) {c : Pc V}
    (hc : (∃ op, c = .check op) ∨ c = .closing) : Inv cap (s.goto p c) := by
  cases h
  constructor <;> grind -ring -linarith -order

end Step

theorem Inv.step (h : Inv cap s) (ht : step cap this s l = some t) : Inv cap t := by
  cases l with
  | call p op =>
    simp only [Channel.step] at ht
    split at ht
    · next hp =>
      cases ht
      exact h.begin hp (.inl ⟨op, rfl⟩)
    · cases ht
  | close p =>
    simp only [Channel.step] at ht
    split at ht
    · next hp =>
      cases ht
      exact h.begin hp (.inr rfl)
    · cases ht
  | next p =>
    cases hp : s.pc p <;>
      simp only [Channel.step, hp, Option.ite_none_right_eq_some, Option.some.injEq,
        reduceCtorEq] at ht
    case lock op =>
      obtain ⟨hm, rfl⟩ := ht
      exact h.lock hp hm
    case asleep op =>
      obtain ⟨he, rfl⟩ := ht
      exact h.resume hp he
    case relock op =>
      obtain ⟨hm, rfl⟩ := ht
      exact h.relock hp hm
    all_goals subst ht
    case check op => exact h.check hp
    case full v => exact h.full hp
    case test op => exact h.test hp
    case link op => exact h.link hp
    case release op => exact h.release hp
    case act op =>
      cases op with
      | push v => exact h.push hp
      | pop => exact h.pop hp
    case notify op => exact h.notify hp (.inl ⟨⟨op, rfl⟩, rfl⟩)
    case unlock => exact h.unlock hp
    case closing => exact h.notify hp (.inr ⟨rfl, rfl⟩)
    case store => exact h.store hp

/-! ## What the calls of a task push -/

/-- The element that a call has not pushed yet. -/
def Pc.pending : Pc V → List V
  | .check (.push v) | .lock (.push v) | .full v | .test (.push v) | .link (.push v)
  | .release (.push v) | .asleep (.push v) | .relock (.push v) | .act (.push v) => [v]
  | _ => []

/-- The elements that the task has pushed or is about to push. -/
def handed (s : Channel V) (p : Ptr) : List V :=
  (s.pushed.filter fun x => x.1 = p).map Prod.snd ++ (s.pc p).pending

/-- The element of a call of `>>` by this task. -/
def Label.element (p : Ptr) : Label V → List V
  | .call q (.push v) => if q = p then [v] else []
  | _ => []

theorem handed_goto {q : Ptr} {c : Pc V} (hs : t.pc = s.pc) (hpushed : t.pushed = s.pushed)
    (hc : c.pending = (s.pc q).pending) : (t.goto q c).handed p = s.handed p := by
  simp only [handed, goto_pushed, goto_pc, hpushed, hs]
  split
  · next hpq => rw [hc, hpq]
  · rfl

theorem notifyOne_pc : (s.notifyOne this).pc = s.pc := by
  unfold notifyOne
  grind

theorem notifyOne_pushed : (s.notifyOne this).pushed = s.pushed := by
  unfold notifyOne
  grind

theorem handed_push {q : Ptr} {v : V} (hq : s.pc q = .act (.push v)) :
    ((s.act q (.push v)).goto q (.notify (.push v))).handed p = s.handed p := by
  by_cases hpq : p = q
  · subst hpq
    simp [handed, act, goto_pc, goto_pushed, hq, Pc.pending]
  · simp [handed, act, goto_pc, goto_pushed, hpq, Ne.symm hpq]

theorem handed_call {q : Ptr} (hq : s.pc q = .idle) (op : Op V) :
    (s.goto q (.check op)).handed p = s.handed p ++ (Label.call q op).element p := by
  by_cases hpq : p = q
  · subst hpq
    cases op <;> simp [handed, goto_pc, goto_pushed, hq, Pc.pending, Label.element]
  · cases op <;> simp [handed, goto_pc, goto_pushed, hpq, Ne.symm hpq, Label.element]

/-- A call that throws is the only one that drops its element. -/
theorem handed_check {q : Ptr} (hq : s.pc q = .check op) :
    ((s.goto q (s.checked op)).handed p).Sublist (s.handed p) ∧
      (s.isClosed = false → (s.goto q (s.checked op)).handed p = s.handed p) := by
  have hpending (hopen : s.isClosed = false) :
      (s.goto q (s.checked op)).handed p = s.handed p := by
    refine handed_goto rfl rfl ?_
    cases op <;> simp [checked, hopen, hq, Pc.pending]
  cases hopen : s.isClosed with
  | false => exact ⟨hpending hopen ▸ List.Sublist.refl _, fun _ => hpending hopen⟩
  | true =>
    refine ⟨?_, fun hfalse => by cases hfalse⟩
    simp only [handed, goto_pushed, goto_pc]
    split
    · next hpq =>
      refine List.Sublist.append (List.Sublist.refl _) ?_
      cases op with
      | push v => simp [checked, hopen, Pc.pending]
      | pop =>
        rw [hpq, hq]
        simp only [checked]
        split <;> exact List.Sublist.refl _
    · exact List.Sublist.refl _

theorem handed_step (ht : step cap this s l = some t) (p : Ptr) :
    (t.handed p).Sublist (s.handed p ++ l.element p) ∧
      (s.isClosed = false → t.handed p = s.handed p ++ l.element p) := by
  cases l with
  | call q op =>
    simp only [step] at ht
    split at ht
    · next hq =>
      cases ht
      exact ⟨handed_call hq op ▸ List.Sublist.refl _, fun _ => handed_call hq op⟩
    · cases ht
  | close q =>
    simp only [step] at ht
    split at ht
    · next hq =>
      cases ht
      have heq : (s.goto q .closing).handed p = s.handed p ++ [] := by
        rw [List.append_nil]
        exact handed_goto rfl rfl (by rw [hq]; rfl)
      exact ⟨heq ▸ List.Sublist.refl _, fun _ => heq⟩
    · cases ht
  | next q =>
    simp only [Label.element, List.append_nil]
    have hsame (heq : t.handed p = s.handed p) : (t.handed p).Sublist (s.handed p) ∧
        (s.isClosed = false → t.handed p = s.handed p) := ⟨heq ▸ List.Sublist.refl _, fun _ => heq⟩
    cases hq : s.pc q <;>
      simp only [step, hq, Option.ite_none_right_eq_some, Option.some.injEq, reduceCtorEq] at ht
    case lock op =>
      obtain ⟨-, rfl⟩ := ht
      refine hsame (handed_goto rfl rfl ?_)
      cases op <;> simp [Op.entry, hq, Pc.pending]
    case asleep op =>
      obtain ⟨-, rfl⟩ := ht
      refine hsame (handed_goto rfl rfl ?_)
      cases op <;> simp [hq, Pc.pending]
    case relock op =>
      obtain ⟨-, rfl⟩ := ht
      refine hsame (handed_goto rfl rfl ?_)
      cases op <;> simp [hq, Pc.pending]
    all_goals subst ht
    case check op => exact handed_check hq
    case full v =>
      refine hsame (handed_goto rfl rfl ?_)
      split <;> simp [hq, Pc.pending]
    case test op =>
      refine hsame (handed_goto rfl rfl ?_)
      cases op <;> split <;> simp [hq, Pc.pending]
    case link op =>
      refine hsame (handed_goto rfl rfl ?_)
      cases op <;> simp [hq, Pc.pending]
    case release op =>
      refine hsame (handed_goto rfl rfl ?_)
      cases op <;> simp [hq, Pc.pending]
    case act op =>
      cases op with
      | push v => exact hsame (handed_push hq)
      | pop =>
        have hact : (s.act q .pop).pc = s.pc ∧ (s.act q .pop).pushed = s.pushed := by
          simp only [act]
          split <;> exact ⟨rfl, rfl⟩
        exact hsame (handed_goto hact.1 hact.2 (by rw [hq]; rfl))
    case notify =>
      exact hsame (handed_goto notifyOne_pc notifyOne_pushed (by rw [hq]; rfl))
    case closing =>
      exact hsame (handed_goto notifyOne_pc notifyOne_pushed (by rw [hq]; rfl))
    case unlock => exact hsame (handed_goto rfl rfl (by rw [hq]; rfl))
    case store => exact hsame (handed_goto rfl rfl (by rw [hq]; rfl))

theorem isClosed_step (ht : step cap this s l = some t) (hopen : t.isClosed = false) :
    s.isClosed = false := by
  cases l with
  | call q op | close q =>
    simp only [step] at ht
    split at ht <;> cases ht
    exact hopen
  | next q =>
    cases hq : s.pc q <;>
      simp only [step, hq, Option.ite_none_right_eq_some, Option.some.injEq, reduceCtorEq] at ht
    case lock | asleep | relock =>
      obtain ⟨-, rfl⟩ := ht
      exact hopen
    case act op =>
      subst ht
      cases op with
      | push v => exact hopen
      | pop =>
        simp only [act] at hopen
        split at hopen <;> exact hopen
    case notify | closing =>
      subst ht
      unfold notifyOne at hopen
      grind [goto_isClosed]
    case store =>
      subst ht
      cases hopen
    all_goals
      subst ht
      exact hopen

theorem handed_run {ls : List (Label V)} (hr : run (step cap this) s ls = some t) (p : Ptr) :
    (t.handed p).Sublist (s.handed p ++ ls.flatMap (Label.element p)) ∧
      (t.isClosed = false →
        s.isClosed = false ∧ t.handed p = s.handed p ++ ls.flatMap (Label.element p)) := by
  induction ls generalizing s with
  | nil =>
    obtain rfl : s = t := by simpa using hr
    simp
  | cons l ls ih =>
    obtain ⟨u, hu, hr⟩ := run_cons.mp hr
    obtain ⟨hsub, heq⟩ := ih hr
    obtain ⟨hsub', heq'⟩ := handed_step hu p
    rw [List.flatMap_cons, ← List.append_assoc]
    refine ⟨hsub.trans (hsub'.append_right _), fun hopen => ?_⟩
    obtain ⟨hopen', hrest⟩ := heq hopen
    have hopen'' := isClosed_step hu hopen'
    exact ⟨hopen'', by rw [hrest, heq' hopen'']⟩

/-- In every interleaving, what has been popped is what was pushed, in this order, up to what is in
the queue, which does not outgrow the capacity. A task has pushed the elements of its calls of `>>`
in their order, the current one maybe excepted; none is missing as long as the channel is open. -/
theorem fifo_run (cvStatus : Ptr → CvStatus) {ls : List (Label V)}
    (hr : run (step cap this) { cvStatus } ls = some s) :
    s.popped.map Prod.snd ++ s.queue = s.pushed.map Prod.snd ∧
      (0 < cap → s.queue.length ≤ cap) ∧
      ∀ p, (s.handed p).Sublist (ls.flatMap (Label.element p)) ∧
        (s.isClosed = false → s.handed p = ls.flatMap (Label.element p)) := by
  have h : Inv cap s := run_invariant (fun _ _ _ h ht => h.step ht) (inv_initial cvStatus) hr
  exact ⟨h.fifo, h.bound, fun p => ⟨(handed_run hr p).1, fun ho => ((handed_run hr p).2 ho).2⟩⟩

/-- Task 1 pushes two elements into a channel of capacity 1 and sleeps until task 2 has popped. -/
def exchangeRun : List (Label Nat) :=
  [[.call 1 (.push 5)], List.replicate 6 (.next 1), [.call 1 (.push 7)],
    List.replicate 6 (.next 1), [.call 2 .pop], List.replicate 6 (.next 2),
    List.replicate 6 (.next 1)].flatten

theorem fifo_run_exchangeRun : ∃ s : Channel Nat,
    run (step 1 9) {} exchangeRun = some s ∧ s.pushed = [(1, 5), (1, 7)] ∧
      s.popped = [(2, 5)] ∧ s.popped.map Prod.snd ++ s.queue = s.pushed.map Prod.snd := by
  have hrun : ∃ s : Channel Nat, run (step 1 9) {} exchangeRun = some s ∧
      s.pushed = [(1, 5), (1, 7)] ∧ s.popped = [(2, 5)] := run_reaches (by decide)
  obtain ⟨s, hr, hpushed, hpopped⟩ := hrun
  exact ⟨s, hr, hpushed, hpopped, (fifo_run _ hr).1⟩

end Channel

end JamSched.Sync
