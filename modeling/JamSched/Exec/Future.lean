import JamSched.Exec.Promise
import JamSched.Machine.Run
import Mathlib.Logic.Function.Basic

/-!
# Continuations

The state that a promise shares with its future, with the callback that `then` leaves in it. What is
done under the mutex is one step; the callback is called behind it, by the thread that has satisfied
the promise or by the one that has set the callback, whichever came last.

A chain of `then` gives, in every order in which its functions are attached and its callbacks come,
what its functions give one after the other.
-/
namespace JamSched.Exec

open Machine

variable {ε : Type}

/-- `shared_state` with the members for the callback. -/
structure Continued (ε V κ : Type) where
  state : SharedState ε V := {}
  executed : Bool := false
  cb : Option κ := none
  /-- Threads that have released the mutex and call `cb_` next. -/
  calls : Nat := 0
  /-- History: the functions called. -/
  called : List κ := []
  deriving DecidableEq, Repr

/-! ## One future -/

namespace Continued

variable {V κ : Type} (x : Continued ε V κ)

/-- `set_ready` behind `notify_all`. The mutex is released here or on return. -/
def setReady : Continued ε V κ :=
  if x.cb.isNone || x.executed then { x with state := x.state.unlock }
  else { x with state := x.state.unlock, executed := true, calls := x.calls + 1 }

def setValue (value : V) : Except (Thrown ε) (Continued ε V κ) :=
  (x.state.setValue value).map fun state => { x with state }.setReady

def setException (p : Thrown ε) : Except (Thrown ε) (Continued ε V κ) :=
  (x.state.setException p).map fun state => { x with state }.setReady

def abandon : Continued ε V κ :=
  if x.state.satisfied then x else { x with state := x.state.abandon }.setReady

def setCallback (f : κ) : Continued ε V κ :=
  if x.state.satisfied && !x.executed then
    { x with cb := some f, executed := true, calls := x.calls + 1 }
  else { x with cb := some f }

/-- A thread calls `cb_`. -/
def call : Option (κ × Continued ε V κ) :=
  if 0 < x.calls then
    x.cb.map fun f => (f, { x with calls := x.calls - 1, called := x.called ++ [f] })
  else none

/-- `set_value` or `set_exception`. -/
def settle : Outcome ε V → Except (Thrown ε) (Continued ε V κ)
  | .returns value => x.setValue value
  | .throws p => x.setException p

inductive Act (ε V κ : Type) where
  | settle (r : Outcome ε V)
  | abandon
  | setCallback (f : κ)
  | call
  deriving DecidableEq, Repr

/-- A call that throws leaves the state as it is. -/
def step (x : Continued ε V κ) : Act ε V κ → Option (Continued ε V κ)
  | .settle r =>
    match x.settle r with
    | .ok y => some y
    | .error _ => some x
  | .abandon => some x.abandon
  | .setCallback f => some (x.setCallback f)
  | .call => x.call.map Prod.snd

structure Inv (x : Continued ε V κ) : Prop where
  state : x.state = {} ∨ ∃ r, x.state = .settled false r
  executed : x.executed = (x.state.satisfied && x.cb.isSome)
  once : x.called.length + x.calls = x.executed.toNat

variable {x} {y : Continued ε V κ} {r : Outcome ε V} {f : κ}

theorem inv_initial : Inv ({} : Continued ε V κ) := ⟨.inl rfl, rfl, rfl⟩

/-- The state behind the call that satisfies the promise. -/
def resolve (x : Continued ε V κ) (r : Outcome ε V) : Continued ε V κ :=
  { x with
    state := .settled false r
    executed := x.cb.isSome
    calls := x.calls + x.cb.isSome.toNat }

theorem Inv.unsatisfied (h : Inv x) (hx : x.state.satisfied = false) :
    x.state = {} ∧ x.executed = false := by
  refine ⟨h.state.resolve_right ?_, by simp [h.executed, hx]⟩
  rintro ⟨r, hr⟩
  simp [hr] at hx

theorem setReady_eq (hx : x.executed = false) (r : Outcome ε V) :
    { x with state := .settled true r }.setReady = x.resolve r := by
  cases hcb : x.cb <;> simp [setReady, resolve, hx, hcb]

theorem settle_eq (h : Inv x) (hx : x.state.satisfied = false) (r : Outcome ε V) :
    x.settle r = .ok (x.resolve r) := by
  obtain ⟨hstate, hexecuted⟩ := h.unsatisfied hx
  cases r with
  | returns v =>
    simp only [settle, setValue, hstate]
    exact congrArg Except.ok (setReady_eq hexecuted (.returns v))
  | throws e =>
    simp only [settle, setException, hstate]
    exact congrArg Except.ok (setReady_eq hexecuted (.throws e))

/-- A promise is satisfied once. -/
theorem settle_satisfied (hx : x.state.satisfied = true) (r : Outcome ε V) :
    x.settle r = .error (futureError .promiseAlreadySatisfied) := by
  cases r <;> simp [settle, setValue, setException, SharedState.setValue,
    SharedState.setException, SharedState.throwIfSatisfied, hx] <;> rfl

theorem abandon_eq (h : Inv x) (hx : x.state.satisfied = false) :
    x.abandon = x.resolve (.throws (futureError .brokenPromise)) := by
  obtain ⟨hstate, hexecuted⟩ := h.unsatisfied hx
  rw [abandon, hx, if_neg (by simp)]
  cases hcb : x.cb <;>
    simp [setReady, resolve, hexecuted, hstate, hcb, SharedState.abandon_unsatisfied]

theorem Inv.resolve (h : Inv x) (hx : x.state.satisfied = false) (r : Outcome ε V) :
    Inv (x.resolve r) := by
  have honce := h.once
  rw [(h.unsatisfied hx).2] at honce
  refine ⟨.inr ⟨r, rfl⟩, by simp [Continued.resolve], ?_⟩
  simp only [Continued.resolve]
  simp only [Bool.toNat_false] at honce
  omega

theorem setCallback_state (f : κ) : (x.setCallback f).state = x.state := by
  unfold Continued.setCallback
  split <;> rfl

theorem setCallback_called (f : κ) : (x.setCallback f).called = x.called := by
  unfold Continued.setCallback
  split <;> rfl

theorem setCallback_cb (f : κ) : (x.setCallback f).cb = some f := by
  unfold Continued.setCallback
  split <;> rfl

theorem Inv.setCallback (h : Inv x) (f : κ) : Inv (x.setCallback f) := by
  have hexecuted := h.executed
  have honce := h.once
  unfold Continued.setCallback
  split
  · next hready =>
    simp only [Bool.and_eq_true, Bool.not_eq_true'] at hready
    refine ⟨h.state, by simp [hready.1], ?_⟩
    rw [hready.2] at honce
    simp only [Bool.toNat_false, Bool.toNat_true] at honce ⊢
    omega
  · next hready =>
    refine ⟨h.state, ?_, honce⟩
    cases hs : x.state.satisfied with
    | false => simp [hexecuted, hs]
    | true => simpa [hs] using hready

theorem Inv.call (h : Inv x) (hc : x.call = some (f, y)) : Inv y := by
  have honce := h.once
  simp only [Continued.call, Option.ite_none_right_eq_some, Option.map_eq_some_iff] at hc
  obtain ⟨hpos, g, -, hg⟩ := hc
  cases hg
  refine ⟨h.state, h.executed, ?_⟩
  simp only [List.length_append, List.length_singleton]
  omega

theorem Inv.step {l : Act ε V κ} (h : Inv x) (hy : step x l = some y) : Inv y := by
  cases l with
  | settle r =>
    simp only [Continued.step] at hy
    cases hx : x.state.satisfied with
    | false =>
      rw [settle_eq h hx] at hy
      cases hy
      exact h.resolve hx r
    | true =>
      rw [settle_satisfied hx] at hy
      cases hy
      exact h
  | abandon =>
    cases hy
    cases hx : x.state.satisfied with
    | false => exact abandon_eq h hx ▸ h.resolve hx _
    | true => simpa [Continued.abandon, hx] using h
  | setCallback f =>
    cases hy
    exact h.setCallback f
  | call =>
    obtain ⟨⟨f, z⟩, hz, rfl⟩ := Option.map_eq_some_iff.mp hy
    exact h.call hz

/-- Whoever satisfies the promise and sets callbacks, and in whatever order, the callback is called
once if both have been done, and otherwise not at all; the outcome stays what it was first. -/
theorem callback_once {ls : List (Act ε V κ)} (hr : run step {} ls = some x) :
    x.called.length + x.calls = (x.state.satisfied && x.cb.isSome).toNat := by
  have h : Inv x := run_invariant (fun _ _ _ h hy => h.step hy) inv_initial hr
  rw [h.once, h.executed]

theorem callback_once_readyRun : ∃ x : Continued Unit Nat Nat,
    run step {} [.settle (.returns 1), .setCallback 3, .call] = some x ∧
      x.called.length + x.calls = 1 := by
  have hrun : ∃ x : Continued Unit Nat Nat,
      run step {} [.settle (.returns 1), .setCallback 3, .call] = some x ∧
        (x.state.satisfied && x.cb.isSome) = true := run_reaches (by decide)
  obtain ⟨x, hr, hx⟩ := hrun
  refine ⟨x, hr, ?_⟩
  rw [callback_once hr, hx]
  rfl

end Continued

/-! ## A chain of futures -/

/-- The function that `then` is given. -/
structure Stage (ε V R : Type) where
  /-- What it returns or throws. If it returns a future, this is what the future will have. -/
  f : Outcome ε V → Outcome ε R
  /-- It returns a future. -/
  unwraps : Bool
  /-- It runs in a batch task of the executor. -/
  executor : Bool

/-- What `then_impl` gives to its promise: an exception of the future before is passed on even if
the function has dealt with it, except where the function returns a future. -/
def Stage.apply {V R : Type} (g : Stage ε V R) (r : Outcome ε V) : Outcome ε R :=
  match r, g.f r with
  | .throws e, .returns v => if g.unwraps then .returns v else .throws e
  | _, o => o

/-- Where a callback stands. -/
inductive Progress where
  | idle
  /-- Its function is called next, by the executor if there is one. -/
  | called
  /-- Its function has returned a future, which is not satisfied yet. -/
  | inner
  | done
  deriving DecidableEq, Repr

variable {V : Nat → Type}

/-- Future 0 and those that `then` has returned, each called on the one before. -/
structure Chain (ε : Type) (V : Nat → Type) where
  future : ∀ i, Continued ε (V i) Unit := fun _ => {}
  /-- Calls of `then`. -/
  thens : Nat := 0
  progress : Nat → Progress := fun _ => .idle
  /-- `set_value` or `set_exception` of a callback has thrown. -/
  failed : Bool := false

namespace Chain

variable (g : ∀ i, Stage ε (V i) (V (i + 1))) (s : Chain ε V)

def setFuture (i : Nat) (x : Continued ε (V i) Unit) : Chain ε V :=
  { s with future := Function.update s.future i x }

def setProgress (i : Nat) (p : Progress) : Chain ε V :=
  { s with progress := Function.update s.progress i p }

def attach : Chain ε V :=
  { s.setFuture s.thens ((s.future s.thens).setCallback ()) with thens := s.thens + 1 }

/-- The promise behind callback `i` is given its outcome. -/
def finish (i : Nat) : Option (Chain ε V) :=
  (s.future i).state.getValue.map fun r =>
    match (s.future (i + 1)).settle ((g i).apply r) with
    | .ok x => (s.setFuture (i + 1) x).setProgress i .done
    | .error _ => { s with failed := true }

/-- The function of callback `i` is called. -/
def apply (i : Nat) : Option (Chain ε V) :=
  if (g i).unwraps then some (s.setProgress i .inner) else s.finish g i

inductive Label (ε V : Type) where
  /-- `set_value` or `set_exception` of the promise behind future 0. -/
  | settle (r : Outcome ε V)
  /-- The end of this promise. -/
  | abandon
  /-- `then` on the last future. -/
  | attach
  | call (i : Nat)
  /-- The task of callback `i` runs. -/
  | task (i : Nat)
  /-- The future that the function of callback `i` has returned is satisfied. -/
  | inner (i : Nat)
  deriving DecidableEq, Repr

def step : Label ε (V 0) → Option (Chain ε V)
  | .settle r =>
    match (s.future 0).settle r with
    | .ok x => some (s.setFuture 0 x)
    | .error _ => some s
  | .abandon => some (s.setFuture 0 (s.future 0).abandon)
  | .attach => some s.attach
  | .call i =>
    (s.future i).call.bind fun x =>
      let s := (s.setFuture i x.2).setProgress i .called
      if (g i).executor then some s else s.apply g i
  | .task i => if s.progress i = .called then s.apply g i else none
  | .inner i => if s.progress i = .inner then s.finish g i else none

/-- What the functions give one after the other. -/
def outcome (r : Outcome ε (V 0)) : ∀ i, Outcome ε (V i)
  | 0 => r
  | i + 1 => (g i).apply (outcome r i)

/-- No callback is on its way. -/
def Quiet : Prop := ∀ i, (s.future i).calls = 0 ∧ (s.progress i = .idle ∨ s.progress i = .done)

structure Inv (s : Chain ε V) : Prop where
  future : ∀ i, (s.future i).Inv
  attached : ∀ i, (s.future i).cb.isSome = true ↔ i < s.thens
  called : ∀ i, (s.future i).called.length = if s.progress i = .idle then 0 else 1
  next : ∀ i, (s.future (i + 1)).state.satisfied = true ↔ s.progress i = .done
  outcome : ∃ r, ∀ i, (s.future i).state.satisfied = true →
    (s.future i).state = .settled false (outcome g r i)
  failed : s.failed = false

variable {g s} {t : Chain ε V} {i j : Nat} {p : Progress}

@[simp] theorem future_setFuture_self (x : Continued ε (V i) Unit) :
    (s.setFuture i x).future i = x := Function.update_self ..

theorem future_setFuture_of_ne (h : j ≠ i) (x : Continued ε (V i) Unit) :
    (s.setFuture i x).future j = s.future j := Function.update_of_ne h ..

@[simp] theorem progress_setFuture (x : Continued ε (V i) Unit) :
    (s.setFuture i x).progress = s.progress := rfl

@[simp] theorem thens_setFuture (x : Continued ε (V i) Unit) :
    (s.setFuture i x).thens = s.thens := rfl

@[simp] theorem future_setProgress : (s.setProgress i p).future = s.future := rfl

@[simp] theorem thens_setProgress : (s.setProgress i p).thens = s.thens := rfl

@[simp] theorem progress_setProgress :
    (s.setProgress i p).progress j = if j = i then p else s.progress j := Function.update_apply ..

theorem inv_initial : Inv g ({} : Chain ε V) :=
  ⟨fun _ => Continued.inv_initial, by simp, by simp, by simp, ⟨.throws .exception, by simp⟩, rfl⟩

/-- The future of a callback that was called is satisfied. -/
theorem Inv.satisfied_of_called (h : Inv g s) (hi : s.progress i ≠ .idle) :
    (s.future i).state.satisfied = true := by
  have honce := (h.future i).once
  have hcalled := h.called i
  rw [if_neg hi] at hcalled
  rw [(h.future i).executed, hcalled] at honce
  cases hsatisfied : (s.future i).state.satisfied with
  | true => rfl
  | false =>
    simp only [hsatisfied, Bool.false_and, Bool.toNat_false] at honce
    omega

theorem Inv.satisfied_zero (h : Inv g s) (hi : (s.future i).state.satisfied = true) :
    (s.future 0).state.satisfied = true := by
  induction i with
  | zero => exact hi
  | succ i ih =>
    rw [h.next] at hi
    exact ih (h.satisfied_of_called (by simp [hi]))

/-- What holds of the new state of a future and of the others holds of all. -/
theorem forall_setFuture (P : ∀ j, Continued ε (V j) Unit → Prop) {x : Continued ε (V i) Unit}
    (hx : P i x) (h : ∀ j, P j (s.future j)) : ∀ j, P j ((s.setFuture i x).future j) :=
  (Function.forall_update_iff s.future P).mpr ⟨hx, fun j _ => h j⟩

/-- A callback that is on its way satisfies the next promise. -/
theorem Inv.finish (h : Inv g s) (hidle : s.progress i ≠ .idle) (hdone : s.progress i ≠ .done)
    (ht : s.finish g i = some t) : Inv g t := by
  obtain ⟨r, hr, ht⟩ := Option.map_eq_some_iff.mp ht
  have hnext : (s.future (i + 1)).state.satisfied = false :=
    Bool.eq_false_iff.mpr (mt (h.next i).mp hdone)
  rw [Continued.settle_eq (h.future _) hnext] at ht
  dsimp only at ht
  subst ht
  have hcalled : ∀ j, ((s.setFuture (i + 1)
      ((s.future (i + 1)).resolve ((g i).apply r))).future j).called = (s.future j).called :=
    forall_setFuture (fun j y => y.called = (s.future j).called) rfl fun _ => rfl
  refine ⟨forall_setFuture (fun _ y => y.Inv) ((h.future _).resolve hnext _) h.future,
    forall_setFuture (fun j y => y.cb.isSome = true ↔ j < s.thens) (h.attached _) h.attached,
    fun j => ?_, fun j => ?_, ?_, h.failed⟩
  · rw [future_setProgress, hcalled, h.called j, progress_setProgress]
    by_cases hj : j = i
    · simp [hj, hidle]
    · simp [hj]
  · by_cases hj : j = i
    · subst hj
      simp [Continued.resolve]
    · have hne : j + 1 ≠ i + 1 := by omega
      simpa [future_setFuture_of_ne hne, hj] using h.next j
  · obtain ⟨r₀, hr₀⟩ := h.outcome
    have hsource := hr₀ i (h.satisfied_of_called hidle)
    rw [hsource, SharedState.settled_getValue] at hr
    cases hr
    exact ⟨r₀, forall_setFuture (fun j y => y.state.satisfied = true →
      y.state = .settled false (Chain.outcome g r₀ j)) (fun _ => rfl) hr₀⟩

theorem Inv.setProgress (h : Inv g s) (hidle : s.progress i ≠ .idle) (hdone : s.progress i ≠ .done)
    (hp : p ≠ .idle) (hp' : p ≠ .done) : Inv g (s.setProgress i p) where
  future := h.future
  attached := h.attached
  called j := by
    rw [future_setProgress, h.called j, progress_setProgress]
    by_cases hj : j = i
    · simp [hj, hidle, hp]
    · simp [hj]
  next j := by
    rw [future_setProgress, h.next j, progress_setProgress]
    by_cases hj : j = i
    · simp [hj, hdone, hp']
    · simp [hj]
  outcome := h.outcome
  failed := h.failed

theorem Inv.apply (h : Inv g s) (hidle : s.progress i ≠ .idle) (hdone : s.progress i ≠ .done)
    (ht : s.apply g i = some t) : Inv g t := by
  unfold Chain.apply at ht
  split at ht
  · cases ht
    exact h.setProgress hidle hdone (by simp) (by simp)
  · exact h.finish hidle hdone ht

theorem Inv.call (h : Inv g s) {x : Unit × Continued ε (V i) Unit}
    (hx : (s.future i).call = some x) :
    Inv g ((s.setFuture i x.2).setProgress i .called) ∧
      s.progress i = .idle := by
  have hinv := (h.future i).call hx
  have honce := (h.future i).once
  simp only [Continued.call, Option.ite_none_right_eq_some, Option.map_eq_some_iff] at hx
  obtain ⟨hpos, f, -, rfl⟩ := hx
  have hidle : s.progress i = .idle := by
    by_contra hne
    have hcalled := h.called i
    have hle := Bool.toNat_le (s.future i).executed
    rw [if_neg hne] at hcalled
    omega
  refine ⟨⟨forall_setFuture (fun _ y => y.Inv) hinv h.future,
    forall_setFuture (fun j y => y.cb.isSome = true ↔ j < s.thens) (h.attached i) h.attached,
    fun j => ?_, fun j => ?_, ?_, h.failed⟩, hidle⟩
  · by_cases hj : j = i
    · subst hj
      simp [h.called, hidle]
    · simpa [future_setFuture_of_ne hj, hj] using h.called j
  · have hstate : ∀ j, ((s.setFuture i
        { s.future i with
          calls := (s.future i).calls - 1
          called := (s.future i).called ++ [f] }).future j).state = (s.future j).state :=
      forall_setFuture (fun j y => y.state = (s.future j).state) rfl fun _ => rfl
    rw [future_setProgress, hstate, h.next j, progress_setProgress, progress_setFuture]
    by_cases hj : j = i
    · simp [hj, hidle]
    · simp [hj]
  · obtain ⟨r, hr⟩ := h.outcome
    exact ⟨r, forall_setFuture (fun j y => y.state.satisfied = true →
      y.state = .settled false (Chain.outcome g r j)) (hr i) hr⟩

/-- Nothing was satisfied before the first promise is. -/
theorem Inv.resolve_zero (h : Inv g s) (hs : (s.future 0).state.satisfied = false)
    (r : Outcome ε (V 0)) : Inv g (s.setFuture 0 ((s.future 0).resolve r)) := by
  have hnone (j : Nat) (hj : (s.future j).state.satisfied = true) : False := by
    have hzero := h.satisfied_zero hj
    rw [hs] at hzero
    cases hzero
  refine ⟨forall_setFuture (fun _ y => y.Inv) ((h.future 0).resolve hs r) h.future,
    forall_setFuture (fun j y => y.cb.isSome = true ↔ j < s.thens) (h.attached 0) h.attached,
    forall_setFuture (fun j y => y.called.length = if s.progress j = .idle then 0 else 1)
      (h.called 0) h.called,
    fun j => ?_, ⟨r, forall_setFuture (fun j y => y.state.satisfied = true →
      y.state = .settled false (Chain.outcome g r j)) (fun _ => rfl)
      fun j hj => (hnone j hj).elim⟩, h.failed⟩
  rw [future_setFuture_of_ne (Nat.succ_ne_zero j)]
  exact h.next j

theorem Inv.attach (h : Inv g s) : Inv g s.attach := by
  have hstate : ∀ j, ((s.setFuture s.thens ((s.future s.thens).setCallback ())).future j).state =
      (s.future j).state :=
    forall_setFuture (fun j y => y.state = (s.future j).state)
      (Continued.setCallback_state ()) fun _ => rfl
  refine ⟨forall_setFuture (fun _ y => y.Inv) ((h.future _).setCallback ()) h.future, fun j => ?_,
    forall_setFuture (fun j y => y.called.length = if s.progress j = .idle then 0 else 1)
      (by rw [Continued.setCallback_called]; exact h.called _) h.called, fun j => ?_, ?_, h.failed⟩
  · show ((s.setFuture s.thens _).future j).cb.isSome = true ↔ j < s.thens + 1
    by_cases hj : j = s.thens
    · subst hj
      simp [Continued.setCallback_cb]
    · rw [future_setFuture_of_ne hj, h.attached]
      omega
  · show ((s.setFuture s.thens _).future (j + 1)).state.satisfied = true ↔ _
    rw [hstate]
    exact h.next j
  · obtain ⟨r, hr⟩ := h.outcome
    refine ⟨r, fun j hj => ?_⟩
    show ((s.setFuture s.thens _).future j).state = _
    rw [hstate]
    exact hr j (hstate j ▸ hj)

theorem Inv.step {l : Label ε (V 0)} (h : Inv g s) (ht : s.step g l = some t) : Inv g t := by
  cases l with
  | settle r =>
    simp only [Chain.step] at ht
    cases hs : (s.future 0).state.satisfied with
    | false =>
      rw [Continued.settle_eq (h.future 0) hs] at ht
      cases ht
      exact h.resolve_zero hs r
    | true =>
      rw [Continued.settle_satisfied hs] at ht
      cases ht
      exact h
  | abandon =>
    simp only [Chain.step] at ht
    cases ht
    cases hs : (s.future 0).state.satisfied with
    | false =>
      rw [Continued.abandon_eq (h.future 0) hs]
      exact h.resolve_zero hs _
    | true =>
      have hself : s.setFuture 0 (s.future 0) = s := by simp [setFuture]
      rwa [Continued.abandon, if_pos hs, hself]
  | attach =>
    cases ht
    exact h.attach
  | call i =>
    obtain ⟨x, hx, ht⟩ := Option.bind_eq_some_iff.mp ht
    obtain ⟨hcalled, -⟩ := h.call hx
    dsimp only at ht
    split at ht
    · cases ht
      exact hcalled
    · exact hcalled.apply (i := i) (by simp) (by simp) ht
  | task i =>
    simp only [Chain.step, Option.ite_none_right_eq_some] at ht
    exact h.apply (by simp [ht.1]) (by simp [ht.1]) ht.2
  | inner i =>
    simp only [Chain.step, Option.ite_none_right_eq_some] at ht
    exact h.finish (by simp [ht.1]) (by simp [ht.1]) ht.2

/-- In every order in which `then` is called, the source is satisfied and callbacks and tasks come,
each future has the outcome that the functions give one after the other, and none is satisfied
twice. Once no callback is on its way, every future has its outcome, if the first one has. -/
theorem chain_run {ls : List (Label ε (V 0))} (hr : run (step g) {} ls = some s) :
    s.failed = false ∧ ∃ r,
      (∀ i r', (s.future i).state.getValue = some r' → r' = outcome g r i) ∧
      (s.Quiet → (s.future 0).state.satisfied = true →
        ∀ i ≤ s.thens, (s.future i).state.getValue = some (outcome g r i)) := by
  have h : Inv g s := run_invariant (fun _ _ _ h ht => h.step ht) inv_initial hr
  obtain ⟨r, hr⟩ := h.outcome
  refine ⟨h.failed, r, fun i r' hr' => ?_, fun hquiet hsource i hi => ?_⟩
  · have hsatisfied : (s.future i).state.satisfied = true := by
      by_contra hnot
      simp [SharedState.getValue, hnot] at hr'
    rw [hr i hsatisfied, SharedState.settled_getValue] at hr'
    exact (Option.some.inj hr').symm
  · have hall : ∀ i ≤ s.thens, (s.future i).state.satisfied = true := by
      intro i hi
      induction i with
      | zero => exact hsource
      | succ i ih =>
        have hsatisfied := ih (Nat.le_of_succ_le hi)
        have honce := (h.future i).once
        have hcalled := h.called i
        obtain ⟨hcalls, hprogress⟩ := hquiet i
        rw [(h.future i).executed, hsatisfied, (h.attached i).mpr hi, hcalls] at honce
        rw [h.next]
        refine hprogress.resolve_left fun hidle => ?_
        rw [if_pos hidle] at hcalled
        simp [hcalled] at honce
    rw [hr i (hall i hi), SharedState.settled_getValue]

/-- The exception of the source reaches the last future through functions that only return. -/
theorem outcome_throws (hunwraps : ∀ i, (g i).unwraps = false)
    (hf : ∀ i r, ∃ v, (g i).f r = .returns v) (e : Thrown ε) (i : Nat) :
    outcome g (.throws e) i = .throws e := by
  induction i with
  | zero => rfl
  | succ i ih =>
    obtain ⟨v, hv⟩ := hf i (.throws e)
    simp [outcome, ih, Stage.apply, hv, hunwraps]

/-- Adds one; the second stage has an executor. -/
def addOne (i : Nat) : Stage Unit Nat Nat where
  f
    | .returns v => .returns (v + 1)
    | .throws e => .throws e
  unwraps := false
  executor := i == 1

/-- The second `then` comes after the first function has run. -/
def addTwiceRun : List (Label Unit Nat) :=
  [.attach, .settle (.returns 5), .call 0, .attach, .call 1, .task 1]

theorem chain_run_addTwiceRun : ∃ s : Chain Unit fun _ => Nat,
    run (step addOne) {} addTwiceRun = some s ∧
      (s.future 2).state.getValue = some (.returns 7) ∧ s.failed = false := by
  have hrun : ∃ s : Chain Unit fun _ => Nat, run (step addOne) {} addTwiceRun = some s ∧
      (s.future 2).state.getValue = some (.returns 7) := run_reaches (by decide)
  obtain ⟨s, hr, hvalue⟩ := hrun
  exact ⟨s, hr, hvalue, (chain_run hr).1⟩

end Chain

end JamSched.Exec
