import JamSched.Exec.Future

/-!
# Timeouts of futures

`future::timeout` gives a function to a watcher, sets a callback, and returns a second future. The
function sets an exception and the callback passes the outcome on, whichever is called first; they
agree on this in the state of the first future, under `timeout_mutex_`. The watcher is not part of
the repository; it calls its function once at most, as soon as it has it.
-/
namespace JamSched.Exec

open Machine

/-- `timeout_state`. -/
inductive TimeoutState where
  | notSet | expired | resultSet
  deriving DecidableEq, Repr

/-- Where `timeout` stands. -/
inductive TimeoutPc where
  /-- Before `watcher.add`. -/
  | add
  /-- Before `set_callback`. -/
  | setCallback
  | returned
  deriving DecidableEq, Repr

structure Timed (ε V : Type) where
  /-- The state of the first future. -/
  state : Continued ε V Unit := {}
  timeoutState : TimeoutState := .notSet
  /-- The promise of the second. -/
  promise : SharedState ε V := {}
  pc : TimeoutPc := .add
  /-- The watcher has called its function. -/
  fired : Bool := false
  /-- `set_value` or `set_exception` has thrown. -/
  failed : Bool := false
  deriving DecidableEq, Repr

namespace Timed

variable {ε V : Type} (e : Thrown ε) (s : Timed ε V)

/-- `promise_ptr->set_value` or `promise_ptr->set_exception`. -/
def settle (r : Outcome ε V) : Timed ε V :=
  match (match r with
    | .returns v => s.promise.setValue v
    | .throws e => s.promise.setException e) with
  | .ok promise => { s with promise := promise.unlock }
  | .error _ => { s with failed := true }

/-- The function of the watcher. -/
def expire : Timed ε V :=
  if s.timeoutState = .resultSet then s
  else { s with timeoutState := .expired }.settle (.throws e)

/-- The callback, with the outcome that it finds. -/
def passOn (r : Outcome ε V) : Timed ε V :=
  if s.timeoutState = .expired then s
  else { s with timeoutState := .resultSet }.settle r

inductive Label (ε V : Type) where
  /-- `set_value` or `set_exception` of the promise behind the first future. -/
  | settle (r : Outcome ε V)
  | abandon
  /-- The next action of `timeout`. -/
  | next
  | fire
  | call
  deriving DecidableEq, Repr

def step : Label ε V → Option (Timed ε V)
  | .settle r =>
    match s.state.settle r with
    | .ok state => some { s with state }
    | .error _ => some s
  | .abandon => some { s with state := s.state.abandon }
  | .next =>
    match s.pc with
    | .add => some { s with pc := .setCallback }
    | .setCallback => some { s with state := s.state.setCallback (), pc := .returned }
    | .returned => none
  | .fire =>
    if s.pc = .add ∨ s.fired = true then none
    else some { s.expire e with fired := true }
  | .call =>
    s.state.call.bind fun x =>
      x.2.state.getValue.map fun r => { s with state := x.2 }.passOn r

/-- Who has given the second promise its outcome. -/
inductive Stage (s : Timed ε V) : Prop where
  | waiting : s.timeoutState = .notSet → s.promise = {} → s.fired = false → s.state.called = [] →
      Stage s
  | expired : s.timeoutState = .expired → s.promise = .settled false (.throws e) →
      s.fired = true → Stage s
  | passed (r : Outcome ε V) : s.timeoutState = .resultSet → s.promise = .settled false r →
      s.state.state = .settled false r → s.state.called ≠ [] → Stage s

structure Inv (s : Timed ε V) : Prop where
  state : s.state.Inv
  failed : s.failed = false
  stage : Stage e s

variable {e s} {t : Timed ε V} {l : Label ε V} {r : Outcome ε V}

theorem inv_initial : Inv e ({} : Timed ε V) :=
  ⟨Continued.inv_initial, rfl, .waiting rfl rfl rfl rfl⟩

theorem settle_empty (s : Timed ε V) (hs : s.promise = {}) (r : Outcome ε V) :
    s.settle r = { s with promise := .settled false r } := by
  cases r <;> simp only [settle, hs] <;> rfl

/-- The first future goes on; what has called its callback stays. -/
theorem Inv.goto (h : Inv e s) {x : Continued ε V Unit} (hx : x.Inv) (pc : TimeoutPc)
    (hcalled : x.called = s.state.called)
    (hstate : ∀ r, s.state.state = .settled false r → x.state = .settled false r) :
    Inv e { s with state := x, pc } := by
  refine ⟨hx, h.failed, ?_⟩
  cases h.stage with
  | waiting hts hp hfired hnone => exact .waiting hts hp hfired (hcalled.trans hnone)
  | expired hts hp hfired => exact .expired hts hp hfired
  | passed r hts hp hr hcall => exact .passed r hts hp (hstate r hr) (hcalled ▸ hcall)

theorem Inv.resolve (h : Inv e s) (hs : s.state.state.satisfied = false) (r : Outcome ε V) :
    Inv e { s with state := s.state.resolve r } :=
  h.goto (h.state.resolve hs r) s.pc rfl fun r' hr' => by simp [hr'] at hs

theorem Inv.fire (h : Inv e s) (hfired : s.fired = false) :
    Inv e { s.expire e with fired := true } := by
  cases h.stage with
  | waiting hts hp _ _ =>
    have hexpire : s.expire e = { s with
        timeoutState := .expired
        promise := .settled false (.throws e) } :=
      (if_neg (by simp [hts])).trans (settle_empty { s with timeoutState := .expired } hp _)
    rw [hexpire]
    exact ⟨h.state, h.failed, .expired rfl rfl rfl⟩
  | expired _ _ htrue => simp [hfired] at htrue
  | passed r hts hp hr hcall =>
    have hexpire : s.expire e = s := if_pos hts
    rw [hexpire]
    exact ⟨h.state, h.failed, .passed r hts hp hr hcall⟩

theorem Inv.call (h : Inv e s) (ht : step e s .call = some t) :
    Inv e t := by
  obtain ⟨⟨f, x⟩, hx, ht⟩ := Option.bind_eq_some_iff.mp ht
  obtain ⟨r, hr, rfl⟩ := Option.map_eq_some_iff.mp ht
  have hinv := h.state.call hx
  have honce := h.state.once
  have hle := Bool.toNat_le s.state.executed
  simp only [Continued.call, Option.ite_none_right_eq_some, Option.map_eq_some_iff] at hx
  obtain ⟨hpos, g, -, hg⟩ := hx
  cases hg
  have hr' : s.state.state = .settled false r := by
    obtain hempty | ⟨r', hr'⟩ := h.state.state
    · simp [hempty, SharedState.getValue] at hr
    · have heq : r' = r := by simpa [hr'] using hr
      rw [hr', heq]
  cases h.stage with
  | waiting hts hp _ _ =>
    rw [passOn, if_neg (by simp [hts]), settle_empty _ (by exact hp)]
    exact ⟨hinv, h.failed, .passed r rfl rfl hr' (by simp)⟩
  | expired hts hp hfired =>
    rw [passOn, if_pos hts]
    exact ⟨hinv, h.failed, .expired hts hp hfired⟩
  | passed _ _ _ _ hcall =>
    -- The callback is called once.
    have hlength := List.length_pos_of_ne_nil hcall
    omega

theorem Inv.step (h : Inv e s) (ht : step e s l = some t) : Inv e t := by
  cases l with
  | settle r =>
    simp only [Timed.step] at ht
    cases hs : s.state.state.satisfied with
    | false =>
      rw [Continued.settle_eq h.state hs] at ht
      cases ht
      exact h.resolve hs r
    | true =>
      rw [Continued.settle_satisfied hs] at ht
      cases ht
      exact h
  | abandon =>
    cases ht
    cases hs : s.state.state.satisfied with
    | false =>
      rw [Continued.abandon_eq h.state hs]
      exact h.resolve hs _
    | true => simpa [Continued.abandon, hs] using h
  | next =>
    simp only [Timed.step] at ht
    split at ht
    · cases ht
      exact h.goto h.state _ rfl fun _ hr => hr
    · cases ht
      exact h.goto (h.state.setCallback ()) _ (Continued.setCallback_called ()) fun r hr =>
        (Continued.setCallback_state ()).trans hr
    · cases ht
  | fire =>
    simp only [Timed.step, Option.ite_none_left_eq_some, Option.some.injEq] at ht
    obtain ⟨hno, rfl⟩ := ht
    exact h.fire (Bool.eq_false_iff.mpr fun htrue => hno (.inr htrue))
  | call => exact h.call ht

/-- In every order of the outcome, the watcher and the callback, the second future is satisfied
once, by the watcher with the exception or by the callback with the outcome of the first, and it is
as soon as one of them has been called. -/
theorem timeout_run {ls : List (Label ε V)} (hr : run (step e) {} ls = some s) :
    s.failed = false ∧ (s.promise.satisfied = true ↔ s.fired = true ∨ s.state.called ≠ []) ∧
      ∀ o, s.promise.getValue = some o →
        s.fired = true ∧ o = .throws e ∨
          s.state.called ≠ [] ∧ s.state.state.getValue = some o := by
  have h : Inv e s := run_invariant (fun _ _ _ h ht => h.step ht) inv_initial hr
  refine ⟨h.failed, ?_, fun o ho => ?_⟩
  · cases h.stage with
    | waiting _ hp hfired hnone => simp [hp, hfired, hnone]
    | expired _ hp hfired => simp [hp, hfired]
    | passed r _ hp _ hcall => simp [hp, hcall]
  · cases h.stage with
    | waiting _ hp _ _ => simp [hp, SharedState.getValue] at ho
    | expired _ hp hfired =>
      rw [hp, SharedState.settled_getValue] at ho
      exact .inl ⟨hfired, (Option.some.inj ho).symm⟩
    | passed r _ hp hr' hcall =>
      rw [hp, SharedState.settled_getValue] at ho
      exact .inr ⟨hcall, by rw [hr', SharedState.settled_getValue, ho]⟩

/-- The watcher comes first. -/
theorem timeout_run_lateRun : ∃ s : Timed Unit Nat,
    run (step (.derived ())) {} [.next, .next, .fire, .settle (.returns 5), .call] = some s ∧
      s.timeoutState = .expired ∧ s.promise.satisfied = true := by
  have hrun : ∃ s : Timed Unit Nat,
      run (step (.derived ())) {} [.next, .next, .fire, .settle (.returns 5), .call] = some s ∧
        s.timeoutState = .expired ∧ s.fired = true := run_reaches (by decide)
  obtain ⟨s, hr, hts, hfired⟩ := hrun
  exact ⟨s, hr, hts, (timeout_run hr).2.1.mpr (.inl hfired)⟩

end Timed

end JamSched.Exec
