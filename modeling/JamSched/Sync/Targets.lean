import JamSched.Sync.Timer
import Mathlib.Algebra.Group.Int.Defs
import Mathlib.Tactic.Common

/-!
# The targets of the timer

The six variants of `SetTimeoutFor` and `SetTimeoutUntil` count nanoseconds from the start of the
scheduler in a signed number and hand it to the wheel, which takes an unsigned one. The machine
below is the timer with the readings of the clock and the requests of the callers as they are; an
observer keeps a second wheel, whose times are the targets themselves, and which never wraps
round. The two wheels find the same entries due for as long as every target lies at or after the
start of the scheduler. An earlier target turns into one that the clock does not reach.

Signed differences and sums wrap round here, as they do on the machine. The start of the scheduler
is read once, before anything can call the timer.
-/
namespace JamSched.Timer

open Machine

/-- Arithmetic of `Duration` and `TimePoint`. -/
def int64 (n : Int) : Int := n.bmod (2 ^ 64)

/-- The conversion of a count of nanoseconds to `timeout_t`. -/
def timeoutT (n : Int) : Nat := (n % 2 ^ 64).toNat

/-- What a caller asks for. -/
inductive Request where
  /-- `SetTimeoutFor`, with its own reading of the clock. -/
  | setTimeoutFor (now dt : Int)
  | setTimeoutUntil (tp : Int)
  deriving DecidableEq, Repr

namespace Request

/-- The `dt` that is handed to `SetTimeout`. -/
def delta (start : Int) : Request → Int
  | setTimeoutFor now dt => int64 (int64 (now - start) + dt)
  | setTimeoutUntil tp => int64 (tp - start)

/-- The time that is meant. -/
def target : Request → Int
  | setTimeoutFor now dt => now + dt
  | setTimeoutUntil tp => tp

end Request

/-- The lock that is passed along. -/
inductive Variant where
  | withoutLock | spinMutex | mutex
  deriving DecidableEq, Repr

inductive Call where
  /-- One of the six calls; `now` is read by `UpdateTimeoutWithoutLock`. -/
  | setTimeout (p : Ptr) (v : Variant) (r : Request) (now : Int)
  | notifyAllTimeouts (now : Int)
  | timeoutCallback
  | notifyEnd
  | notify (p : Ptr)
  | returns (p : Ptr)
  | endTask (p : Ptr)
  deriving DecidableEq, Repr

/-- The time of the wheel at a reading of the clock. -/
def ticks (start now : Int) : Nat := timeoutT (int64 (now - start))

/-- The step of the timer, with the times as the wheel gets them. -/
def Call.label (start : Int) : Call → Label
  | .setTimeout p .withoutLock r now => .sleep p (ticks start now) (timeoutT (r.delta start))
  | .setTimeout p _ r now => .setTimeout p (ticks start now) (timeoutT (r.delta start))
  | .notifyAllTimeouts now => .notifyAllTimeouts (ticks start now)
  | .timeoutCallback => .timeoutCallback
  | .notifyEnd => .notifyEnd
  | .notify p => .notify p
  | .returns p => .returns p
  | .endTask p => .endTask p

/-- A reading of the clock: it fits in 64 bits and is not before the start of the scheduler. -/
def IsReading (start now : Int) : Prop := start ≤ now ∧ now < 2 ^ 63

instance (start now : Int) : Decidable (IsReading start now) :=
  inferInstanceAs (Decidable (_ ∧ _))

/-- A request in 64-bit numbers. -/
def Request.Representable (start : Int) : Request → Prop
  | setTimeoutFor now dt => IsReading start now ∧ -2 ^ 63 ≤ dt ∧ dt < 2 ^ 63
  | setTimeoutUntil tp => -2 ^ 63 ≤ tp ∧ tp < 2 ^ 63

instance (start : Int) : DecidablePred (Request.Representable start)
  | .setTimeoutFor _ _ => inferInstanceAs (Decidable (_ ∧ _))
  | .setTimeoutUntil _ => inferInstanceAs (Decidable (_ ∧ _))

/-- The clock is read and the requests are made in 64-bit numbers. -/
def Call.Representable (start : Int) : Call → Prop
  | .setTimeout _ _ r now => r.Representable start ∧ IsReading start now
  | .notifyAllTimeouts now => IsReading start now
  | _ => True

instance (start : Int) : DecidablePred (Call.Representable start)
  | .setTimeout _ _ _ _ => inferInstanceAs (Decidable (_ ∧ _))
  | .notifyAllTimeouts _ => inferInstanceAs (Decidable (IsReading _ _))
  | .timeoutCallback | .notifyEnd | .notify _ | .returns _ | .endTask _ =>
    inferInstanceAs (Decidable True)

/-- The timer with the clock that it reads. -/
def callStep (start : Int) (s : State) (l : Call) : Option State :=
  if l.Representable start then step s (l.label start) else none

/-- What the steps of the timer do to a wheel that writes the times as `time` says. -/
def follow {τ : Type} [LT τ] [DecidableLT τ] (time : Int → τ) (w : Wheel Ptr τ) :
    Call → Wheel Ptr τ
  | .setTimeout p _ r now => (w.update (time now)).add p (time r.target)
  | .notifyAllTimeouts now => w.update (time now)
  | .timeoutCallback => (w.get).elim w (·.2)
  | .returns p => if p ∉ w.expired then w.del p else w
  | .notifyEnd | .notify _ | .endTask _ => w

/-- The timer next to a wheel that keeps the targets themselves. -/
def targetStep (start : Int) : State × Wheel Ptr Int → Call → Option (State × Wheel Ptr Int) :=
  observe (callStep start) fun w _ l => follow id w l

/-- At whatever time the clock is read next, the entries that the timer finds due are those whose
target the clock has reached, in the same order. -/
def DueExactly (start : Int) (x : State × Wheel Ptr Int) : Prop :=
  ∀ now, IsReading start now →
    (x.1.timingWheel.update (ticks start now)).expired = (x.2.update now).expired

/-- The target lies at or after the start of the scheduler. -/
def Call.AfterStart (start : Int) : Call → Prop
  | .setTimeout _ _ r _ => start ≤ r.target
  | _ => True

instance (start : Int) : DecidablePred (Call.AfterStart start)
  | .setTimeout _ _ _ _ => inferInstanceAs (Decidable (_ ≤ _))
  | .notifyAllTimeouts _ | .timeoutCallback | .notifyEnd | .notify _ | .returns _
  | .endTask _ => inferInstanceAs (Decidable True)

/-- The time of the wheel for a target. -/
def wheelTime (start target : Int) : Nat := ((target - start) % 2 ^ 64).toNat

section Conversion

variable {start now target : Int}

theorem timeoutT_int64 (n : Int) : timeoutT (int64 n) = (n % 2 ^ 64).toNat := by
  have hcast : ((2 ^ 64 : Nat) : Int) = 2 ^ 64 := rfl
  simp only [timeoutT, int64]
  rw [← hcast, Int.bmod_emod]

theorem ticks_eq (start now : Int) : ticks start now = wheelTime start now := timeoutT_int64 _

/-- Whatever wraps round on the way, the wheel gets the target modulo `2 ^ 64`. -/
theorem timeoutT_delta (start : Int) (r : Request) :
    timeoutT (r.delta start) = wheelTime start r.target := by
  cases r with
  | setTimeoutUntil tp => exact timeoutT_int64 _
  | setTimeoutFor now dt =>
    have hsum : int64 (int64 (now - start) + dt) = int64 (now + dt - start) := by
      have hcomm : now - start + dt = now + dt - start := by omega
      simp only [int64, Int.bmod_add_bmod, hcomm]
    rw [Request.delta, hsum]
    exact timeoutT_int64 _

theorem wheelTime_of_le (hle : start ≤ target) (hlt : target < start + 2 ^ 64) :
    (wheelTime start target : Int) = target - start := by
  simp only [wheelTime]
  omega

theorem wheelTime_of_lt (hlt : target < start) (hle : start - 2 ^ 64 ≤ target) :
    (wheelTime start target : Int) = target - start + 2 ^ 64 := by
  simp only [wheelTime]
  omega

/-- Targets from the start of the scheduler on keep their order. -/
theorem wheelTime_lt_iff (hstart : IsReading 0 start) (hnow : IsReading start now)
    (hle : start ≤ target) (hlt : target < start + 2 ^ 64) :
    wheelTime start now < wheelTime start target ↔ now < target := by
  obtain ⟨_, _⟩ := hstart
  obtain ⟨_, _⟩ := hnow
  have : (wheelTime start now : Int) = now - start := wheelTime_of_le (by omega) (by omega)
  have := wheelTime_of_le hle hlt
  omega

/-- The clock does not reach the time of the wheel for a target before the start. -/
theorem wheelTime_lt_of_before (hstart : IsReading 0 start) (hnow : IsReading start now)
    (hlt : target < start) (hle : -2 ^ 63 ≤ target) :
    wheelTime start now < wheelTime start target := by
  obtain ⟨_, _⟩ := hstart
  obtain ⟨_, _⟩ := hnow
  have : (wheelTime start now : Int) = now - start := wheelTime_of_le (by omega) (by omega)
  have := wheelTime_of_lt hlt (by omega)
  omega

/-- How far a target can be away. -/
theorem Request.target_bounds {r : Request} (hstart : IsReading 0 start)
    (h : r.Representable start) : -2 ^ 63 ≤ r.target ∧ r.target < start + 2 ^ 64 := by
  obtain ⟨_, _⟩ := hstart
  cases r with
  | setTimeoutFor now dt =>
    obtain ⟨⟨_, _⟩, _, _⟩ := h
    simp only [Request.target]
    omega
  | setTimeoutUntil tp =>
    obtain ⟨_, _⟩ := h
    simp only [Request.target]
    omega

end Conversion

section Steps

variable {start : Int} {s t : State} {x y : State × Wheel Ptr Int} {l : Call}

theorem timingWheel_step (ht : callStep start s l = some t) :
    t.timingWheel = follow (wheelTime start) s.timingWheel l := by
  obtain ⟨-, ht⟩ := Option.ite_none_right_eq_some.mp ht
  cases l with
  | setTimeout p v r now =>
    cases v <;>
    · simp only [Call.label, step, Option.ite_none_right_eq_some, Option.some.injEq] at ht
      obtain ⟨-, rfl⟩ := ht
      simp [State.arm, State.setPhase, follow, ticks_eq, timeoutT_delta]
  | timeoutCallback =>
    simp only [Call.label, step, Option.ite_none_right_eq_some] at ht
    obtain ⟨⟨q, w⟩, hget, rfl⟩ := Option.map_eq_some_iff.mp ht.2
    simp only [follow, hget, Option.elim_some, State.callback]
    split <;> rfl
  | _ =>
    simp only [Call.label, step, Option.ite_none_right_eq_some, Option.some.injEq] at ht
    obtain ⟨-, rfl⟩ := ht
    simp [State.setPhase, follow, ticks_eq]

/-- The wheel of the timer is the wheel of the targets with its times converted. -/
structure Agrees (start : Int) (x : State × Wheel Ptr Int) : Prop where
  wheel : x.1.timingWheel = x.2.map (wheelTime start)
  pending : ∀ e ∈ x.2.pending, start ≤ e.2 ∧ e.2 < start + 2 ^ 64

theorem Agrees.update (h : Agrees start x) (hstart : IsReading 0 start) {now : Int}
    (hnow : IsReading start now) :
    x.1.timingWheel.update (wheelTime start now) = (x.2.update now).map (wheelTime start) := by
  rw [h.wheel, Wheel.update_map]
  intro e he
  obtain ⟨hle, hlt⟩ := h.pending e he
  exact wheelTime_lt_iff hstart hnow hle hlt

theorem Agrees.dueExactly (h : Agrees start x) (hstart : IsReading 0 start) :
    DueExactly start x := by
  intro now hnow
  rw [ticks_eq, h.update hstart hnow, Wheel.expired_map]

theorem mem_pending_add {w : Wheel Ptr Int} {p : Ptr} {target : Int} {e : Ptr × Int}
    (he : e ∈ (w.add p target).pending) : e ∈ w.pending ∨ e = (p, target) := by
  unfold Wheel.add at he
  split at he
  · simpa using he
  · exact .inl he

/-- What is pending afterwards was pending before, or is the target of the call. -/
theorem mem_pending_follow {w : Wheel Ptr Int} {e : Ptr × Int}
    (he : e ∈ (follow id w l).pending) :
    e ∈ w.pending ∨ ∃ p v r now, l = .setTimeout p v r now ∧ e = (p, r.target) := by
  cases l with
  | setTimeout p v r now =>
    rcases mem_pending_add he with hold | rfl
    · exact .inl (List.mem_filter.mp hold).1
    · exact .inr ⟨p, v, r, now, rfl, rfl⟩
  | notifyAllTimeouts now => exact .inl (List.mem_filter.mp he).1
  | timeoutCallback =>
    refine .inl ?_
    simp only [follow, Wheel.get] at he
    split at he <;> simpa using he
  | returns p =>
    simp only [follow] at he
    split at he
    · exact .inl (List.mem_filter.mp he).1
    · exact .inl he
  | _ => exact .inl he

/-- With targets from the start on, both wheels do the same. -/
theorem Agrees.step (hstart : IsReading 0 start) (h : Agrees start x)
    (hafter : l.AfterStart start) (hs : targetStep start x l = some y) : Agrees start y := by
  obtain ⟨t, ht, rfl⟩ := observe_eq_some.mp hs
  obtain ⟨hrep, -⟩ := Option.ite_none_right_eq_some.mp ht
  refine ⟨?_, fun e he => ?_⟩
  · simp only [timingWheel_step ht, h.wheel]
    cases l with
    | setTimeout p v r now =>
      obtain ⟨hr, hnow⟩ := hrep
      have hupdate := h.update hstart hnow
      rw [h.wheel] at hupdate
      simp only [follow, id_eq, hupdate]
      exact Wheel.add_map _ _ (wheelTime_lt_iff hstart hnow hafter (r.target_bounds hstart hr).2)
    | notifyAllTimeouts now =>
      have hupdate := h.update hstart hrep
      rwa [h.wheel] at hupdate
    | timeoutCallback =>
      simp only [follow, Wheel.get_map]
      cases x.2.get <;> rfl
    | returns p =>
      simp only [follow, Wheel.expired_map, Wheel.del_map]
      split <;> rfl
    | _ => rfl
  · rcases mem_pending_follow he with hold | ⟨p, v, r, now, rfl, rfl⟩
    · exact h.pending e hold
    · exact ⟨hafter, (r.target_bounds hstart hrep.1).2⟩

/-- An earlier target is over when the call is made, and the timer does not find it due. -/
theorem Agrees.not_dueExactly (hstart : IsReading 0 start) (h : Agrees start x)
    (hafter : ¬ l.AfterStart start) (hs : targetStep start x l = some y) :
    ¬ DueExactly start y := by
  obtain ⟨t, ht, rfl⟩ := observe_eq_some.mp hs
  obtain ⟨hrep, -⟩ := Option.ite_none_right_eq_some.mp ht
  cases l with
  | setTimeout p v r now =>
    obtain ⟨hr, hnow⟩ := hrep
    have hbefore : r.target < start := by simpa [Call.AfterStart] using hafter
    have hwheel := wheelTime_lt_of_before hstart hnow hbefore (r.target_bounds hstart hr).1
    have hexact : ¬ now < r.target := by
      have := hnow.1
      omega
    intro hdue
    -- the entry is pending in the wheel of the timer and expired in the other one
    have hsame := hdue now hnow
    simp only [timingWheel_step ht, follow, id_eq, ticks_eq, Wheel.expired_update_add, hwheel,
      hexact, ↓reduceIte] at hsame
    simp [h.update hstart hnow] at hsame
  | _ => exact absurd trivial hafter

end Steps

/-- Task 0 sleeps for 100 ns, task 1 until a time that is over already. -/
def promptRun : List Call :=
  [.setTimeout 0 .withoutLock (.setTimeoutFor 1000 100) 1001,
    .setTimeout 1 .mutex (.setTimeoutUntil 1000) 1002, .notifyAllTimeouts 1050]

end JamSched.Timer
