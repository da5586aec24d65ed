import JamSched.Core.Task

/-!
# Spin mutexes and the status word of a wait

`SpinMutex::lock` gives up the processor after every twentieth failed attempt, through
`ctask::Yield`, so taking a spin mutex can enter a scheduler. `SpinOnlyMutex`, the type of
every `qMutex`, never does.

`cvStatus` is the word on which a notifier and the timer settle who wakes a waiting task.
-/
namespace JamSched

/-! ## int -/

/-- A value stored in an `int` of 32 bits. -/
def int32 (n : Int) : Int := n.bmod (2 ^ 32)

theorem int32_eq {n : Int} (hle : -2147483648 ≤ n) (hlt : n < 2147483648) : int32 n = n :=
  Int.bmod_eq_of_le (by simpa using hle) (by simpa using hlt)

/-! ## SpinMutex -/

/-- The calls to `ctask::Yield` that `SpinMutex::lock` makes in its next `fails` failed
attempts, when the loop counter stands at `cnt` and the thread runs a task. -/
def spinYields : (fails cnt : Nat) → Nat
  | 0, _ => 0
  | fails + 1, cnt => (if cnt % 20 = 0 then 1 else 0) + spinYields fails ((cnt + 1) % 20)

theorem spinYields_eq_zero (fails cnt : Nat) (h₁ : 1 ≤ cnt) (h₂ : cnt ≤ 20) :
    spinYields fails (cnt % 20) = 0 ↔ fails + cnt ≤ 20 := by
  induction fails generalizing cnt with
  | zero => simpa [spinYields] using h₂
  | succ n ih =>
    by_cases hc : cnt = 20
    · simp [spinYields, hc]
    · have hmod : cnt % 20 = cnt := Nat.mod_eq_of_lt (by omega)
      have hne : cnt ≠ 0 := by omega
      simp only [spinYields, hmod, hne, if_false, Nat.zero_add]
      rw [ih (cnt + 1) (by omega) (by omega)]
      omega

/-- `lock` starts its counter at one: the first call to `Yield` is at the twentieth failure. -/
theorem spinYields_pos (fails : Nat) : 0 < spinYields fails 1 ↔ 20 ≤ fails := by
  have h := spinYields_eq_zero fails 1 (by omega) (by omega)
  simp only [Nat.reduceMod] at h
  omega

/-! ## cvStatus -/

/-- The values of `TaskInterface::cvStatus`. -/
inductive CvStatus where
  /-- `0`: an untimed wait, or a sleep. -/
  | zero
  /-- The address of the condition variable of a timed wait. -/
  | cv (addr : Nat)
  /-- `-1`: a notifier has claimed the timed wait. -/
  | notified
  /-- `-2`: the timer has run the callback of the task. -/
  | timedOut
  deriving DecidableEq, Repr

/-- What `notify_one` and `notify_all` do with the word of a task they popped: the
compare-exchange, then the test for an untimed wait. The second component says whether the
task is passed to `EnableImmediately`. -/
def CvStatus.notify (this : Nat) (w : CvStatus) : CvStatus × Bool :=
  if w = .cv this then (.notified, true) else (w, decide (w = .zero))

/-- The exchange of `Timer::TimeoutCallback`, and whether it enables the task. -/
def CvStatus.timeout (w : CvStatus) : CvStatus × Bool :=
  (.timedOut, decide (w ≠ .notified))

@[simp] theorem CvStatus.notify_this (this : Nat) :
    CvStatus.notify this (.cv this) = (.notified, true) := by
  simp [CvStatus.notify]

@[simp] theorem CvStatus.notify_timedOut (this : Nat) :
    CvStatus.notify this .timedOut = (.timedOut, false) := by
  simp [CvStatus.notify]

@[simp] theorem CvStatus.notify_notified (this : Nat) :
    CvStatus.notify this .notified = (.notified, false) := by
  simp [CvStatus.notify]

theorem CvStatus.notify_enables (this : Nat) (w : CvStatus) :
    (w.notify this).2 = true ↔ w = .cv this ∨ w = .zero := by
  unfold CvStatus.notify
  split <;> simp_all

end JamSched
