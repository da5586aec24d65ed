import JamSched.Core.Cbor
import JamSched.Data.Broadcast

/-!
# The log manager

`LogManager` with any number of callers of `LogRaw`, the logger thread in `RunLoggerMainLoop`, and
the two calls of a shutdown: `ShutDown`, which clears `toContinue` of the scheduler, and
`StopLoggerMainLoop`. A critical section under `mAsyncBuffer` is one step, except that of the inner
loop of the logger: `ShutDown` and `StopLoggerMainLoop` take no lock, so they can come between its
test and the wait.

`LogRaw` notifies only when it has made the buffer one entry long, and the logger, once awake,
waits for two hundred.
-/
namespace JamSched.Data

open Machine

structure LogStreamObject where
  logKey : Bytes
  timeStamp : Nat
  encodedObject : Bytes
  deriving DecidableEq, Repr

/-- Where the logger thread stands in `RunLoggerMainLoop`. -/
inductive LoggerPc where
  | start
  /-- With `l1` locked, before the test of the outer loop. -/
  | head
  /-- `l1` is unlocked, the lock of the block is not yet taken. -/
  | enter
  /-- With the lock, before the test of the inner loop. -/
  | test
  /-- With the lock, before `cvAsyncBuffer.wait` has released it. -/
  | parking
  /-- In `cvAsyncBuffer.wait`, and no notification has come. -/
  | blocked
  /-- Notified, the lock is not yet taken again. -/
  | notified
  /-- The loop that sends `localBuffer`. -/
  | sending
  | eventLoop
  | returned
  deriving DecidableEq, Repr

/-- The logger holds `mAsyncBuffer`. -/
def LoggerPc.locked : LoggerPc → Bool
  | .head | .test | .parking => true
  | _ => false

structure LogManager where
  /-- `toContinue` of the scheduler. -/
  toContinue : Bool := true
  /-- The `appId` of `mainFogInfo`. -/
  mainFogInfo : Option Bytes := none
  /-- Calls of `LogRaw` that have made their object and not yet taken the lock. -/
  calls : List LogStreamObject := []
  asyncBufferEncoded : List LogStreamObject := []
  localBuffer : List LogStreamObject := []
  /-- The objects that were passed to `redisAsyncCommand`, in this order. -/
  sent : List LogStreamObject := []
  logger : LoggerPc := .start
  deriving DecidableEq, Repr

namespace LogManager

inductive Label where
  /-- `LogRaw` up to the lock; `dump` is the text of the object. -/
  | logRaw (nameSpace varName : Bytes) (timeStamp : Nat) (dump : Bytes)
  /-- The critical section of `LogRaw`. -/
  | push (lobj : LogStreamObject)
  /-- The logger thread moves. -/
  | logger
  | shutDown
  | stopLoggerMainLoop
  /-- The main connection changes. -/
  | connect (mainFogInfo : Option Bytes)
  deriving DecidableEq, Repr

variable (s : LogManager)

/-- `cvAsyncBuffer.notify_one()`; the logger is the only thread that waits. -/
def notifyOne : LogManager :=
  if s.logger = .blocked then { s with logger := .notified } else s

/-- The rest of `LogRaw`. -/
def pushBack (lobj : LogStreamObject) : LogManager :=
  let t := { s with
    calls := s.calls.erase lobj, asyncBufferEncoded := s.asyncBufferEncoded ++ [lobj] }
  if t.asyncBufferEncoded.length = 1 then t.notifyOne else t

def loggerStep : Option LogManager :=
  match s.logger with
  | .start => some { s with logger := .head }
  | .head => some { s with logger := if s.toContinue then .enter else .returned }
  | .enter | .notified => some { s with logger := .test }
  | .test =>
    if s.asyncBufferEncoded.length < 200 && s.toContinue then some { s with logger := .parking }
    else some { s with
      localBuffer := s.asyncBufferEncoded, asyncBufferEncoded := [], logger := .sending }
  | .parking => some { s with logger := .blocked }
  | .sending => match s.localBuffer with
    | [] => some { s with logger := .eventLoop }
    | lobj :: localBuffer => some { s with localBuffer, sent := s.sent ++ [lobj] }
  | .eventLoop => some { s with logger := .head }
  | .blocked | .returned => none

/-- `LogRaw` throws when there is no main connection. -/
def step : Label → Option LogManager
  | .logRaw nameSpace varName timeStamp dump =>
    match s.mainFogInfo with
    | none => some s
    | some appId => some { s with
        calls := s.calls ++
          [⟨convertToRedisKey appId nameSpace varName, timeStamp, Cbor.toCbor dump⟩] }
  | .push lobj =>
    if lobj ∈ s.calls ∧ s.logger.locked = false then some (s.pushBack lobj) else none
  | .logger => s.loggerStep
  | .shutDown => some { s with toContinue := false }
  | .stopLoggerMainLoop => some s.notifyOne
  | .connect mainFogInfo => some { s with mainFogInfo }

/-- The scheduler runs, the logger thread is started. -/
def initial : LogManager := {}

variable {s} {t : LogManager} {l : Label}

/-! ## The sleep of the logger -/

/-- If the logger sleeps and no notification has come, there is no full batch and the scheduler
goes on. -/
def Awake (s : LogManager) : Prop :=
  s.logger = .blocked → s.asyncBufferEncoded.length < 200 ∧ s.toContinue = true

/-- The step leaves no logger asleep with something to do: no entry completes a batch, and the
scheduler does not stop, while the logger sleeps, and the logger does not fall asleep after the
scheduler has stopped. -/
def KeepsAwake (s : LogManager) : Label → Prop
  | .push _ => s.logger = .blocked → s.asyncBufferEncoded.length + 1 < 200
  | .shutDown => s.logger ≠ .blocked
  | .logger => s.logger = .parking → s.toContinue = true
  | _ => True

instance (s : LogManager) : Decidable s.Awake := inferInstanceAs (Decidable (_ → _ ∧ _))

instance (s : LogManager) (l : Label) : Decidable (s.KeepsAwake l) :=
  match l with
  | .push _ => inferInstanceAs (Decidable (_ → _ < _))
  | .shutDown => inferInstanceAs (Decidable (_ ≠ _))
  | .logger => inferInstanceAs (Decidable (_ → _ = _))
  | .logRaw .. | .stopLoggerMainLoop | .connect _ => isTrue trivial

/-- Between its test and its wait the logger has the lock, so the buffer does not grow. -/
def ParksShort (s : LogManager) : Prop :=
  s.logger = .parking → s.asyncBufferEncoded.length < 200

theorem notifyOne_ne_blocked (s : LogManager) : s.notifyOne.logger ≠ .blocked := by
  unfold notifyOne
  split
  · simp
  · assumption

theorem notifyOne_eq_parking (h : s.notifyOne.logger = .parking) :
    s.logger = .parking ∧ s.notifyOne = s := by
  unfold notifyOne at h ⊢
  split at h <;> simp_all

/-- With the buffer not empty, `LogRaw` notifies nobody. -/
theorem pushBack_of_ne_nil (h : s.asyncBufferEncoded ≠ []) (lobj : LogStreamObject) :
    s.pushBack lobj = { s with
      calls := s.calls.erase lobj, asyncBufferEncoded := s.asyncBufferEncoded ++ [lobj] } := by
  simp [pushBack, h]

/-- After the critical section of `LogRaw` the logger sleeps only if it slept before and the buffer
was not empty. -/
theorem pushBack_blocked_iff (s : LogManager) (lobj : LogStreamObject) :
    (s.pushBack lobj).logger = .blocked ↔ s.logger = .blocked ∧ s.asyncBufferEncoded ≠ [] := by
  by_cases hnil : s.asyncBufferEncoded = []
  · simp [pushBack, hnil, notifyOne_ne_blocked]
  · simp [pushBack_of_ne_nil hnil, hnil]

theorem pushBack_buffer (s : LogManager) (lobj : LogStreamObject) :
    (s.pushBack lobj).asyncBufferEncoded = s.asyncBufferEncoded ++ [lobj] ∧
      (s.pushBack lobj).toContinue = s.toContinue := by
  unfold pushBack notifyOne
  dsimp only
  split
  · split <;> simp
  · simp

theorem ParksShort.step (h : s.ParksShort) (ht : s.step l = some t) : t.ParksShort := by
  cases l with
  | logRaw =>
    simp only [LogManager.step] at ht
    split at ht <;> (cases ht; exact h)
  | push lobj =>
    simp only [LogManager.step] at ht
    split at ht
    · next hlock =>
      cases ht
      intro hpark
      exfalso
      unfold pushBack at hpark
      dsimp only at hpark
      split at hpark
      · have := (notifyOne_eq_parking hpark).1
        simp_all [LoggerPc.locked]
      · simp_all [LoggerPc.locked]
    · cases ht
  | logger =>
    intro hpark
    cases hpc : s.logger <;> simp only [LogManager.step, loggerStep, hpc] at ht
    case test =>
      split at ht
      · next hcond =>
        cases ht
        simp only [Bool.and_eq_true, decide_eq_true_eq] at hcond
        exact hcond.1
      · cases ht
        cases hpark
    case head =>
      cases ht
      cases hc : s.toContinue <;> simp [hc] at hpark
    case sending =>
      split at ht <;> (cases ht; simp at hpark)
    case start | enter | notified | parking | eventLoop =>
      cases ht
      cases hpark
    case blocked | returned => cases ht
  | shutDown =>
    cases ht
    exact h
  | stopLoggerMainLoop =>
    cases ht
    intro hpark
    obtain ⟨hs, heq⟩ := notifyOne_eq_parking hpark
    rw [heq]
    exact h hs
  | connect =>
    cases ht
    exact h

/-- A step keeps the logger awake exactly when it meets the condition. -/
theorem awake_step_iff (hp : s.ParksShort) (h : s.Awake) (ht : s.step l = some t) :
    t.Awake ↔ s.KeepsAwake l := by
  cases l with
  | logRaw =>
    simp only [LogManager.step] at ht
    split at ht <;> (cases ht; exact iff_of_true h trivial)
  | push lobj =>
    simp only [LogManager.step] at ht
    split at ht
    · cases ht
      obtain ⟨hbuf, hcont⟩ := pushBack_buffer s lobj
      simp only [Awake, KeepsAwake, pushBack_blocked_iff, hbuf, hcont, List.length_append,
        List.length_singleton]
      constructor
      · intro hawake hblocked
        by_cases hnil : s.asyncBufferEncoded = []
        · simp [hnil]
        · exact (hawake ⟨hblocked, hnil⟩).1
      · rintro hshort ⟨hblocked, -⟩
        exact ⟨hshort hblocked, (h hblocked).2⟩
    · cases ht
  | logger =>
    simp only [KeepsAwake]
    cases hpc : s.logger <;> simp only [LogManager.step, loggerStep, hpc] at ht
    case parking =>
      cases ht
      simp [Awake, hp hpc]
    case test =>
      split at ht <;> (cases ht; exact iff_of_true (by simp [Awake]) (by simp))
    case head =>
      cases ht
      refine iff_of_true (fun hb => ?_) (by simp)
      cases hc : s.toContinue <;> simp [hc] at hb
    case sending =>
      split at ht <;> (cases ht; exact iff_of_true (by simp [Awake]) (by simp))
    case start | enter | notified | eventLoop =>
      cases ht
      exact iff_of_true (by simp [Awake]) (by simp)
    case blocked | returned => cases ht
  | shutDown =>
    cases ht
    simp [Awake, KeepsAwake]
  | stopLoggerMainLoop =>
    cases ht
    exact iff_of_true (fun hb => absurd hb (notifyOne_ne_blocked s)) trivial
  | connect =>
    cases ht
    exact iff_of_true h trivial

/-- In every run: in every state in which the logger sleeps and no notification has come, the
buffer is short of a batch and the scheduler goes on, exactly when every step of the run meets
the condition. -/
theorem awake_iff {ls : List Label} (hr : run step initial ls = some s) :
    Always step Awake initial ls ↔ Along step KeepsAwake initial ls :=
  always_iff_along (I := ParksShort) (fun _ _ _ hp ht => hp.step ht)
    (fun _ _ _ hp h ht => awake_step_iff hp h ht) (by simp [ParksShort, initial])
    (by decide) hr

/-- One entry is logged while the logger waits, and it looks and waits on; then it goes on to
batch and to stop. -/
def oneEntryRun : List Label :=
  [.connect (some [97]), .logger, .logger, .logger, .logger, .logger, .logRaw [110] [118] 5 [49],
    .push ⟨convertToRedisKey [97] [110] [118], 5, Cbor.toCbor [49]⟩, .logger, .shutDown, .logger,
    .logger, .logger, .logger, .logger]

theorem awake_oneEntryRun : Always step Awake initial oneEntryRun := by
  have hrun : (run step initial oneEntryRun).isSome = true := by decide
  obtain ⟨s, hs⟩ := Option.isSome_iff_exists.mp hrun
  exact (awake_iff hs).mpr (by decide)

/-- The logger sleeps on while the buffer grows from one entry to any number. -/
theorem blocked_of_pushes (n : Nat) :
    ∃ ls s, run step initial ls = some s ∧ s.logger = .blocked ∧
      s.asyncBufferEncoded.length = n + 1 ∧ s.toContinue = true ∧ s.mainFogInfo = some [97] ∧
      s.calls = [] := by
  induction n with
  | zero =>
    have hreach : ∃ s, run step initial (oneEntryRun.take 9 ++ [.logger, .logger]) = some s ∧
        s.logger = .blocked ∧ s.asyncBufferEncoded.length = 1 ∧ s.toContinue = true ∧
        s.mainFogInfo = some [97] ∧ s.calls = [] := run_reaches (by decide)
    exact ⟨_, hreach⟩
  | succ n ih =>
    obtain ⟨ls, s, hr, hpc, hlen, hcont, hfog, hcalls⟩ := ih
    have hne : s.asyncBufferEncoded ≠ [] := by
      intro hnil
      simp [hnil] at hlen
    let lobj : LogStreamObject := ⟨convertToRedisKey [97] [] [], 0, Cbor.toCbor []⟩
    refine ⟨ls ++ [.logRaw [] [] 0 [], .push lobj],
      { s with asyncBufferEncoded := s.asyncBufferEncoded ++ [lobj] },
      run_append.mpr ⟨s, hr, ?_⟩, hpc, by simp [hlen], hcont, hfog, hcalls⟩
    simp [run, step, hfog, hcalls, hpc, LoggerPc.locked, pushBack, hne, lobj]

/-- The scheduler stops between the test of the logger and its wait: the one notification of
`StopLoggerMainLoop` comes too early, and the logger sleeps with nobody left to wake it. -/
def lostStopRun : List Label :=
  [.logger, .logger, .logger, .logger, .shutDown, .stopLoggerMainLoop, .logger]

/-- The logger sleeps beside two hundred entries, and it sleeps after the scheduler has stopped
and `StopLoggerMainLoop` has returned. -/
theorem not_awake_lostStopRun :
    (∃ ls s, run step initial ls = some s ∧ s.logger = .blocked ∧
      s.asyncBufferEncoded.length = 200 ∧ s.toContinue = true) ∧
    (run step initial lostStopRun).map (fun s => (s.logger, s.toContinue)) =
      some (.blocked, false) ∧
    ¬ Always step Awake initial lostStopRun := by
  refine ⟨?_, by decide, by decide⟩
  obtain ⟨ls, s, hr, hpc, hlen, hcont, -⟩ := blocked_of_pushes 199
  exact ⟨ls, s, hr, hpc, hlen, hcont⟩

end LogManager

end JamSched.Data
