import JamSched.Remote.State

/-!
# Remote executions

The six ways to execute remotely, as one machine with a program counter. They differ in the
connection they use, in the table entries they make and in what a failing exit does, and share
the retry loop. A step is one critical section of `mCallback`, the end of one wait, or one
access to the counter, the once-flag or the promise that the attempts of a call share.

The loop tests `retryNum < 3` at its head and once more after a timeout, so the code behind
the second test, with the only `ackLookup.erase` and `AckTimedOut`, is never reached.
-/
namespace JamSched.Remote

namespace State

/-- Call the user's callback while holding `held`. -/
def invoke (s : State) (k : Nat) (error : Option Reason) (held : LockMode) : State :=
  { s with callbacks := ⟨k, error, held⟩ :: s.callbacks }

/-- `CreateRExecSyncWithTimeout` returns. -/
def returnValue (s : State) (a : Nat) (value : Json) : State :=
  s.updAttempt a fun t => { t with returned := some value, pc := .ended .returned }

/-- What a failing exit does. -/
def failWith (s : State) (a : Nat) (e : Reason) (k : Cont) : State :=
  match (s.attempt a).kind with
  | .async => s.setPc a (.report e k)
  | .asyncNT _ | .syncTask _ => s.setPc a (.count e k)
  | .syncTimeout => s.returnValue a (.exception e.text)

/-- No connection before the registration. `CreateRExecAsyncWithCallback` calls back with `lk`
still locked, the others unlock first. -/
def refuse (s : State) (a : Nat) : State :=
  match (s.attempt a).kind with
  | .async =>
    (s.invoke (s.attempt a).call (some .heartbeatFailure) .exclusive).setPc a
      (.ended (.failed .heartbeatFailure))
  | _ => s.failWith a .heartbeatFailure .leave

/-- `rExecPending.insert`. -/
def insertPending (s : State) (c : Ptr) (id : Nat) : State :=
  s.updConn c fun i =>
    { i with rExecPending := if id ∈ i.rExecPending then i.rExecPending else id :: i.rExecPending }

/-- The insertion into some connection's `rExecPending`, for an attempt sent through `c`.
The host variant of `CreateRetryTaskSync` inserts into `mainFogInfo`. -/
def enrol (s : State) (k : Kind) (c : Ptr) (id : Nat) : State :=
  match k with
  | .async | .asyncNT none => s
  | .asyncNT (some _) | .syncTask none | .syncTimeout => s.insertPending c id
  | .syncTask (some _) =>
    match s.mainFogInfo with
    | some m => s.insertPending m id
    | none => { s with crashed := true }

/-- Take an identifier and move the promises into the tables. -/
def allocate (s : State) (a : Nat) (c : Ptr) : State :=
  ({ s with
    eIdFactory := (s.eIdFactory + 1) % 2 ^ 32
    ackLookup := Function.update s.ackLookup s.eIdFactory (some a)
    rLookup := if (s.attempt a).kind.isSync then
      Function.update s.rLookup s.eIdFactory (some a) else s.rLookup
    allocs := s.allocs + 1 }.updAttempt a fun t =>
      { t with
        pc := .publish 0, tempEID := s.eIdFactory, registered := true, serial := s.allocs }).updConn
    c fun i => { i with sent := a :: i.sent }

/-- The registration. -/
def register (s : State) (a : Nat) (c : Ptr) : State :=
  (s.allocate a c).enrol (s.attempt a).kind c s.eIdFactory

/-- `mqtt_publish` in the retry loop. -/
def send (s : State) (a : Nat) (c : Ptr) (n : Nat) : State :=
  let s := s.publish c (.rexec (s.attempt a).tempEID)
  let s := s.updConn c fun i => { i with sent := a :: i.sent }
  s.setPc a (.waitAck n)

/-- The loop condition is false. -/
def leaveLoop (s : State) (a : Nat) : State :=
  if (s.attempt a).kind.isSync then s.setPc a .waitRes else s.setPc a (.ended .unanswered)

/-- `ackLookup.erase(tempEID)`, and `rLookup.erase(tempEID)` in the synchronous variants. -/
def eraseEntries (s : State) (a : Nat) : State :=
  let t := s.attempt a
  { s with
    ackLookup := Function.update s.ackLookup t.tempEID none
    rLookup := if t.kind.isSync then Function.update s.rLookup t.tempEID none else s.rLookup }

/-- `futureAck.get()` is true. -/
def acked (s : State) (a : Nat) : State :=
  if (s.attempt a).kind.isSync then s.setPc a .waitRes else s.setPc a .succeed

/-- `futureAck.get()` is false. The host variant of `CreateRetryTaskSync` goes on to the wait
for the result, whether it was the one to report or not. -/
def nacked (s : State) (a : Nat) : State :=
  match (s.attempt a).kind with
  | .syncTask (some _) => s.failWith a .heartbeatFailure .throughAck
  | _ => s.failWith a .heartbeatFailure .leave

/-- The end of `fuExec.wait_for` and what follows. `CreateRExecSyncWithTimeout` returns
`fuExec.get().second` whatever the first component is. -/
def getResult (s : State) (a : Nat) : State :=
  match (s.attempt a).res with
  | none =>
    if (s.attempt a).kind = .syncTimeout then s.failWith a .valueTimeout .leave
    else s.failWith a .executionTimeout .inTry
  | some valueResult =>
    if (s.attempt a).kind = .syncTimeout then s.returnValue a valueResult.2
    else if valueResult.1 then s.setPc a .succeed
    else s.failWith a .heartbeatFailure .inTry

/-- Where a counted and possibly reported failure goes on. -/
def afterFailure (e : Reason) : Cont → Pc
  | .leave | .inTry => .ended (.failed e)
  | .throughAck => .waitRes

/-- `call_once` with `prCommon->set_value` of the result. A `set_value` that throws leaves the
flag open and enters the `catch` block. -/
def announceValue (s : State) (a k : Nat) : State :=
  if (s.call k).successCallOnceFlag then s.setPc a (.ended .succeeded)
  else if (s.call k).prCommon.isSome then
    (s.updCall k fun r => { r with throws := r.throws + 1 }).setPc a
      (.count .alreadySatisfied .leave)
  else
    (s.updCall k fun r =>
      { r with prCommon := (s.attempt a).res, successCallOnceFlag := true }).setPc a
      (.ended .succeeded)

/-- `successCallback`, or `call_once` with it or with `prCommon->set_value`. -/
def announce (s : State) (a : Nat) : State :=
  match (s.attempt a).kind with
  | .async => (s.invoke (s.attempt a).call none .unlocked).setPc a (.ended .succeeded)
  | .asyncNT _ =>
    if (s.call (s.attempt a).call).successCallOnceFlag then s.setPc a (.ended .succeeded)
    else
      ((s.updCall (s.attempt a).call fun r => { r with successCallOnceFlag := true }).invoke
        (s.attempt a).call none .unlocked).setPc a (.ended .succeeded)
  | .syncTask _ => s.announceValue a (s.attempt a).call
  | .syncTimeout => s

/-- `failureCountCommon->fetch_add(1U) == countCommon`. -/
def countFailure (s : State) (a : Nat) (e : Reason) (cont : Cont) : State :=
  (s.updCall (s.attempt a).call fun r =>
    { r with failureCountCommon := r.failureCountCommon + 1 }).updAttempt a fun t =>
      { t with
        counts := t.counts + 1
        pc := if (s.call t.call).failureCountCommon = (s.call t.call).countCommon then
          .report e cont else afterFailure e cont }

/-- `prCommon->set_value` with an exception value. If it throws, the exception is caught only
inside of the `try` block. -/
def reportValue (s : State) (a k : Nat) (e : Reason) (cont : Cont) : State :=
  if (s.call k).prCommon.isNone then
    (s.updCall k fun r => { r with prCommon := some (false, .exception e.text) }).setPc a
      (afterFailure e cont)
  else if cont = .inTry then
    (s.updCall k fun r => { r with throws := r.throws + 1 }).setPc a
      (.count .alreadySatisfied .leave)
  else { s.updCall k fun r => { r with throws := r.throws + 1 } with crashed := true }

/-- `failureCallback`, or `prCommon->set_value`. -/
def reportFailure (s : State) (a : Nat) (e : Reason) (cont : Cont) : State :=
  match (s.attempt a).kind with
  | .async | .asyncNT _ =>
    (s.invoke (s.attempt a).call (some e) .unlocked).setPc a (afterFailure e cont)
  | .syncTask _ => s.reportValue a (s.attempt a).call e cont
  | .syncTimeout => s

/-- One step of an attempt. -/
def advance (s : State) (a : Nat) : State :=
  match (s.attempt a).pc with
  | .start =>
    match s.up (s.attempt a).kind with
    | none => s.refuse a
    | some c => s.register a c
  | .publish n =>
    if n < 3 then
      match s.up (s.attempt a).kind with
      | none => s.failWith a .heartbeatFailure .leave
      | some c => s.send a c n
    else s.leaveLoop a
  | .waitAck n =>
    match (s.attempt a).ack with
    | none =>
      if n < 3 then s.setPc a (.publish (n + 1))
      else (s.eraseEntries a).failWith a .ackTimedOut .leave
    | some true => s.acked a
    | some false => s.nacked a
  | .waitRes => s.getResult a
  | .succeed => s.announce a
  | .count e k => s.countFailure a e k
  | .report e k => s.reportFailure a e k
  | .ended _ => s

/-- The attempts a call makes, in the order of their creation. -/
def kinds (s : State) : Entry → List Kind
  | .async => [.async]
  | .asyncEach => (s.cloudFogInfo.map fun p => .asyncNT (some p.1)) ++ [.asyncNT none]
  | .sync => [.syncTimeout]
  | .syncEach => .syncTask none :: s.cloudFogInfo.map fun p => .syncTask (some p.1)

/-- A call of the application, which fixes the number of connections. The attempts of a call
may then start in any order. -/
def create (s : State) (entry : Entry) : State :=
  let kinds := s.kinds entry
  { s with
    attempt := fun a =>
      if a < s.nAttempts then s.attempt a
      else match kinds[a - s.nAttempts]? with
        | some kind => { kind := kind, call := s.nCalls }
        | none => s.attempt a
    nAttempts := s.nAttempts + kinds.length
    call := Function.update s.call s.nCalls
      { entry := entry
        countCommon := kinds.length - 1
        members := List.range' s.nAttempts kinds.length }
    nCalls := s.nCalls + 1 }

section Fields

variable (s : State) (a : Nat)

@[simp] theorem updAttempt_self (f : Attempt → Attempt) :
    (s.updAttempt a f).attempt a = f (s.attempt a) := by
  simp [updAttempt]

@[simp] theorem setPc_self (pc : Pc) :
    (s.setPc a pc).attempt a = { s.attempt a with pc := pc } := by
  simp [setPc]

@[simp] theorem updCall_self (k : Nat) (f : Call → Call) :
    (s.updCall k f).call k = f (s.call k) := by
  simp [updCall]

@[simp] theorem updCall_attempt (k : Nat) (f : Call → Call) :
    (s.updCall k f).attempt = s.attempt := rfl

@[simp] theorem updAttempt_call (f : Attempt → Attempt) : (s.updAttempt a f).call = s.call := rfl

@[simp] theorem setPc_call (pc : Pc) : (s.setPc a pc).call = s.call := rfl

@[simp] theorem invoke_call (k : Nat) (e : Option Reason) (held : LockMode) :
    (s.invoke k e held).call = s.call := rfl

@[simp] theorem invoke_attempt (k : Nat) (e : Option Reason) (held : LockMode) :
    (s.invoke k e held).attempt = s.attempt := rfl

@[simp] theorem enrol_attempt (k : Kind) (c : Ptr) (id : Nat) :
    (s.enrol k c id).attempt = s.attempt := by
  unfold enrol
  split <;> try rfl
  split <;> rfl

@[simp] theorem register_self (c : Ptr) : (s.register a c).attempt a =
    { s.attempt a with
      pc := .publish 0, tempEID := s.eIdFactory, registered := true, serial := s.allocs } := by
  simp [register, allocate, updConn]

@[simp] theorem send_self (c : Ptr) (n : Nat) :
    (s.send a c n).attempt a = { s.attempt a with pc := .waitAck n } := by
  simp [send, updConn, State.publish]

@[simp] theorem countFailure_self (e : Reason) (cont : Cont) :
    (s.countFailure a e cont).attempt a =
      { s.attempt a with
        counts := (s.attempt a).counts + 1
        pc := if (s.call (s.attempt a).call).failureCountCommon =
            (s.call (s.attempt a).call).countCommon then
          .report e cont else afterFailure e cont } :=
  updAttempt_self _ a _

end Fields

end State

end JamSched.Remote
