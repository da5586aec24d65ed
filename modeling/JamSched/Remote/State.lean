import JamSched.Core.Task
import JamSched.Core.Json

/-!
# State of the remote layer

`Remote` with its connections, its two promise tables and the remote executions in progress.
Connections and executions are named by numbers: a connection by the address of its
`CloudFogInfo`, which the allocator may use again once the object is destroyed, an attempt and
a call by the order of creation. A promise lives in the record of the attempt that made it; the
tables hold the attempt, so moving a new promise over an old one drops the old one.

Fields marked as history are written and never read by the steps.
-/
namespace JamSched.Remote

/-- What `mCallback` is locked for by the thread that runs. -/
inductive LockMode where
  | unlocked | shared | exclusive
  deriving DecidableEq, Repr

/-- The six ways to execute remotely; `none` is the main connection. -/
inductive Kind where
  /-- `CreateRExecAsyncWithCallback` and its `CreateRetryTask`. -/
  | async
  /-- `CreateRExecAsyncWithCallbackNT` and its `CreateRetryTask`. -/
  | asyncNT (host : Option String)
  /-- `CreateRetryTaskSync`. -/
  | syncTask (host : Option String)
  /-- `CreateRExecSyncWithTimeout`. -/
  | syncTimeout
  deriving DecidableEq, Repr

/-- The kinds that also wait for a result. -/
def Kind.isSync : Kind → Bool
  | .async | .asyncNT _ => false
  | .syncTask _ | .syncTimeout => true

/-- Why an attempt failed. -/
inductive Reason where
  | heartbeatFailure | ackTimedOut | executionTimeout | valueTimeout | alreadySatisfied
  deriving DecidableEq, Repr

/-- The text beside `"exception"` in the value of a synchronous call. -/
def Reason.text : Reason → String
  | .heartbeatFailure => "heartbeat failed"
  | .ackTimedOut => "retry failed"
  | .executionTimeout => "execution timeout"
  | .valueTimeout => "value timeout"
  | .alreadySatisfied => "promise_already_satisfied"

/-- Where a counted failure goes on. -/
inductive Cont where
  /-- `return`. -/
  | leave
  /-- Behind the retry loop, to the wait for the result. -/
  | throughAck
  /-- `return` from inside of the `try` block. -/
  | inTry
  deriving DecidableEq, Repr

inductive Outcome where
  | succeeded
  | failed (e : Reason)
  /-- Left the retry loop at its condition, with no callback. -/
  | unanswered
  /-- `CreateRExecSyncWithTimeout` has returned. -/
  | returned
  deriving DecidableEq, Repr

/-- Program counter of an attempt. -/
inductive Pc where
  /-- Before the registration. -/
  | start
  /-- At the head of the retry loop with `retryNum = n`. -/
  | publish (n : Nat)
  /-- In `futureAck.wait_for`. -/
  | waitAck (n : Nat)
  /-- In `fuExec.wait_for`. -/
  | waitRes
  /-- About to announce the success. -/
  | succeed
  /-- About to add one to the failure counter. -/
  | count (e : Reason) (k : Cont)
  /-- About to report the failure. -/
  | report (e : Reason) (k : Cont)
  | ended (o : Outcome)
  deriving DecidableEq, Repr

structure Attempt where
  kind : Kind := .async
  call : Nat := 0
  pc : Pc := .start
  tempEID : Nat := 0
  /-- State of the promise behind `futureAck`. -/
  ack : Option Bool := none
  /-- State of the promise behind `fuExec`. -/
  res : Option (Bool × Json) := none
  /-- What `CreateRExecSyncWithTimeout` returned. -/
  returned : Option Json := none
  /-- History: the tables were given its promises, after `serial` others. -/
  registered : Bool := false
  serial : Nat := 0
  /-- History: times it added one to the failure counter. -/
  counts : Nat := 0
  /-- History: its REXEC-ACK was handled while it was in the retry loop. -/
  acknowledged : Bool := false
  /-- History: its REXEC-RES was handled while it was in the retry loop or the wait behind. -/
  received : Bool := false

instance : Inhabited Attempt := ⟨{}⟩

/-- The functions an application calls. -/
inductive Entry where
  /-- `CreateRExecAsyncWithCallback`. -/
  | async
  /-- `CreateRExecAsyncWithCallbackToEachConnection`. -/
  | asyncEach
  /-- `CreateRExecSync` with its `CreateRExecSyncWithTimeout`. -/
  | sync
  /-- `CreateRExecSyncToEachConnection`. -/
  | syncEach
  deriving DecidableEq, Repr

/-- What the attempts of one call share. -/
structure Call where
  entry : Entry := .async
  countCommon : Nat := 0
  members : List Nat := []
  failureCountCommon : Nat := 0
  successCallOnceFlag : Bool := false
  /-- State of the promise behind `fuCommon`. -/
  prCommon : Option (Bool × Json) := none
  /-- History: calls of `prCommon->set_value` that threw. -/
  throws : Nat := 0

instance : Inhabited Call := ⟨{}⟩

structure CloudFogInfo where
  isRegistered : Bool := false
  isExpired : Bool := false
  rExecPending : List Nat := []
  pongCounter : Nat := 0
  cloudFogInfoCounter : Nat := 0
  /-- History: attempts registered or published through this object. -/
  sent : List Nat := []
  deriving DecidableEq, Repr

instance : Inhabited CloudFogInfo := ⟨{}⟩

/-- A call of `successCallback` (`none`) or `failureCallback`. -/
structure Callback where
  call : Nat
  error : Option Reason
  /-- What the invoking thread holds. -/
  held : LockMode
  deriving DecidableEq, Repr

/-- What `mqtt_publish` is given. -/
inductive Packet where
  | register | getCFInfo | pong
  | rexecAck (actId : Nat)
  | rexec (actId : Nat)
  | reply
  deriving DecidableEq, Repr

structure State where
  appId : String := ""
  /-- Names in `localFuncMap` of the scheduler. -/
  localFuncMap : List String := []
  toContinue : Bool := true
  ribSchedulerShutdownFlag : Bool := false
  eIdFactory : Nat := 0
  mainFogInfo : Option Ptr := none
  cloudFogInfo : List (String × Ptr) := []
  isValidConnection : List Ptr := []
  conn : Ptr → CloudFogInfo := fun _ => {}
  ackLookup : Nat → Option Nat := fun _ => none
  rLookup : Nat → Option Nat := fun _ => none
  /-- Keys of the cache, the latest first. -/
  cache : List Nat := []
  attempt : Nat → Attempt := fun _ => {}
  nAttempts : Nat := 0
  call : Nat → Call := fun _ => {}
  nCalls : Nat := 0
  /-- History: callbacks, the latest first. -/
  callbacks : List Callback := []
  published : List (Ptr × Packet) := []
  /-- History: actid and args of the REXEC-RES messages handled. -/
  answers : List (Nat × Json) := []
  /-- History: identifiers given out. -/
  allocs : Nat := 0
  /-- The process is gone: a null pointer, or an exception that nobody catches. -/
  crashed : Bool := false

namespace State

/-- The object at `c` is alive. -/
def Owned (s : State) (c : Ptr) : Prop :=
  s.mainFogInfo = some c ∨ c ∈ s.cloudFogInfo.map Prod.snd

instance (s : State) (c : Ptr) : Decidable (s.Owned c) :=
  inferInstanceAs (Decidable (_ ∨ _))

def updConn (s : State) (c : Ptr) (f : CloudFogInfo → CloudFogInfo) : State :=
  { s with conn := Function.update s.conn c (f (s.conn c)) }

def updAttempt (s : State) (a : Nat) (f : Attempt → Attempt) : State :=
  { s with attempt := Function.update s.attempt a (f (s.attempt a)) }

def updCall (s : State) (k : Nat) (f : Call → Call) : State :=
  { s with call := Function.update s.call k (f (s.call k)) }

def setPc (s : State) (a : Nat) (pc : Pc) : State :=
  s.updAttempt a fun t => { t with pc := pc }

def publish (s : State) (c : Ptr) (p : Packet) : State :=
  { s with published := (c, p) :: s.published }

/-- The connection an attempt asks for: `mainFogInfo`, or `cloudFogInfo.find(hostName)`. -/
def target (s : State) : Kind → Option Ptr
  | .async | .asyncNT none | .syncTask none | .syncTimeout => s.mainFogInfo
  | .asyncNT (some host) | .syncTask (some host) => s.cloudFogInfo.lookup host

/-- The connection if it is there and registered. -/
def up (s : State) (k : Kind) : Option Ptr :=
  (s.target k).filter fun c => (s.conn c).isRegistered

/-- `make_unique<CloudFogInfo>` puts a new object at `c`. -/
def construct (s : State) (c : Ptr) : State := s.updConn c fun _ => {}

end State

/-- `Remote::Remote`, with whatever value the uninitialised `eIdFactory` has. -/
def init (appId : String) (localFuncMap : List String) (eIdFactory : Nat) (fresh : Ptr) :
    State :=
  { appId := appId
    localFuncMap := localFuncMap
    eIdFactory := eIdFactory % 2 ^ 32
    mainFogInfo := some fresh
    isValidConnection := [fresh] }

/-- Outcome of code that may throw, with the state in which it did. -/
abbrev Result := Except State State

section Promises

/-- `set_value` of the promise behind `futureAck`. -/
def setAck (s : State) (a : Nat) (value : Bool) : Result :=
  if (s.attempt a).ack.isSome then .error s
  else .ok (s.updAttempt a fun t => { t with ack := some value })

/-- `set_value` of the promise behind `fuExec`. -/
def setRes (s : State) (a : Nat) (value : Bool × Json) : Result :=
  if (s.attempt a).res.isSome then .error s
  else .ok (s.updAttempt a fun t => { t with res := some value })

/-- A loop of `CloudFogInfo::Clear`: complete the promise of every identifier that has one. -/
def failEach (lookup : State → Nat → Option Nat) (complete : State → Nat → Result) (s : State) :
    List Nat → Result
  | [] => .ok s
  | id :: ids =>
    match lookup s id with
    | none => failEach lookup complete s ids
    | some a => (complete s a).bind fun s => failEach lookup complete s ids

/-- First loop of `CloudFogInfo::Clear`. -/
def failAcks : State → List Nat → Result :=
  failEach State.ackLookup fun s a => setAck s a false

/-- Second loop of `CloudFogInfo::Clear`; `nlohmann::json({})` is the empty object. -/
def failResults : State → List Nat → Result :=
  failEach State.rLookup fun s a => setRes s a (false, .obj [])

/-- `CloudFogInfo::Clear`. The tables keep their entries. -/
def clear (s : State) (c : Ptr) : Result :=
  (failAcks (s.updConn c fun i => { i with isRegistered := false })
    (s.conn c).rExecPending).bind fun t => failResults t (s.conn c).rExecPending

end Promises

section Expiry

/-- The part of a `CheckExpire` round about the main connection. -/
def expireMain (s : State) (fresh : Ptr) : Result :=
  match s.mainFogInfo with
  | some c =>
    if (s.conn c).isExpired then
      (clear s c).map fun s =>
        { s with
          isValidConnection := s.isValidConnection.filter (· ≠ c)
          mainFogInfo := none }
    else .ok (s.updConn c fun i => { i with isExpired := true })
  | none =>
    let s := s.construct fresh
    .ok { s with mainFogInfo := some fresh, isValidConnection := fresh :: s.isValidConnection }

/-- Its loop over `cloudFogInfo`, which collects `expiredHosts`. -/
def expireLoop (s : State) (expiredHosts : List String) :
    List (String × Ptr) → Except State (State × List String)
  | [] => .ok (s, expiredHosts)
  | (host, c) :: rest =>
    if (s.conn c).isExpired then
      (clear s c).bind fun s => expireLoop s (expiredHosts ++ [host]) rest
    else
      expireLoop (s.updConn c fun i => { i with isExpired := true }) expiredHosts rest

/-- `isValidConnection.erase(cloudFogInfo[host].get())` and `cloudFogInfo.erase(host)`. -/
def dropHost (s : State) (host : String) : State :=
  { s with
    isValidConnection := s.isValidConnection.filter fun c => s.cloudFogInfo.lookup host ≠ some c
    cloudFogInfo := s.cloudFogInfo.filter fun p => p.1 ≠ host }

/-- One round of `CheckExpire`. -/
def checkExpire (s : State) (fresh : Ptr) : Result :=
  (expireMain s fresh).bind fun s =>
    (expireLoop s [] s.cloudFogInfo).map fun (s, expiredHosts) => expiredHosts.foldl dropHost s

/-- The loop of `CancelAllRExecRequests`. -/
def clearAll (s : State) : List (String × Ptr) → Result
  | [] => .ok s
  | (_, c) :: rest => (clear s c).bind fun s => clearAll s rest

/-- `CancelAllRExecRequests` up to its loop. -/
def cancelMain (s : State) : Result :=
  match s.mainFogInfo with
  | some c => (clear s c).map fun s => { s with mainFogInfo := none }
  | none => .ok s

def cancelAllRExecRequests (s : State) : Result :=
  (cancelMain s).bind fun s =>
    (clearAll s s.cloudFogInfo).map fun s =>
      { s with cloudFogInfo := [], isValidConnection := [] }

/-- `RIBScheduler::ShutDown`; the flag stays open when the function throws. -/
def shutDown (s : State) : Result :=
  if s.ribSchedulerShutdownFlag then .ok s
  else (cancelAllRExecRequests s).map fun s =>
    { s with toContinue := false, ribSchedulerShutdownFlag := true }

end Expiry

end JamSched.Remote
