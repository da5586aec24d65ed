import JamSched.Remote.State

/-!
# Incoming messages

`RemoteArrivedCallback` and the handler it queues. The callback decodes the payload outside of
any `try`; the handler reads `cfINFO->remote`, takes `mCallback`, looks the connection up in
`isValidConnection` and runs the first command that fits topic and `cmd`. An exception of a
command is caught and leaves what the command has done so far.

The reads of `rMsg` are those of a const object: a key or an element that is not there is
undefined behaviour, and so is the null pointer that `cloudFogInfo[hostAddrStr]` makes up for an
unknown host.
-/
namespace JamSched.Remote

/-- How a command ends. -/
inductive Exit where
  | returned
  /-- By an exception, caught at the end of the handler. -/
  | caught
  /-- By undefined behaviour. -/
  | undefined
  deriving DecidableEq, Repr

structure Handled where
  state : State
  exit : Exit

def Handled.ofResult : Result → Handled
  | .ok s => ⟨s, .returned⟩
  | .error s => ⟨s, .caught⟩

section Topics

def announceDown (appId : String) : String := "/" ++ appId ++ "/announce/down"

def requestDown (appId : String) : String := "/" ++ appId ++ "/requests/down/c"

def replyDown (appId : String) : String := "/" ++ appId ++ "/replies/down"

/-- The test of `RegisterTopic`. -/
def registerTopic (topicNameString topicName : String) (rMsg : Json) (commandName : String) :
    Bool :=
  topicNameString = topicName && rMsg.contains "cmd" &&
    (rMsg.field "cmd" >>= Json.getString) = some commandName

end Topics

section Commands

/-- `lru_cache::insert` with room for 1024 entries. -/
def cacheInsert (cache : List Nat) (key : Nat) : List Nat :=
  if key ∈ cache then cache else (key :: cache).take 1024

/-- PING: REGISTER is sent as long as the connection is not registered. -/
def askRegister (s : State) (c : Ptr) : State :=
  if (s.conn c).isRegistered then s else s.publish c .register

/-- PING: the main connection asks for others as long as there are none. -/
def askCFInfo (s : State) (c : Ptr) : State :=
  if s.mainFogInfo = some c ∧ s.cloudFogInfo = [] ∧ (s.conn c).cloudFogInfoCounter % 10 = 0 then
    (s.publish c .getCFInfo).updConn c fun i =>
      { i with cloudFogInfoCounter := (i.cloudFogInfoCounter + 1) % 2 ^ 32 }
  else s

/-- PING: some are answered. -/
def answerPing (s : State) (c : Ptr) (rand : Nat) : State :=
  if (s.conn c).pongCounter = 0 then
    (s.publish c .pong).updConn c fun i => { i with pongCounter := rand % 10 }
  else s.updConn c fun i => { i with pongCounter := i.pongCounter - 1 }

/-- PING. -/
def ping (s : State) (c : Ptr) (rand : Nat) : State :=
  (answerPing (askCFInfo (askRegister s c) c) c rand).updConn c fun i =>
    { i with isExpired := false }

/-- REGISTER-ACK. -/
def registerAck (s : State) (c : Ptr) : State :=
  s.updConn c fun i => { i with isRegistered := true, isExpired := false }

/-- `opt`, `args` as both branches of PUT-CF-INFO test them. -/
def isPut (rMsg : Json) (opt : String) : Bool :=
  rMsg.contains "opt" && (rMsg.field "opt" >>= Json.getString) = some opt &&
    rMsg.contains "args" && (rMsg.field "args").any Json.isArray

/-- What both branches of PUT-CF-INFO do up to the host name. -/
def withHost (s : State) (rMsg : Json) (act : State → String → Handled) : Handled :=
  match rMsg.field "actid" with
  | none => ⟨s, .undefined⟩
  | some actid =>
    match actid.getUInt32 with
    | none => ⟨s, .caught⟩
    | some actId =>
      if actId ∈ s.cache then ⟨s, .returned⟩
      else
        let s := { s with cache := cacheInsert s.cache actId }
        match rMsg.field "args" >>= fun args => args.element 0 with
        | none => ⟨s, .undefined⟩
        | some host =>
          match host.getString with
          | none => ⟨s, .caught⟩
          | some hostAddrStr => act s hostAddrStr

/-- PUT-CF-INFO ADD. `emplace` makes the new object and drops it if the host is known. -/
def addHost (fresh : Ptr) (s : State) (hostAddrStr : String) : Handled :=
  match s.cloudFogInfo.lookup hostAddrStr with
  | some c =>
    let s := s.updConn c fun i => { i with isRegistered := true }
    ⟨{ s with isValidConnection := c :: s.isValidConnection.filter (· ≠ c) }, .returned⟩
  | none =>
    let s := (s.construct fresh).updConn fresh fun i => { i with isRegistered := true }
    ⟨{ s with
       cloudFogInfo := (hostAddrStr, fresh) :: s.cloudFogInfo
       isValidConnection := fresh :: s.isValidConnection }, .returned⟩

/-- PUT-CF-INFO DEL. -/
def delHost (s : State) (hostAddrStr : String) : Handled :=
  match s.cloudFogInfo.lookup hostAddrStr with
  | none => ⟨s, .undefined⟩
  | some c => .ofResult ((clear s c).map fun s => dropHost s hostAddrStr)

def putCFInfo (s : State) (rMsg : Json) (fresh : Ptr) : Handled :=
  if isPut rMsg "ADD" ∧ rMsg.contains "actid" then withHost s rMsg (addHost fresh)
  else if isPut rMsg "DEL" then withHost s rMsg delHost
  else ⟨s, .returned⟩

/-- `actid` as the commands about executions test and read it. -/
def readActId (rMsg : Json) : Option Nat :=
  match rMsg.field "actid" with
  | some (.unsigned n) => some (n % 2 ^ 32)
  | _ => none

/-- The attempt is in its retry loop. -/
def Pc.inLoop : Pc → Bool
  | .publish _ | .waitAck _ => true
  | _ => false

/-- The attempt is in its retry loop or waits for the result. -/
def Pc.inWait : Pc → Bool
  | .publish _ | .waitAck _ | .waitRes => true
  | _ => false

/-- `ackLookup.erase` behind a promise completed with true. -/
def finishAck (actId a : Nat) (s : State) : State :=
  { s with ackLookup := Function.update s.ackLookup actId none }.updAttempt a fun t =>
    { t with acknowledged := t.acknowledged || t.pc.inLoop }

/-- REXEC-ACK. -/
def rexecAck (s : State) (rMsg : Json) : Handled :=
  match readActId rMsg with
  | none => ⟨s, .returned⟩
  | some actId =>
    match s.ackLookup actId with
    | none => ⟨s, .returned⟩
    | some a => .ofResult ((setAck s a true).map (finishAck actId a))

/-- `RIBScheduler::CreateRPBatchCall`, without the task it makes; `none` if it throws. -/
def createRPBatchCall (s : State) (rpcAttr : Json) : Option Bool :=
  if rpcAttr.contains "actname" ∧ rpcAttr.contains "args" then
    (rpcAttr.field "actname" >>= Json.getString).map fun fName =>
      decide (fName ∈ s.localFuncMap) && rpcAttr.contains "actid" && rpcAttr.contains "cmd"
  else some false

/-- REXEC-ASY. -/
def rexecAsy (s : State) (c : Ptr) (rMsg : Json) : Handled :=
  match readActId rMsg with
  | none => ⟨s, .returned⟩
  | some actId =>
    if s.toContinue then
      match createRPBatchCall s rMsg with
      | none => ⟨s, .caught⟩
      | some false => ⟨s, .returned⟩
      | some true =>
        ⟨{ s with cache := cacheInsert s.cache actId }.publish c (.rexecAck actId), .returned⟩
    else ⟨s, .returned⟩

/-- `rExecPending.erase` and `rLookup.erase` behind a promise completed with a result. -/
def finishRes (c : Ptr) (actId a : Nat) (s : State) : State :=
  ({ s with rLookup := Function.update s.rLookup actId none }.updConn c fun i =>
    { i with rExecPending := i.rExecPending.filter (· ≠ actId) }).updAttempt a fun t =>
      { t with received := t.received || t.pc.inWait }

/-- REXEC-RES with its two fields. -/
def storeRes (s : State) (c : Ptr) (actId : Nat) (args : Json) : Handled :=
  match s.rLookup actId with
  | none => ⟨s, .returned⟩
  | some a => .ofResult ((setRes s a (true, args)).map (finishRes c actId a))

/-- REXEC-RES. -/
def rexecRes (s : State) (c : Ptr) (rMsg : Json) : Handled :=
  match readActId rMsg, rMsg.field "args" with
  | some actId, some args =>
    storeRes { s with answers := (actId, args) :: s.answers } c actId args
  | _, _ => ⟨s, .returned⟩

end Commands

/-- The handler behind the check of `isValidConnection`. KILL releases `mCallback` around
`ShutDown` and has done nothing before, so the call is the whole of its effect. -/
def dispatch (s : State) (c : Ptr) (topicNameString : String) (rMsg : Json) (rand : Nat)
    (fresh : Ptr) : Handled :=
  if registerTopic topicNameString (announceDown s.appId) rMsg "PING" then
    ⟨ping s c rand, .returned⟩
  else if registerTopic topicNameString (announceDown s.appId) rMsg "KILL" then
    .ofResult (shutDown s)
  else if registerTopic topicNameString (announceDown s.appId) rMsg "REGISTER-ACK" then
    ⟨registerAck s c, .returned⟩
  else if registerTopic topicNameString (announceDown s.appId) rMsg "PUT-CF-INFO" then
    putCFInfo s rMsg fresh
  else if registerTopic topicNameString (replyDown s.appId) rMsg "REXEC-ACK" then
    rexecAck s rMsg
  else if registerTopic topicNameString (requestDown s.appId) rMsg "REXEC-ASY" then
    rexecAsy s c rMsg
  else if registerTopic topicNameString (requestDown s.appId) rMsg "REXEC-SYN" then
    ⟨s, .returned⟩
  else if registerTopic topicNameString (replyDown s.appId) rMsg "REXEC-RES" then
    rexecRes s c rMsg
  else ⟨s, .returned⟩

/-- The queued handler for the connection at `c`. -/
def handler (s : State) (c : Ptr) (topicNameString : String) (rMsg : Json) (rand : Nat)
    (fresh : Ptr) : Handled :=
  if c ∈ s.isValidConnection then dispatch s c topicNameString rMsg rand fresh
  else ⟨s, .returned⟩

end JamSched.Remote
