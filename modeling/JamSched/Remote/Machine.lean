import JamSched.Remote.Attempt
import JamSched.Remote.Handler
import JamSched.Machine.Run

/-!
# The remote layer as a machine

Calls of the application, steps of their attempts, incoming messages, replies of local
functions, rounds of `CheckExpire` and the two ways to shut down, in any order.
-/
namespace JamSched.Remote

open Machine

inductive Label where
  | call (entry : Entry)
  /-- Next step of an attempt. A wait ends with a timeout if its promise is not satisfied. -/
  | attempt (a : Nat)
  /-- A queued handler runs for the connection at `c`; a new object would be at `fresh`. -/
  | arrived (c : Ptr) (topic : String) (rMsg : Json) (rand : Nat) (fresh : Ptr)
  /-- A queued reply of `CreateRPBatchCall` runs. -/
  | reply (c : Ptr)
  | checkExpire (fresh : Ptr)
  | cancelAllRExecRequests
  | shutDown

/-- Code that has no handler around it. -/
def settle : Result → State
  | .ok s => s
  | .error s => { s with crashed := true }

def Handled.settle (h : Handled) : State :=
  if h.exit = .undefined then { h.state with crashed := true } else h.state

def reply (s : State) (c : Ptr) : State :=
  if c ∈ s.isValidConnection then s.publish c .reply else s

def Pc.isEnded : Pc → Bool
  | .ended _ => true
  | _ => false

def step (s : State) (l : Label) : Option State :=
  if s.crashed then none
  else
    match l with
    | .call entry => some (s.create entry)
    | .attempt a =>
      if a < s.nAttempts ∧ (s.attempt a).pc.isEnded = false then some (s.advance a) else none
    | .arrived c topic rMsg rand fresh =>
      if s.Owned fresh then none else some (handler s c topic rMsg rand fresh).settle
    | .reply c => some (reply s c)
    | .checkExpire fresh =>
      if s.Owned fresh then none else some (settle (checkExpire s fresh))
    | .cancelAllRExecRequests => some (settle (cancelAllRExecRequests s))
    | .shutDown => some (settle (shutDown s))

section Messages

/-- REGISTER-ACK as a server sends it. -/
def registerAckMsg : Json := .obj [("cmd", .str "REGISTER-ACK")]

/-- PUT-CF-INFO as a server sends it. -/
def putCFInfoMsg (opt : String) (actId : Nat) (host : String) : Json :=
  .obj [("cmd", .str "PUT-CF-INFO"), ("opt", .str opt), ("actid", .unsigned actId),
    ("args", .arr [.str host])]

def rexecAckMsg (actId : Nat) : Json :=
  .obj [("cmd", .str "REXEC-ACK"), ("actid", .unsigned actId)]

def rexecResMsg (actId : Nat) (args : Json) : Json :=
  .obj [("cmd", .str "REXEC-RES"), ("actid", .unsigned actId), ("args", args)]

end Messages

end JamSched.Remote
