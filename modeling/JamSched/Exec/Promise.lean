import Mathlib.Data.List.Basic

/-!
# Promises

The state that a `promise` shares with its `future`, and the objects that may be thrown. An object
is caught by the base of its dynamic type, and `std::make_exception_ptr(e)` copies as much of it as
the declared type of `e` has: behind `catch (const std::exception &e)` this is an object of type
`std::exception`, which has no content.
-/
namespace JamSched.Exec

inductive Errc where
  | brokenPromise
  | futureAlreadyRetrieved
  | promiseAlreadySatisfied
  | noState
  deriving DecidableEq, Repr

def errcString : Errc → String
  | .brokenPromise => "broken_promise"
  | .futureAlreadyRetrieved => "future_already_retrieved"
  | .promiseAlreadySatisfied => "promise_already_satisfied"
  | .noState => "no_state"

/-- A thrown object, with its dynamic type and its content. -/
inductive Thrown (ε : Type) where
  /-- Of type `std::exception` itself. -/
  | exception
  | invalidArgument (message : String)
  | futureError (ecode : Errc) (errorString : String)
  /-- Of another type with the public base `std::exception`. -/
  | derived (e : ε)
  /-- Of a type without this base: a number, a string, a class of its own. -/
  | other (e : ε)
  deriving DecidableEq, Repr

/-- The end of a call. -/
inductive Outcome (ε : Type) (V : Type) where
  | returns (v : V)
  | throws (e : Thrown ε)
  deriving DecidableEq, Repr

def futureError {ε : Type} (ecode : Errc) : Thrown ε := .futureError ecode (errcString ecode)

/-- A handler with the argument that it gives to `set_exception`. -/
inductive Handler where
  /-- `catch (const std::exception &e)` and `std::make_exception_ptr(e)`. -/
  | stdException
  /-- `catch (...)` and `std::current_exception()`. -/
  | all
  deriving DecidableEq, Repr

/-- What the exception pointer points to; `none` where the handler does not catch the object. -/
def Handler.capture {ε : Type} : Handler → Thrown ε → Option (Thrown ε)
  | .stdException, .other _ => none
  | .stdException, _ => some .exception
  | .all, e => some e

theorem capture_stdException_iff {ε : Type} (e : Thrown ε) :
    Handler.stdException.capture e = some e ↔ e = .exception := by
  cases e <;> simp [Handler.capture]

theorem capture_all {ε : Type} (e : Thrown ε) : Handler.all.capture e = some e := by
  cases e <;> rfl

/-! ## shared_state -/

structure SharedState (ε : Type) (V : Type) where
  satisfied : Bool := false
  /-- `mutex_`. -/
  mutex : Bool := false
  exceptionPtr : Option (Thrown ε) := none
  value : Option V := none
  /-- Calls of `set_ready`. -/
  readies : Nat := 0
  deriving DecidableEq, Repr

namespace SharedState

variable {ε : Type} {V : Type} (st : SharedState ε V)

def throwIfSatisfied : Except (Thrown ε) Unit :=
  if st.satisfied then throw (futureError .promiseAlreadySatisfied) else pure ()

/-- `set_ready` up to `notify_all`, with the mutex held. -/
def setReady : SharedState ε V :=
  { st with satisfied := true, mutex := true, readies := st.readies + 1 }

def unlock : SharedState ε V := { st with mutex := false }

def setValue (value : V) : Except (Thrown ε) (SharedState ε V) := do
  st.throwIfSatisfied
  return { st with value := some value }.setReady

def setException (p : Thrown ε) : Except (Thrown ε) (SharedState ε V) := do
  st.throwIfSatisfied
  return { st with exceptionPtr := some p }.setReady

/-- `abandon`, once it has the mutex. -/
def abandon : SharedState ε V :=
  if st.satisfied then st
  else { st with exceptionPtr := some (futureError .brokenPromise) }.setReady.unlock

/-- What `get_value` gives; `none` while it waits. -/
def getValue : Option (Outcome ε V) :=
  if st.satisfied then
    match st.exceptionPtr with
    | some e => some (.throws e)
    | none => st.value.map .returns
  else none

/-- The state of a promise that was satisfied once, with this result. -/
def settled (mutex : Bool) : Outcome ε V → SharedState ε V
  | .returns v => { satisfied := true, mutex, value := some v, readies := 1 }
  | .throws e => { satisfied := true, mutex, exceptionPtr := some e, readies := 1 }

variable (r : Outcome ε V) (b : Bool) (v : V) (e : Thrown ε)

@[simp] theorem settled_satisfied : (settled b r).satisfied = true := by cases r <;> rfl

@[simp] theorem settled_mutex : (settled b r).mutex = b := by cases r <;> rfl

@[simp] theorem settled_readies : (settled b r).readies = 1 := by cases r <;> rfl

@[simp] theorem settled_getValue : (settled b r).getValue = some r := by cases r <;> rfl

@[simp] theorem settled_unlock : (settled b r).unlock = settled false r := by cases r <;> rfl

@[simp] theorem settled_abandon : (settled b r).abandon = settled b r := by cases r <;> rfl

theorem abandon_unsatisfied :
    ({} : SharedState ε V).abandon = settled false (.throws (futureError .brokenPromise)) := rfl

theorem setException_unsatisfied :
    ({} : SharedState ε V).setException e = .ok (settled true (.throws e)) := rfl

theorem setException_settled :
    (settled b r).setException e = .error (futureError .promiseAlreadySatisfied) := by
  cases r <;> rfl

end SharedState

/-! ## The function of the task -/

variable {ε : Type} {V : Type}

/-- The function that a task runs around a call with this outcome. An error leaves the task. -/
def Handler.execute (h : Handler) (st : SharedState ε V) (o : Outcome ε V) :
    Except (Thrown ε) (SharedState ε V) :=
  try
    match o with
    | .returns v => st.setValue v
    | .throws e => throw e
  catch e =>
    match h.capture e with
    | some p => st.setException p
    | none => throw e

theorem execute_returns (h : Handler) (v : V) :
    h.execute ({} : SharedState ε V) (.returns v) = .ok (.settled true (.returns v)) := rfl

theorem execute_caught {h : Handler} {e p : Thrown ε} (he : h.capture e = some p) :
    h.execute ({} : SharedState ε V) (.throws e) = .ok (.settled true (.throws p)) := by
  simp only [Handler.execute, tryCatch, tryCatchThe, MonadExceptOf.tryCatch, Except.tryCatch, throw,
    throwThe, MonadExceptOf.throw, he]
  rfl

theorem execute_uncaught {h : Handler} {e : Thrown ε} (he : h.capture e = none) :
    h.execute ({} : SharedState ε V) (.throws e) = .error e := by
  simp [Handler.execute, tryCatch, tryCatchThe, MonadExceptOf.tryCatch, Except.tryCatch, throw,
    throwThe, MonadExceptOf.throw, he]

end JamSched.Exec
