import JamSched.Machine.Run
import Mathlib.Tactic.Common

/-!
# The MQTT adapter

`mqtt_adapter_t` and the functions and callbacks that write its `state`, each of them one step.
Paho keeps a request that it has accepted outstanding until it calls the success callback of the
request, and calls no other; the failure callbacks are null. Whether Paho accepts a request or
sends a message is up to the label.

The state `MQTT_ERROR` is left through a callback only. `mqtt_publish` enters it after a failed
send and then asks `mqtt_disconnect` for the request that would lead out of it, but
`mqtt_disconnect` makes requests in state `MQTT_CONNECTED` only.
-/
namespace JamSched.Mqtt

open Machine

/-- `mqtt_state_t`. -/
inductive MqttState where
  | notConnected | connected | disconnecting | error
  deriving DecidableEq, Repr

/-- `MAX_SUBSCRIPTIONS`. -/
def maxSubscriptions : Nat := 1024

structure Adapter where
  state : MqttState := .notConnected
  subscriptions : List String := []
  /-- Topics that were passed to `MQTTAsync_subscribe`, the latest first. -/
  subscribed : List String := []
  /-- Connect requests that Paho has accepted and not completed. -/
  connects : Nat := 0
  /-- Disconnect requests that Paho has accepted and not completed. -/
  disconnects : Nat := 0
  /-- `exit(1)` was called. -/
  exited : Bool := false
  deriving DecidableEq, Repr

namespace Adapter

variable (mq : Adapter)

def mqttConnect (accepted : Bool) : Adapter :=
  if accepted then { mq with connects := mq.connects + 1 } else { mq with exited := true }

def mqttDefaultConnLost (accepted : Bool) : Adapter :=
  { mq with state := .error }.mqttConnect accepted

def mqttSetSubscription (topic : String) : Adapter :=
  if mq.subscriptions.length < maxSubscriptions then
    { mq with subscriptions := mq.subscriptions ++ [topic] }
  else mq

def mqttSubscribe (topic : String) : Adapter :=
  if mq.state ≠ .connected then mq.mqttSetSubscription topic
  else { mq with subscribed := topic :: mq.subscribed }

/-- The callback `onconnect` of the only user does nothing. -/
def mqttOnconnect : Adapter :=
  mq.subscriptions.foldl mqttSubscribe
    { mq with state := .connected, connects := mq.connects - 1 }

/-- The function returns whether it has made a request; it does not look whether Paho has
accepted it. -/
def mqttDisconnect (state : MqttState) (accepted : Bool) : Adapter × Bool :=
  if mq.state ≠ .connected then (mq, false)
  else ({ mq with
    state, disconnects := if accepted then mq.disconnects + 1 else mq.disconnects }, true)

def mqttOndisconnect (accepted : Bool) : Adapter :=
  let mq' := { mq with disconnects := mq.disconnects - 1 }
  if mq.state = .disconnecting then { mq' with state := .notConnected }
  else mq'.mqttConnect accepted

/-- `mqtt_publish` from the end of its polling loop on. `sent` tells whether `MQTTAsync_send`
succeeds. -/
def mqttPublish (sent accepted : Bool) : Adapter × Bool :=
  if mq.state = .connected then
    if sent then (mq, true)
    else (({ mq with state := .error }.mqttDisconnect .error accepted).1, true)
  else (mq, false)

end Adapter

inductive Label where
  | connect (accepted : Bool)
  | publish (sent accepted : Bool)
  | disconnect (state : MqttState) (accepted : Bool)
  | subscribe (topic : String)
  | connLost (accepted : Bool)
  /-- Paho completes a connect request. -/
  | onconnect
  /-- Paho completes a disconnect request. -/
  | ondisconnect (accepted : Bool)
  deriving DecidableEq, Repr

/-- The call or callback of a label. -/
def Adapter.call (mq : Adapter) : Label → Option Adapter
  | .connect accepted => some (mq.mqttConnect accepted)
  | .publish sent accepted => some (mq.mqttPublish sent accepted).1
  | .disconnect state accepted => some (mq.mqttDisconnect state accepted).1
  | .subscribe topic => some (mq.mqttSubscribe topic)
  | .connLost accepted => some (mq.mqttDefaultConnLost accepted)
  | .onconnect => if 0 < mq.connects then some mq.mqttOnconnect else none
  | .ondisconnect accepted =>
    if 0 < mq.disconnects then some (mq.mqttOndisconnect accepted) else none

def step (mq : Adapter) (l : Label) : Option Adapter := if mq.exited then none else mq.call l

/-- The adapter as `mqtt_createserver` returns it. -/
def initial : Adapter := {}

/-! ## Requests that lead out of the error -/

section Recovery

variable {mq mq' : Adapter} {l : Label}

def Adapter.Outstanding (mq : Adapter) : Prop := 0 < mq.connects ∨ 0 < mq.disconnects

instance (mq : Adapter) : Decidable mq.Outstanding := inferInstanceAs (Decidable (_ ∨ _))

/-- In `MQTT_ERROR` a request is outstanding, unless the process has ended. -/
def Recoverable (mq : Adapter) : Prop :=
  mq.exited = false → mq.state = .error → mq.Outstanding

instance (mq : Adapter) : Decidable (Recoverable mq) := inferInstanceAs (Decidable (_ → _ → _))

/-- The step does not enter `MQTT_ERROR` without a request: no send fails, and no disconnect to
`MQTT_ERROR` is refused, while nothing is outstanding. -/
def EntersWithRequest (mq : Adapter) : Label → Prop
  | .publish sent _ => mq.state = .connected → sent = false → mq.Outstanding
  | .disconnect state accepted =>
    mq.state = .connected → state = .error → accepted = false → mq.Outstanding
  | _ => True

instance (mq : Adapter) (l : Label) : Decidable (EntersWithRequest mq l) :=
  match l with
  | .publish _ _ => inferInstanceAs (Decidable (_ → _ → _))
  | .disconnect _ _ => inferInstanceAs (Decidable (_ → _ → _ → _))
  | .connect _ | .subscribe _ | .connLost _ | .onconnect | .ondisconnect _ => isTrue trivial

/-- A subscription writes the topics only. -/
theorem mqttSubscribe_eq (mq : Adapter) (topic : String) :
    ∃ subscriptions subscribed,
      mq.mqttSubscribe topic = { mq with subscriptions, subscribed } := by
  unfold Adapter.mqttSubscribe Adapter.mqttSetSubscription
  split
  · split
    · exact ⟨_, _, rfl⟩
    · exact ⟨_, _, rfl⟩
  · exact ⟨_, _, rfl⟩

theorem foldl_mqttSubscribe_eq (mq : Adapter) (topics : List String) :
    ∃ subscriptions subscribed,
      topics.foldl Adapter.mqttSubscribe mq = { mq with subscriptions, subscribed } := by
  induction topics generalizing mq with
  | nil => exact ⟨_, _, rfl⟩
  | cons topic topics ih =>
    obtain ⟨subscriptions, subscribed, hhead⟩ := mqttSubscribe_eq mq topic
    obtain ⟨subscriptions', subscribed', htail⟩ := ih { mq with subscriptions, subscribed }
    exact ⟨subscriptions', subscribed', by rw [List.foldl_cons, hhead, htail]⟩

theorem mqttOnconnect_state (mq : Adapter) : mq.mqttOnconnect.state = .connected := by
  obtain ⟨subscriptions, subscribed, h⟩ := foldl_mqttSubscribe_eq
    { mq with state := .connected, connects := mq.connects - 1 } mq.subscriptions
  rw [Adapter.mqttOnconnect, h]

/-- A connect request leaves no way to be stuck: it is outstanding, or the process has ended. -/
theorem recoverable_mqttConnect (mq : Adapter) (accepted : Bool) :
    Recoverable (mq.mqttConnect accepted) := by
  cases accepted
  · intro hexit
    cases hexit
  · intro _ _
    exact .inl (Nat.succ_pos _)

/-- A step from a recoverable state leads to one exactly when it meets the condition. -/
theorem recoverable_step_iff (h : Recoverable mq) (ht : step mq l = some mq') :
    Recoverable mq' ↔ EntersWithRequest mq l := by
  have hrun : mq.exited = false := by
    by_contra hex
    simp [step, hex] at ht
  rw [step, hrun, if_neg Bool.false_ne_true] at ht
  cases l with
  | connect accepted =>
    cases ht
    exact iff_of_true (recoverable_mqttConnect _ _) trivial
  | publish sent accepted =>
    cases ht
    by_cases hconn : mq.state = .connected
    · cases sent
      · simp [Adapter.mqttPublish, Adapter.mqttDisconnect, Recoverable, EntersWithRequest, hconn,
          hrun, Adapter.Outstanding]
      · simp [Adapter.mqttPublish, Recoverable, EntersWithRequest, hconn]
    · simp [Adapter.mqttPublish, EntersWithRequest, hconn, h]
  | disconnect state accepted =>
    cases ht
    by_cases hconn : mq.state = .connected
    · cases accepted
      · simp [Adapter.mqttDisconnect, Recoverable, EntersWithRequest, hconn, hrun,
          Adapter.Outstanding]
      · simp [Adapter.mqttDisconnect, Recoverable, EntersWithRequest, hconn, Adapter.Outstanding]
    · simp [Adapter.mqttDisconnect, EntersWithRequest, hconn, h]
  | subscribe topic =>
    cases ht
    obtain ⟨subscriptions, subscribed, heq⟩ := mqttSubscribe_eq mq topic
    rw [heq]
    exact iff_of_true h trivial
  | connLost accepted =>
    cases ht
    exact iff_of_true (recoverable_mqttConnect _ _) trivial
  | onconnect =>
    simp only [Adapter.call] at ht
    split at ht
    · cases ht
      refine iff_of_true (fun _ herr => ?_) trivial
      rw [mqttOnconnect_state] at herr
      cases herr
    · cases ht
  | ondisconnect accepted =>
    simp only [Adapter.call] at ht
    split at ht
    · cases ht
      refine iff_of_true ?_ trivial
      unfold Adapter.mqttOndisconnect
      split
      · intro _ herr
        cases herr
      · exact recoverable_mqttConnect _ _
    · cases ht

/-- With a request outstanding in `MQTT_ERROR`, the callbacks lead back to `MQTT_CONNECTED`. -/
theorem connected_of_outstanding (hrun : mq.exited = false) (herr : mq.state = .error)
    (hout : mq.Outstanding) :
    ∃ ls mq', run step mq ls = some mq' ∧ mq'.state = .connected := by
  rcases hout with hc | hd
  · refine ⟨[.onconnect], mq.mqttOnconnect, ?_, mqttOnconnect_state mq⟩
    simp [run, step, Adapter.call, hrun, hc]
  · refine ⟨[.ondisconnect true, .onconnect], _, ?_, mqttOnconnect_state
      { mq with disconnects := mq.disconnects - 1, connects := mq.connects + 1 }⟩
    simp [run, step, Adapter.call, hrun, hd, Adapter.mqttOndisconnect, herr, Adapter.mqttConnect]

/-- The steps with which somebody other than Paho's success callbacks asks for a connection. -/
def Label.reconnects : Label → Bool
  | .connect _ | .connLost _ => true
  | _ => false

/-- Without a request, `MQTT_ERROR` lasts until somebody asks for a connection: every publish
returns false and every disconnect is refused. -/
theorem error_lasts {ls : List Label} (herr : mq.state = .error) (hout : ¬ mq.Outstanding)
    (hls : ∀ l ∈ ls, l.reconnects = false) (hr : run step mq ls = some mq') :
    mq'.state = .error ∧ ¬ mq'.Outstanding ∧ (∀ sent accepted,
      mq'.mqttPublish sent accepted = (mq', false)) := by
  have hinv : mq'.state = .error ∧ ¬ mq'.Outstanding := by
    refine run_invariant_along (I := fun m => m.state = .error ∧ ¬ m.Outstanding)
      (P := fun _ l => l.reconnects = false) ?_ ⟨herr, hout⟩ (along_of_mem hls) hr
    intro m l m' ⟨herr, hout⟩ hl ht
    simp only [Adapter.Outstanding, not_or, Nat.not_lt, Nat.le_zero] at hout
    obtain ⟨hc, hd⟩ := hout
    unfold step at ht
    split at ht
    · cases ht
    · cases l with
      | connect | connLost => cases hl
      | publish =>
        cases ht
        simp [Adapter.mqttPublish, herr, Adapter.Outstanding, hc, hd]
      | disconnect =>
        cases ht
        simp [Adapter.mqttDisconnect, herr, Adapter.Outstanding, hc, hd]
      | subscribe topic =>
        cases ht
        obtain ⟨subscriptions, subscribed, heq⟩ := mqttSubscribe_eq m topic
        rw [heq]
        simp [herr, Adapter.Outstanding, hc, hd]
      | onconnect => simp [Adapter.call, hc] at ht
      | ondisconnect => simp [Adapter.call, hd] at ht
  refine ⟨hinv.1, hinv.2, fun sent accepted => ?_⟩
  simp [Adapter.mqttPublish, hinv.1]

/-- In every run: `MQTT_ERROR` has a request outstanding in every state, exactly when every step
of the run meets the condition; and from a state where it has one, callbacks of Paho lead to
`MQTT_CONNECTED`. -/
theorem recoverable_iff {ls : List Label} (hr : run step initial ls = some mq) :
    (Always step Recoverable initial ls ↔ Along step EntersWithRequest initial ls) ∧
    (mq.exited = false → mq.state = .error → mq.Outstanding →
      ∃ ms mq', run step mq ms = some mq' ∧ mq'.state = .connected) := by
  refine ⟨?_, fun hrun herr hout => connected_of_outstanding hrun herr hout⟩
  exact always_iff_along (I := fun _ => True) (fun _ _ _ _ _ => trivial)
    (fun _ _ _ _ hb ht => recoverable_step_iff hb ht) trivial (by decide) hr

/-- The connection is lost and comes back. -/
def lostRun : List Label :=
  [.subscribe "/announce/down", .connect true, .onconnect, .publish true true, .connLost true,
    .publish true true, .onconnect, .disconnect .disconnecting true, .ondisconnect true]

theorem recoverable_lostRun : Always step Recoverable initial lostRun := by
  have hreach : ∃ mq, run step initial lostRun = some mq ∧ mq.state = .notConnected :=
    run_reaches (by decide)
  obtain ⟨mq, hr, -⟩ := hreach
  exact (recoverable_iff hr).1.mpr (by decide)

/-- A send fails on a connection that is up. -/
def failedSendRun : List Label := [.connect true, .onconnect, .publish false true]

/-- No request is outstanding afterwards, and the next publish returns false. -/
theorem not_recoverable_failedSendRun :
    (run step initial failedSendRun).map (fun mq =>
      (mq.state, mq.connects, mq.disconnects, mq.exited, (mq.mqttPublish true true).2)) =
        some (.error, 0, 0, false, false) ∧
    ¬ Always step Recoverable initial failedSendRun := by
  decide

end Recovery

end JamSched.Mqtt
