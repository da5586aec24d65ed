import JamSched.Mqtt.Adapter
import JamSched.Machine.Fair

/-!
# mqtt_deleteserver

The thread that deletes an adapter next to the success callbacks of the requests that Paho has
accepted; nothing else happens. Every access of the thread to `state` is a step of its own, so a
callback can come between any two of them. In a fair run the thread goes on, and as long as a
request is outstanding its callback comes.

The loop of the thread ends at `MQTT_NOTCONNECTED`. Only the callback of a disconnect request sets
this state, and only in `MQTT_DISCONNECTING`, while the callback of a connect request leads to
`MQTT_CONNECTED`, from where nobody disconnects any more.
-/
namespace JamSched.Mqtt

open Machine

/-- Where the thread stands in `mqtt_deleteserver`. -/
inductive DeletePc where
  /-- Before the test for `MQTT_CONNECTED`. -/
  | start
  /-- Before the same test in `mqtt_disconnect`. -/
  | disconnect
  /-- The state is set, the call of `MQTTAsync_disconnect` comes next. -/
  | request
  /-- Before the test of the loop. -/
  | wait
  /-- Behind the loop, with the adapter freed. -/
  | freed
  deriving DecidableEq, Repr

structure Deletion where
  mq : Adapter
  pc : DeletePc := .start
  deriving DecidableEq, Repr

inductive Move where
  | thread
  | onconnect
  | ondisconnect (accepted : Bool)
  deriving DecidableEq, Repr

namespace Deletion

variable (x : Deletion)

/-- The next step of the thread. Paho accepts its disconnect request or not. -/
def threadStep (accepted : Bool) : Deletion :=
  match x.pc with
  | .start => { x with pc := if x.mq.state = .connected then .disconnect else .wait }
  | .disconnect =>
    if x.mq.state ≠ .connected then { x with pc := .wait }
    else { mq := { x.mq with state := .disconnecting }, pc := .request }
  | .request =>
    { mq := { x.mq with
        disconnects := if accepted then x.mq.disconnects + 1 else x.mq.disconnects }, pc := .wait }
  | .wait => { x with pc := if x.mq.state = .notConnected then .freed else .wait }
  | .freed => x

/-- A callback of Paho. `MQTTAsync_destroy` ends the callbacks. -/
def callback (l : Label) : Option Deletion :=
  if x.pc = .freed then none else (Mqtt.step x.mq l).map fun mq => { x with mq }

def step (accepted : Bool) (x : Deletion) : Move → Option Deletion
  | .thread => if x.mq.exited then none else some (x.threadStep accepted)
  | .onconnect => x.callback .onconnect
  | .ondisconnect reconnected => x.callback (.ondisconnect reconnected)

/-- The thread goes on and every outstanding request calls its success callback at last. -/
structure Completes {accepted : Bool} (x : InfiniteRun (step accepted)) : Prop where
  thread : x.Fair (· = .thread) fun _ => True
  connects : x.Fair (· = .onconnect) fun s => s.pc ≠ .freed ∧ 0 < s.mq.connects
  disconnects :
    x.Fair (∃ b, · = .ondisconnect b) fun s => s.pc ≠ .freed ∧ 0 < s.mq.disconnects

/-- No connect request is outstanding, and there is or will be one disconnect request, the one of a
connection that is being closed. -/
def CanEnd (mq : Adapter) (accepted : Bool) : Prop :=
  mq.connects = 0 ∧
    (mq.state = .notConnected ∧ mq.disconnects = 0 ∨
      mq.state = .connected ∧ mq.disconnects = 0 ∧ accepted = true ∨
      mq.state = .disconnecting ∧ mq.disconnects = 1)

instance (mq : Adapter) (accepted : Bool) : Decidable (CanEnd mq accepted) :=
  inferInstanceAs (Decidable (_ ∧ _))

/-! ## Runs that do not end -/

section Hang

variable {accepted : Bool}

theorem mqttOnconnect_eq (mq : Adapter) : ∃ subscriptions subscribed,
    mq.mqttOnconnect = { mq with
      state := .connected, connects := mq.connects - 1, subscriptions, subscribed } :=
  foldl_mqttSubscribe_eq _ _

theorem start_ne_freed : DeletePc.start ≠ .freed := by simp

theorem wait_ne_freed : DeletePc.wait ≠ .freed := by simp

/-- The callback of a connect request, in terms of what the deletion depends on. -/
theorem step_onconnect (accepted : Bool) {pc : DeletePc} (hpc : pc ≠ .freed) {mq : Adapter}
    (hlive : mq.exited = false) (hc : 0 < mq.connects) :
    ∃ mq', step accepted { mq, pc } .onconnect = some { mq := mq', pc } ∧
      mq'.state = .connected ∧ mq'.connects = mq.connects - 1 ∧
      mq'.disconnects = mq.disconnects ∧ mq'.exited = false := by
  obtain ⟨subscriptions, subscribed, heq⟩ := mqttOnconnect_eq mq
  refine ⟨mq.mqttOnconnect, ?_, ?_⟩
  · simp [step, callback, hpc, Mqtt.step, hlive, Adapter.call, hc]
  · simp [heq, hlive]

/-- The callback of a disconnect request closes the connection or asks for another one. -/
theorem step_ondisconnect (accepted : Bool) {pc : DeletePc} (hpc : pc ≠ .freed) {mq : Adapter}
    (hlive : mq.exited = false) (hd : 0 < mq.disconnects) :
    step accepted { mq, pc } (.ondisconnect true) = some {
      mq := if mq.state = .disconnecting then
          { mq with disconnects := mq.disconnects - 1, state := .notConnected }
        else { mq with disconnects := mq.disconnects - 1, connects := mq.connects + 1 }, pc } := by
  simp only [step, callback, hpc, Mqtt.step, hlive, Adapter.call, hd, Adapter.mqttOndisconnect,
    Adapter.mqttConnect]
  split <;> simp_all

/-- A run that goes on to hang, with one step in front. -/
theorem exists_hung_cons {P : Deletion → Prop} {x y : Deletion} {l : Move}
    (hl : step accepted x l = some y) (hy : ∃ ls z, run (step accepted) y ls = some z ∧ P z) :
    ∃ ls z, run (step accepted) x ls = some z ∧ P z := by
  obtain ⟨ls, z, hr, hz⟩ := hy
  exact ⟨l :: ls, z, run_cons.mpr ⟨y, hl, hr⟩, hz⟩

theorem freed_lasts {x y : Deletion} {l : Move} (hx : x.pc = .freed)
    (hy : step accepted x l = some y) : y.pc = .freed := by
  cases l with
  | thread =>
    simp only [step, Option.ite_none_left_eq_some, Option.some.injEq, threadStep, hx] at hy
    exact hy.2 ▸ hx
  | onconnect | ondisconnect => simp [step, callback, hx] at hy

/-- The thread waits in its loop and nothing is outstanding that could end it. -/
structure Hung (x : Deletion) : Prop where
  pc : x.pc = .wait
  state : x.mq.state ≠ .notConnected
  connects : x.mq.connects = 0
  disconnects : x.mq.disconnects = 0
  live : x.mq.exited = false

/-- In the loop, a connected or broken adapter gets into no other state. -/
theorem exists_hung_of_wait {mq : Adapter} (hlive : mq.exited = false)
    (hstate : mq.state = .connected ∨ mq.state = .error) :
    ∃ ls y, run (step accepted) { mq, pc := .wait } ls = some y ∧ Hung y := by
  induction hn : 2 * mq.disconnects + mq.connects using Nat.strongRecOn generalizing mq with
  | ind n ih =>
    by_cases hd : 0 < mq.disconnects
    · have hstep := step_ondisconnect accepted wait_ne_freed hlive hd
      rw [if_neg (by grind)] at hstep
      refine exists_hung_cons hstep (ih _ ?_ hlive hstate rfl)
      dsimp only
      omega
    · by_cases hc : 0 < mq.connects
      · obtain ⟨mq', hstep, hconn, hconnects, hdisconnects, hlive'⟩ :=
          step_onconnect accepted wait_ne_freed hlive hc
        refine exists_hung_cons hstep (ih _ ?_ hlive' (.inl hconn) rfl)
        omega
      · exact ⟨[], _, rfl, rfl, by grind, by grind, by grind, hlive⟩

theorem exists_hung_of_connects {mq : Adapter} (hlive : mq.exited = false)
    (hc : 0 < mq.connects) :
    ∃ ls y, run (step accepted) { mq, pc := .wait } ls = some y ∧ Hung y := by
  obtain ⟨mq', hstep, hconn, -, -, hlive'⟩ :=
    step_onconnect accepted wait_ne_freed hlive hc
  exact exists_hung_cons hstep (exists_hung_of_wait hlive' (.inl hconn))

/-- In the loop, a request that is outstanding once the connection is closed connects it again. -/
theorem exists_hung_of_closed {mq : Adapter} (hlive : mq.exited = false)
    (hstate : mq.state = .notConnected) (hout : mq.Outstanding) :
    ∃ ls y, run (step accepted) { mq, pc := .wait } ls = some y ∧ Hung y := by
  rcases hout with hc | hd
  · exact exists_hung_of_connects hlive hc
  · have hstep := step_ondisconnect accepted wait_ne_freed hlive hd
    rw [if_neg (by simp [hstate])] at hstep
    exact exists_hung_cons hstep (exists_hung_of_connects hlive (Nat.succ_pos _))

/-- In the loop, a connection that is being closed needs one disconnect request and no other. -/
theorem exists_hung_of_disconnecting {mq : Adapter} (hlive : mq.exited = false)
    (hstate : mq.state = .disconnecting) (hout : ¬ (mq.connects = 0 ∧ mq.disconnects = 1)) :
    ∃ ls y, run (step accepted) { mq, pc := .wait } ls = some y ∧ Hung y := by
  by_cases hc : 0 < mq.connects
  · exact exists_hung_of_connects hlive hc
  · by_cases hd : 0 < mq.disconnects
    · have hstep := step_ondisconnect accepted wait_ne_freed hlive hd
      rw [if_pos hstate] at hstep
      refine exists_hung_cons hstep (exists_hung_of_closed hlive rfl (.inr ?_))
      dsimp only
      omega
    · exact ⟨[], _, rfl, rfl, by simp [hstate], by grind, by grind, hlive⟩

/-- Without a callback in between, the first steps of the thread are a call of `mqtt_disconnect`. -/
theorem run_close {mq : Adapter} (hlive : mq.exited = false) (hstate : mq.state = .connected) :
    run (step accepted) { mq } [.thread, .thread, .thread] =
      some { mq := (mq.mqttDisconnect .disconnecting accepted).1, pc := .wait } := by
  simp [run, step, hlive, threadStep, hstate, Adapter.mqttDisconnect]

theorem exists_hung_of_connected {mq : Adapter} (hlive : mq.exited = false)
    (hstate : mq.state = .connected) (h : ¬ CanEnd mq accepted) :
    ∃ ls y, run (step accepted) { mq } ls = some y ∧ Hung y := by
  have hconnects {mq : Adapter} (hlive : mq.exited = false) (hstate : mq.state = .connected)
      (hc : 0 < mq.connects) : ∃ ls y, run (step accepted) { mq } ls = some y ∧ Hung y := by
    let closing := (mq.mqttDisconnect .disconnecting accepted).1
    have hclosing : closing.exited = false ∧ 0 < closing.connects := by
      simp [closing, Adapter.mqttDisconnect, hstate, hlive, hc]
    obtain ⟨ls, y, hr, hy⟩ : ∃ ls y, run (step accepted) { mq := closing, pc := .wait } ls = some y ∧
        Hung y := exists_hung_of_connects hclosing.1 hclosing.2
    exact ⟨_, y, run_append.mpr ⟨_, run_close hlive hstate, hr⟩, hy⟩
  by_cases hc : 0 < mq.connects
  · exact hconnects hlive hstate hc
  · by_cases hd : 0 < mq.disconnects
    · -- the callback comes first and asks for a connection
      have hstep := step_ondisconnect accepted start_ne_freed hlive hd
      rw [if_neg (by simp [hstate])] at hstep
      exact exists_hung_cons hstep (hconnects hlive hstate (Nat.succ_pos _))
    · have hrefused : accepted = false := by
        grind [CanEnd]
      refine ⟨_, _, run_close hlive hstate, rfl, ?_, ?_, ?_, ?_⟩ <;>
        simp only [Adapter.mqttDisconnect, hstate, hrefused] <;> grind

/-- A deletion that cannot end may hang. -/
theorem exists_hung {mq : Adapter} (hlive : mq.exited = false) (h : ¬ CanEnd mq accepted) :
    ∃ ls y, run (step accepted) { mq } ls = some y ∧ Hung y := by
  have hstart (hne : mq.state ≠ .connected) :
      step accepted { mq } .thread = some { mq, pc := .wait } := by
    simp [step, hlive, threadStep, hne]
  cases hstate : mq.state with
  | notConnected =>
    refine exists_hung_cons (hstart (by simp [hstate])) (exists_hung_of_closed hlive hstate ?_)
    simp only [Adapter.Outstanding]
    grind [CanEnd]
  | disconnecting =>
    refine exists_hung_cons (hstart (by simp [hstate]))
      (exists_hung_of_disconnecting hlive hstate ?_)
    grind [CanEnd]
  | error =>
    exact exists_hung_cons (hstart (by simp [hstate])) (exists_hung_of_wait hlive (.inr hstate))
  | connected => exact exists_hung_of_connected hlive hstate h

/-- From where the thread hangs, the run goes on for ever and the adapter is never freed. -/
theorem exists_completes {mq : Adapter} (hlive : mq.exited = false) (h : ¬ CanEnd mq accepted) :
    ∃ x : InfiniteRun (step accepted), x.state 0 = { mq } ∧ Completes x ∧
      ∀ n, (x.state n).pc ≠ .freed := by
  obtain ⟨ls, y, hr, hy⟩ := exists_hung hlive h
  have hidle : step accepted y .thread = some y := by
    have hself : ({ y with pc := .wait } : Deletion) = y := by rw [← hy.pc]
    simp [step, hy.live, threadStep, hy.pc, hy.state, hself]
  let x := InfiniteRun.ofRun hr hidle
  have hstate (n : Nat) : x.state (max n ls.length) = y :=
    InfiniteRun.ofRun_state_of_le hr hidle (Nat.le_max_right _ _)
  have hlabel (n : Nat) : x.label (max n ls.length) = .thread :=
    InfiniteRun.ofRun_label_of_le hr hidle (Nat.le_max_right _ _)
  have hmax (n : Nat) : n ≤ max n ls.length := Nat.le_max_left _ _
  refine ⟨x, rfl, ⟨fun n => ⟨_, hmax n, .inl (hlabel n)⟩, fun n => ⟨_, hmax n, .inr ?_⟩,
    fun n => ⟨_, hmax n, .inr ?_⟩⟩, fun n hn => ?_⟩
  · simp [hstate, hy.connects]
  · simp [hstate, hy.disconnects]
  · have hfreed : (x.state (max n ls.length)).pc = .freed :=
      InfiniteRun.lasts (I := fun s => s.pc = .freed) (fun s l t hs ht => freed_lasts hs ht) hn
        (hmax n)
    rw [hstate, hy.pc] at hfreed
    cases hfreed

end Hang

/-! ## Runs that end -/

section Return

variable {accepted : Bool} {x : InfiniteRun (step accepted)}

/-- The adapter and the thread at one moment, with no connect request outstanding. -/
structure At (state : MqttState) (disconnects : Nat) (pc : DeletePc) (s : Deletion) : Prop where
  state : s.mq.state = state
  connects : s.mq.connects = 0
  disconnects : s.mq.disconnects = disconnects
  pc : s.pc = pc

theorem not_onconnect {s t : Deletion} (hc : s.mq.connects = 0) :
    step accepted s .onconnect ≠ some t := by
  simp [step, callback, Mqtt.step, Adapter.call, hc]

theorem not_ondisconnect {s t : Deletion} {reconnected : Bool} (hd : s.mq.disconnects = 0) :
    step accepted s (.ondisconnect reconnected) ≠ some t := by
  simp [step, callback, Mqtt.step, Adapter.call, hd]

theorem step_thread {s t : Deletion} (h : step accepted s .thread = some t) :
    t = s.threadStep accepted := by
  simp only [step, Option.ite_none_left_eq_some, Option.some.injEq] at h
  exact h.2.symm

/-- A connection that is not open needs no request of the thread. -/
theorem At.start {s : Deletion} {state : MqttState} {disconnects : Nat}
    (hs : At state disconnects .start s) (hne : state ≠ .connected) :
    At state disconnects .wait (s.threadStep accepted) := by
  constructor <;> simp [threadStep, hs.pc, hs.state, hs.connects, hs.disconnects, hne]

/-- With nothing outstanding the thread alone moves. -/
theorem leadsTo_of_thread (hx : Completes x) {state : MqttState} {pc : DeletePc}
    {Q : Deletion → Prop} (hQ : ∀ s, At state 0 pc s → Q (s.threadStep accepted)) :
    x.LeadsTo (At state 0 pc) Q := by
  refine InfiniteRun.leadsTo_of_fair hx.thread (fun _ _ => trivial) (fun s l t hs ht => ?_) ?_
  · cases l with
    | thread => exact .inr (step_thread ht ▸ hQ s hs)
    | onconnect => exact absurd ht (not_onconnect hs.connects)
    | ondisconnect => exact absurd ht (not_ondisconnect hs.disconnects)
  · rintro s l t hs rfl ht
    exact step_thread ht ▸ hQ s hs

theorem leadsTo_freed (hx : Completes x) :
    x.LeadsTo (At .notConnected 0 .wait) fun s => s.pc = .freed :=
  leadsTo_of_thread hx fun s hs => by simp [threadStep, hs.pc, hs.state]

theorem leadsTo_wait (hx : Completes x) :
    x.LeadsTo (At .notConnected 0 .start) (At .notConnected 0 .wait) :=
  leadsTo_of_thread hx fun s hs => hs.start (by simp)

/-- The one outstanding disconnect request closes the connection. -/
theorem ondisconnect_at {s t : Deletion} {pc : DeletePc} (hs : At .disconnecting 1 pc s)
    {reconnected : Bool} (ht : step accepted s (.ondisconnect reconnected) = some t) :
    At .notConnected 0 pc t := by
  obtain ⟨hstate, hc, hd, rfl⟩ := hs
  have hfreed : s.pc ≠ .freed := by
    intro hpc
    simp [step, callback, hpc] at ht
  have hlive : s.mq.exited = false := by
    by_contra hexited
    simp [step, callback, Mqtt.step, hexited] at ht
  simp only [step, callback, hfreed, Mqtt.step, hlive, Adapter.call, hd, Adapter.mqttOndisconnect,
    hstate] at ht
  cases ht
  exact ⟨rfl, hc, rfl, rfl⟩

/-- A connection that is being closed, with the thread in its loop. -/
theorem leadsTo_closed (hx : Completes x) :
    x.LeadsTo (At .disconnecting 1 .wait) (At .notConnected 0 .wait) := by
  refine InfiniteRun.leadsTo_of_fair hx.disconnects (fun s hs => ?_) (fun s l t hs ht => ?_) ?_
  · simp [hs.pc, hs.disconnects]
  · cases l with
    | thread =>
      left
      rw [step_thread ht]
      constructor <;> simp [threadStep, hs.pc, hs.state, hs.connects, hs.disconnects]
    | onconnect => exact absurd ht (not_onconnect hs.connects)
    | ondisconnect => exact .inr (ondisconnect_at hs ht)
  · rintro s l t hs ⟨b, rfl⟩ ht
    exact ondisconnect_at hs ht

/-- The disconnect request was made before the thread came, or its callback comes first. -/
theorem leadsTo_closing (hx : Completes x) :
    x.LeadsTo (At .disconnecting 1 .start)
      fun s => At .disconnecting 1 .wait s ∨ At .notConnected 0 .start s := by
  refine InfiniteRun.leadsTo_of_fair hx.thread (fun _ _ => trivial) (fun s l t hs ht => .inr ?_) ?_
  · cases l with
    | thread => exact .inl (step_thread ht ▸ hs.start (by simp))
    | onconnect => exact absurd ht (not_onconnect hs.connects)
    | ondisconnect => exact .inr (ondisconnect_at hs ht)
  · rintro s l t hs rfl ht
    exact .inl (step_thread ht ▸ hs.start (by simp))

/-- The thread closes an open connection. -/
theorem leadsTo_request {accepted : Bool} (hacc : accepted = true)
    {x : InfiniteRun (step accepted)} (hx : Completes x) :
    x.LeadsTo (At .connected 0 .start) (At .disconnecting 1 .wait) := by
  have htest : x.LeadsTo (At .connected 0 .start) (At .connected 0 .disconnect) :=
    leadsTo_of_thread hx fun s hs => by
      constructor <;> simp [threadStep, hs.pc, hs.state, hs.connects, hs.disconnects]
  have hset : x.LeadsTo (At .connected 0 .disconnect) (At .disconnecting 0 .request) :=
    leadsTo_of_thread hx fun s hs => by
      constructor <;> simp [threadStep, hs.pc, hs.state, hs.connects, hs.disconnects]
  have hrequest : x.LeadsTo (At .disconnecting 0 .request) (At .disconnecting 1 .wait) :=
    leadsTo_of_thread hx fun s hs => by
      constructor <;> simp [threadStep, hs.pc, hs.state, hs.connects, hs.disconnects, hacc]
  exact htest.trans (hset.trans hrequest)

/-- A deletion that can end does, in every order of the callbacks. -/
theorem freed_of_canEnd {mq : Adapter} (h : CanEnd mq accepted) (hx : Completes x)
    (h0 : x.state 0 = { mq }) : ∃ n, (x.state n).pc = .freed := by
  have hclosed := (leadsTo_closed hx).trans (leadsTo_freed hx)
  have hstart := (leadsTo_wait hx).trans (leadsTo_freed hx)
  obtain ⟨hc, ⟨hstate, hd⟩ | ⟨hstate, hd, hacc⟩ | ⟨hstate, hd⟩⟩ := h
  · obtain ⟨n, -, hn⟩ := hstart 0 (by rw [h0]; exact ⟨hstate, hc, hd, rfl⟩)
    exact ⟨n, hn⟩
  · obtain ⟨n, -, hn⟩ := ((leadsTo_request hacc hx).trans hclosed) 0
      (by rw [h0]; exact ⟨hstate, hc, hd, rfl⟩)
    exact ⟨n, hn⟩
  · obtain ⟨n, -, hn⟩ := leadsTo_closing hx 0 (by rw [h0]; exact ⟨hstate, hc, hd, rfl⟩)
    rcases hn with hwait | hfirst
    · obtain ⟨m, -, hm⟩ := hclosed n hwait
      exact ⟨m, hm⟩
    · obtain ⟨m, -, hm⟩ := hstart n hfirst
      exact ⟨m, hm⟩

end Return

/-- From any state of the adapter, the loop of `mqtt_deleteserver` ends in every fair run, whatever
the order of the callbacks, if and only if no connect request is outstanding and there is exactly
the disconnect request that the state needs: none when the connection is closed, the one that the
thread makes when it is open, and one that was made before when it is being closed. -/
theorem freed_iff (mq : Adapter) (hlive : mq.exited = false) (accepted : Bool) :
    (∀ x : InfiniteRun (step accepted), x.state 0 = { mq } → Completes x →
      ∃ n, (x.state n).pc = .freed) ↔ CanEnd mq accepted := by
  constructor
  · intro h
    by_contra hcan
    obtain ⟨x, h0, hx, hnever⟩ := exists_completes hlive hcan
    obtain ⟨n, hn⟩ := h x h0 hx
    exact hnever n hn
  · exact fun h x h0 hx => freed_of_canEnd h hx h0

/-- A connection that is up with no request outstanding can be closed. -/
theorem freed_connected :
    ∃ mq, run Mqtt.step initial [.connect true, .onconnect] = some mq ∧ mq.state = .connected ∧
      ∀ x : InfiniteRun (step true), x.state 0 = { mq } → Completes x →
        ∃ n, (x.state n).pc = .freed :=
  ⟨_, rfl, rfl, (freed_iff _ rfl true).mpr (by decide)⟩

/-- The connection was lost and is asked for again; and the constructor of `CloudFogInfo` has asked
for it and the answer comes while the adapter is deleted. -/
theorem not_freed_connect :
    (∃ mq, run Mqtt.step initial [.connect true, .onconnect, .connLost true] = some mq ∧
      mq.state = .error ∧ mq.connects = 1 ∧ ∃ x : InfiniteRun (step true),
        x.state 0 = { mq } ∧ Completes x ∧ ∀ n, (x.state n).pc ≠ .freed) ∧
    ∃ mq, run Mqtt.step initial [.connect true] = some mq ∧ mq.state = .notConnected ∧
      mq.connects = 1 ∧ ∃ x : InfiniteRun (step true),
        x.state 0 = { mq } ∧ Completes x ∧ ∀ n, (x.state n).pc ≠ .freed :=
  ⟨⟨_, rfl, rfl, rfl, exists_completes rfl (by decide)⟩,
    ⟨_, rfl, rfl, rfl, exists_completes rfl (by decide)⟩⟩

end Deletion

end JamSched.Mqtt
