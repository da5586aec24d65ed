import JamSched.Remote.Payload
import JamSched.Remote.Traffic
import JamSched.Core.Cbor

/-!
# Replies to requests

A REXEC-ASY is answered twice: the handler publishes REXEC-ACK, with the identifier as it has read
it, a `uint32_t`, and the batch task that `CreateRPBatchCall` makes publishes REXEC-RES once the
function has returned, with the identifier read from the request a second time, as an `int`. Both
go through the text of the JSON library, which tells an unsigned number by its missing sign.
-/
namespace JamSched.Remote

open Machine

/-- The functions of the JSON library that a message passes through; `dump` may throw. -/
structure Codec where
  dump : Json → Option String
  /-- `to_cbor` of a string. -/
  toCbor : String → List UInt8
  fromCbor : List UInt8 → Option Json
  parse : String → Option Json

/-- What the code relies on: a text comes back from CBOR, and `parse` reads what `dump` wrote. -/
structure Codec.Lawful (lib : Codec) : Prop where
  fromCbor_toCbor : ∀ {j text}, lib.dump j = some text →
    lib.fromCbor (lib.toCbor text) = some (.str text)
  parse_dump : ∀ {j text}, lib.dump j = some text → ∃ r, lib.parse text = some r ∧ j.Reread r

section Replies

def replyUp (appId : String) : String := "/" ++ appId ++ "/replies/up"

/-- `RoutineRemote::Invoke`, for a function that returns or throws. -/
def invoke : Except String Json → Json
  | .ok value => .obj [("args", value)]
  | .error what => .obj [("args", .exception what)]

/-- `jResult` in the task of `CreateRPBatchCall`. -/
def jResult (rpcAttr : Json) (result : Except String Json) : Option Json :=
  (rpcAttr.field "actid" >>= Json.getInt).bind fun actId =>
    ((invoke result).set "actid" (.integer actId)).bind (·.set "cmd" (.str "REXEC-RES"))

/-- The handler of the command takes the message as one about `actId`. -/
def Accepts (rMsg : Json) (actId : Nat) : Prop :=
  readActId rMsg = some actId ∧
    ((rMsg.field "cmd" >>= Json.getString) = some "REXEC-ACK" ∨
      (rMsg.field "cmd" >>= Json.getString) = some "REXEC-RES" ∧ rMsg.contains "args" = true)

instance (rMsg : Json) (actId : Nat) : Decidable (Accepts rMsg actId) :=
  inferInstanceAs (Decidable (_ ∧ _))

/-- A message that answers a request. -/
structure Reply where
  conn : Ptr
  /-- History: the request. -/
  request : Json
  /-- What the remote layer has of it. -/
  packet : Packet
  topic : String
  payload : List UInt8

/-- The identifier of the request. -/
def Reply.actId (m : Reply) : Option Nat :=
  match m.request.field "actid" with
  | some (.unsigned n) => some n
  | _ => none

/-- Whoever decodes the message with the library finds the identifier of the request in it. -/
def Reply.Faithful (lib : Codec) (m : Reply) : Prop :=
  ∀ actId ∈ m.actId, actId < 2 ^ 32 →
    ∃ rMsg ∈ decode lib.fromCbor lib.parse m.payload, Accepts rMsg actId

instance (lib : Codec) (m : Reply) : Decidable (m.Faithful lib) :=
  inferInstanceAs (Decidable (∀ _ ∈ m.actId, _ → _))

end Replies

/-- A process that is called: the remote layer, the batch tasks of `CreateRPBatchCall`, each with
`execRemote` and `rpcAttr`, and the replies in `callbackThreadPool`. -/
structure Callee where
  remote : State
  tasks : List (Ptr × Json) := []
  queue : List Reply := []
  /-- History: the replies published, the latest first. -/
  sent : List Reply := []

inductive Act where
  /-- A step of the remote layer. -/
  | remote (l : Label)
  /-- The function of the task at place `i` returns or throws, and the task goes on. -/
  | returns (i : Nat) (result : Except String Json)
  /-- The first reply in the queue runs. Its three tries send the same message. -/
  | reply

/-- Connection, identifier and request of the REXEC-ASY that the step answers with REXEC-ACK. -/
def handledAsy (s : State) : Label → Option (Ptr × Nat × Json)
  | .arrived c topic rMsg _ _ =>
    if c ∈ s.isValidConnection ∧ registerTopic topic (requestDown s.appId) rMsg "REXEC-ASY" ∧
        s.toContinue = true ∧ createRPBatchCall s rMsg = some true then
      (readActId rMsg).map fun actId => (c, actId, rMsg)
    else none
  | _ => none

def Label.isReply : Label → Bool
  | .reply _ => true
  | _ => false

/-- REXEC-ACK and REXEC-RES. -/
def Packet.isReply : Packet → Bool
  | .rexecAck _ | .reply => true
  | _ => false

namespace Callee

variable (lib : Codec) (x : Callee)

/-- REXEC-ASY, as far as `Remote` does not know of it. -/
def answer (l : Label) : Callee :=
  match handledAsy x.remote l with
  | none => x
  | some (c, actId, rMsg) => { x with
      tasks := x.tasks ++ [(c, rMsg)]
      sent := match lib.dump (rexecAckMsg actId) with
        | none => x.sent
        | some text =>
          ⟨c, rMsg, .rexecAck actId, replyUp x.remote.appId, lib.toCbor text⟩ :: x.sent }

/-- The task behind the return of its function. Nobody catches what it throws. -/
def finish (i : Nat) (c : Ptr) (rpcAttr : Json) (result : Except String Json) : Callee :=
  match (jResult rpcAttr result).bind lib.dump with
  | none => { x with remote := { x.remote with crashed := true } }
  | some vReq => { x with
      tasks := x.tasks.eraseIdx i
      queue := x.queue ++ [⟨c, rpcAttr, .reply, "/replies/up", lib.toCbor vReq⟩] }

def step : Act → Option Callee
  | .remote l =>
    if l.isReply then none
    else (Remote.step x.remote l).map fun s => { x.answer lib l with remote := s }
  | .returns i result =>
    if x.remote.crashed then none
    else x.tasks[i]?.map fun (c, rpcAttr) => x.finish lib i c rpcAttr result
  | .reply =>
    match x.queue with
    | [] => none
    | m :: queue => (Remote.step x.remote (.reply m.conn)).map fun s => { x with
        remote := s
        queue
        sent := if m.conn ∈ x.remote.isValidConnection then m :: x.sent else x.sent }

end Callee

/-! ## What a reply says -/

section Messages

variable {lib : Codec} {j : Json} {text : String}

/-- A message as it is decoded. -/
theorem Codec.Lawful.decode_dump (hlib : lib.Lawful) (h : lib.dump j = some text) :
    ∃ rMsg, decode lib.fromCbor lib.parse (lib.toCbor text) = some rMsg ∧ j.Reread rMsg := by
  obtain ⟨rMsg, hparse, hread⟩ := hlib.parse_dump h
  exact ⟨rMsg, by simp [decode, hlib.fromCbor_toCbor h, Json.getString, hparse], hread⟩

theorem readActId_eq_some {rMsg : Json} {actId : Nat} : readActId rMsg = some actId ↔
    ∃ n, rMsg.field "actid" = some (.unsigned n) ∧ n % 2 ^ 32 = actId := by
  unfold readActId
  split
  · next n hn => simp [hn]
  · next hno =>
    simp only [reduceCtorEq, false_iff, not_exists, not_and]
    exact fun n hn => absurd hn (hno n)

theorem Reply.mem_actId {m : Reply} {actId : Nat} :
    actId ∈ m.actId ↔ m.request.field "actid" = some (.unsigned actId) := by
  unfold Reply.actId
  split
  · next n hn => simp [hn]
  · next hno => simpa using hno actId

theorem reread_unsigned {n : Nat} {w : Json} (h : (Json.unsigned n).Reread w) :
    w = .unsigned n := by
  cases h
  rfl

theorem reread_integer {i : Int} {w : Json} (h : (Json.integer i).Reread w) :
    w = if 0 ≤ i then .unsigned i.toNat else .integer i := by
  cases h with
  | natural n => simp
  | negative hneg => rw [if_neg (by omega)]

theorem reread_str {t : String} {w : Json} (h : (Json.str t).Reread w) : w = .str t := by
  cases h
  rfl

/-- REXEC-ACK names the identifier of 32 bits that the handler has read. -/
theorem accepts_rexecAckMsg {actId : Nat} {rMsg : Json} (h : (rexecAckMsg actId).Reread rMsg)
    (hlt : actId < 2 ^ 32) : Accepts rMsg actId := by
  have hid : (rexecAckMsg actId).field "actid" = some (.unsigned actId) := rfl
  have hname : (rexecAckMsg actId).field "cmd" = some (.str "REXEC-ACK") := rfl
  obtain ⟨v, hactid, hv⟩ := h.field hid
  obtain ⟨w, hcmd, hw⟩ := h.field hname
  refine ⟨readActId_eq_some.mpr ⟨actId, ?_, Nat.mod_eq_of_lt hlt⟩, .inl ?_⟩
  · rw [hactid, reread_unsigned hv]
  · simp [hcmd, reread_str hw, Json.getString]

/-- The three members of REXEC-RES. -/
theorem jResult_fields {rpcAttr : Json} {result : Except String Json} {n : Nat}
    (hn : rpcAttr.field "actid" = some (.unsigned n)) (h : jResult rpcAttr result = some j) :
    j.field "actid" = some (.integer (Int.bmod n (2 ^ 32))) ∧
      j.field "cmd" = some (.str "REXEC-RES") ∧ ∃ args, j.field "args" = some args := by
  simp only [jResult, hn, Option.bind_eq_bind, Option.bind_some, Json.getInt] at h
  obtain ⟨k, hk, hj⟩ := Option.bind_eq_some_iff.mp h
  have hargs : ∃ args, (invoke result).field "args" = some args := by
    cases result <;> exact ⟨_, rfl⟩
  refine ⟨?_, ?_, ?_⟩
  · rw [Json.field_set hj, if_neg (by decide), Json.field_set hk, if_pos rfl]
  · rw [Json.field_set hj, if_pos rfl]
  · obtain ⟨args, hargs⟩ := hargs
    refine ⟨args, ?_⟩
    rw [Json.field_set hj, if_neg (by decide), Json.field_set hk, if_neg (by decide), hargs]

/-- What is left of the three members when REXEC-RES is decoded. -/
theorem reread_jResult {rpcAttr : Json} {result : Except String Json} {actId : Nat}
    (hactId : rpcAttr.field "actid" = some (.unsigned actId)) (hlt : actId < 2 ^ 32)
    (hj : jResult rpcAttr result = some j) {rMsg : Json} (h : j.Reread rMsg) :
    readActId rMsg = (if actId < 2 ^ 31 then some actId else none) ∧
      (rMsg.field "cmd" >>= Json.getString) = some "REXEC-RES" ∧
      ∃ args, rMsg.field "args" = some args := by
  obtain ⟨hfield, hcmd, args, hargs⟩ := jResult_fields hactId hj
  obtain ⟨v, hv, hread⟩ := h.field hfield
  rw [reread_integer hread] at hv
  refine ⟨?_, ?_, ?_⟩
  · split
    · next hint =>
      have hself : Int.bmod actId (2 ^ 32) = actId := by
        rw [Int.bmod_def]
        omega
      rw [hself, if_pos (by omega), Int.toNat_natCast] at hv
      exact readActId_eq_some.mpr ⟨actId, hv, Nat.mod_eq_of_lt hlt⟩
    · next hge =>
      have hneg : ¬ 0 ≤ Int.bmod actId (2 ^ 32) := by
        rw [Int.bmod_def]
        omega
      rw [if_neg hneg] at hv
      simp [readActId, hv]
  · obtain ⟨w, hw, hstr⟩ := h.field hcmd
    simp [hw, reread_str hstr, Json.getString]
  · obtain ⟨w, hw, -⟩ := h.field hargs
    exact ⟨w, hw⟩

/-- REXEC-RES names an identifier of 32 bits exactly if that is an `int`. -/
theorem accepts_jResult_iff {rpcAttr : Json} {result : Except String Json} {actId : Nat}
    (hactId : rpcAttr.field "actid" = some (.unsigned actId)) (hlt : actId < 2 ^ 32)
    (hj : jResult rpcAttr result = some j) {rMsg : Json} (h : j.Reread rMsg) :
    Accepts rMsg actId ↔ actId < 2 ^ 31 := by
  obtain ⟨hread, hcmd, hargs⟩ := reread_jResult hactId hlt hj h
  have hcontains : rMsg.contains "args" = true := Json.contains_iff_field.mpr hargs
  simp [Accepts, hread, hcmd, hcontains]

end Messages

/-! ## The process that is called -/

section Requests

variable {s t : State} {l : Label} {c : Ptr} {actId : Nat} {rMsg : Json}

/-- A step that answers is one of the handler of REXEC-ASY, which publishes REXEC-ACK. -/
theorem step_handledAsy (hl : handledAsy s l = some (c, actId, rMsg)) (hs : step s l = some t) :
    readActId rMsg = some actId ∧ t.published = (c, .rexecAck actId) :: s.published := by
  cases l with
  | arrived d topic msg rand fresh =>
    simp only [handledAsy, Option.ite_none_right_eq_some, Option.map_eq_some_iff,
      Prod.mk.injEq] at hl
    obtain ⟨⟨hvalid, hcmd, hcont, hcall⟩, n, hn, rfl, rfl, rfl⟩ := hl
    have hother {topicName name : String} (hne : name ≠ "REXEC-ASY") :
        registerTopic topic topicName msg name = false := registerTopic_ne hcmd hne
    simp only [step, Option.ite_none_left_eq_some, Option.some.injEq] at hs
    obtain ⟨-, -, rfl⟩ := hs
    refine ⟨hn, ?_⟩
    simp [handler, hvalid, dispatch, hother, hcmd, rexecAsy, hn, hcont, hcall, Handled.settle,
      State.publish]
  | _ => cases hl

/-- The messages that answer requests. -/
def State.replies (s : State) : List (Ptr × Packet) := s.published.filter (·.2.isReply)

/-- The same requests were answered. -/
def SameReplies (s t : State) : Prop := t.replies = s.replies

theorem traffic_replies : Traffic SameReplies where
  refl _ := rfl
  trans h g := g.trans h
  of_eq _ hpublished := by rw [SameReplies, State.replies, State.replies, hpublished]
  conn _ _ _ _ _ := rfl
  rexec _ _ _ := rfl

theorem replies_publish (c : Ptr) (p : Packet) :
    (s.publish c p).replies = if p.isReply then (c, p) :: s.replies else s.replies := by
  simp only [State.replies, State.publish, List.filter_cons]

theorem replies_ping (s : State) (c : Ptr) (rand : Nat) : SameReplies s (ping s c rand) :=
  relates_ping (R := SameReplies) (fun _ => rfl) traffic_replies.trans
    (fun u p hack hres => by
      rw [SameReplies, replies_publish, if_neg]
      cases p <;> simp_all [Packet.isReply])
    (fun _ _ _ _ => rfl) s rand

/-- A step of the remote layer but a reply of a task answers the REXEC-ASY that it handles, and no
other request. -/
theorem step_replies (hrep : l.isReply = false) (hs : step s l = some t) :
    t.replies = (handledAsy s l).toList.map (fun p => (p.1, .rexecAck p.2.1)) ++ s.replies := by
  cases hl : handledAsy s l with
  | some p =>
    obtain ⟨c, actId, rMsg⟩ := p
    simp [State.replies, (step_handledAsy hl hs).2, Packet.isReply]
  | none =>
    refine traffic_replies.step (fun _ _ _ => rfl)
      (fun c _ _ rand _ _ _ _ => replies_ping s c rand)
      (fun c topic rMsg rand fresh hcase hvalid hcmd => ?_) (fun c hcase => ?_) hs
    · refine traffic_replies.rexecAsy s c rMsg fun hcont hcall actId hactId => ?_
      simp [hcase, handledAsy, hvalid, hcmd, hcont, hcall, hactId] at hl
    · simp [hcase, Label.isReply] at hrep

end Requests

namespace Callee

variable {lib : Codec} {x y : Callee} {a : Act}

/-- The reply was made by the handler of its request. -/
def MadeByHandler (lib : Codec) (m : Reply) : Prop :=
  ∃ actId text, readActId m.request = some actId ∧ m.packet = .rexecAck actId ∧
    lib.dump (rexecAckMsg actId) = some text ∧ m.payload = lib.toCbor text

/-- The reply was made by a task of `CreateRPBatchCall` for its request. -/
def MadeByTask (lib : Codec) (m : Reply) : Prop :=
  ∃ result text, (readActId m.request).isSome ∧ m.packet = .reply ∧
    (jResult m.request result).bind lib.dump = some text ∧ m.payload = lib.toCbor text

/-- Tasks have requests that name an identifier, and the replies in the queue are theirs. Those
published are theirs, too, or the handler's. -/
structure Inv (lib : Codec) (x : Callee) : Prop where
  tasks : ∀ p ∈ x.tasks, (readActId p.2).isSome
  queue : ∀ m ∈ x.queue, MadeByTask lib m
  sent : ∀ m ∈ x.sent, MadeByHandler lib m ∨ MadeByTask lib m

/-- Every reply published carries the identifier of its request. -/
def AllFaithful (lib : Codec) (x : Callee) : Prop := ∀ m ∈ x.sent, m.Faithful lib

/-- A REXEC-RES that is published answers a request whose identifier is an `int`. -/
def FitsInt (x : Callee) : Act → Prop
  | .reply => ∀ m ∈ x.queue.head?, m.conn ∈ x.remote.isValidConnection →
      ∀ actId ∈ m.actId, actId < 2 ^ 32 → actId < 2 ^ 31
  | _ => True

instance (x : Callee) : ∀ a, Decidable (FitsInt x a)
  | .reply => inferInstanceAs (Decidable (∀ _ ∈ x.queue.head?, _ → _))
  | .remote _ | .returns _ _ => isTrue trivial

instance (lib : Codec) : DecidablePred (AllFaithful lib) := fun x =>
  inferInstanceAs (Decidable (∀ m ∈ x.sent, m.Faithful lib))

theorem faithful_ack (hlib : lib.Lawful) {m : Reply} (hm : MadeByHandler lib m) :
    m.Faithful lib := by
  obtain ⟨actId, text, hactId, -, htext, hpayload⟩ := hm
  intro n hn hlt
  obtain rfl : n = actId := by
    obtain ⟨k, hk, hmod⟩ := readActId_eq_some.mp hactId
    obtain rfl : k = n := by simpa [Reply.actId, hk] using hn
    omega
  obtain ⟨r, hdecode, hread⟩ := hlib.decode_dump htext
  exact ⟨r, hpayload ▸ hdecode, accepts_rexecAckMsg hread hlt⟩

theorem faithful_res_iff (hlib : lib.Lawful) {m : Reply} (hm : MadeByTask lib m) :
    m.Faithful lib ↔ ∀ actId ∈ m.actId, actId < 2 ^ 32 → actId < 2 ^ 31 := by
  obtain ⟨result, text, -, -, hbind, hpayload⟩ := hm
  obtain ⟨j, hj, htext⟩ := Option.bind_eq_some_iff.mp hbind
  obtain ⟨r, hdecode, hread⟩ := hlib.decode_dump htext
  rw [← hpayload] at hdecode
  refine forall₃_congr fun actId hactId hlt => ?_
  rw [← accepts_jResult_iff (Reply.mem_actId.mp hactId) hlt hj hread]
  constructor
  · rintro ⟨rMsg, hdecode', hacc⟩
    obtain rfl : r = rMsg := Option.some.inj (hdecode.symm.trans hdecode')
    exact hacc
  · exact fun hacc => ⟨r, hdecode, hacc⟩

/-- The process that has called takes the result of an identifier that is an `int`, and drops every
other one. -/
theorem arrived_res (hlib : lib.Lawful) {m : Reply} (hm : MadeByTask lib m) {actId : Nat}
    (hactId : actId ∈ m.actId) (hlt : actId < 2 ^ 32) {s : State} {c : Ptr} (howned : s.Owned c)
    (hvalid : c ∈ s.isValidConnection) (rand : Nat) (fresh : Ptr) :
    ∃ args, remoteArrivedCallback lib.fromCbor lib.parse s c (replyDown s.appId) m.payload
      rand fresh = some (if actId < 2 ^ 31 then
        storeRes { s with answers := (actId, args) :: s.answers } c actId args
      else ⟨s, .returned⟩) := by
  obtain ⟨result, text, -, -, hbind, hpayload⟩ := hm
  obtain ⟨j, hj, htext⟩ := Option.bind_eq_some_iff.mp hbind
  obtain ⟨rMsg, hdecode, hread⟩ := hlib.decode_dump htext
  obtain ⟨hid, hcmd, args, hargs⟩ := reread_jResult (Reply.mem_actId.mp hactId) hlt hj hread
  have hres : registerTopic (replyDown s.appId) (replyDown s.appId) rMsg "REXEC-RES" = true := by
    obtain ⟨w, hw, -⟩ := Option.bind_eq_some_iff.mp hcmd
    have hcontains : rMsg.contains "cmd" = true := Json.contains_iff_field.mpr ⟨w, hw⟩
    simp [registerTopic, hcontains, hcmd]
  have hother {topicName name : String} (hne : name ≠ "REXEC-RES") :
      registerTopic (replyDown s.appId) topicName rMsg name = false := registerTopic_ne hres hne
  have hrexecRes : handler s c (replyDown s.appId) rMsg rand fresh = rexecRes s c rMsg := by
    simp [handler, hvalid, dispatch, hother, hres]
  refine ⟨args, ?_⟩
  rw [remoteArrivedCallback, hpayload, hdecode, Option.map_some, if_pos howned, hrexecRes]
  unfold rexecRes
  rw [hid, hargs]
  by_cases hint : actId < 2 ^ 31
  · simp only [hint, ↓reduceIte]
  · simp only [hint, ↓reduceIte]

/-- What a step does. -/
inductive Stepped (lib : Codec) (x : Callee) : Act → Callee → Prop where
  | other {l : Label} {s : State} (hrep : l.isReply = false) (hl : handledAsy x.remote l = none)
      (hs : Remote.step x.remote l = some s) : Stepped lib x (.remote l) { x with remote := s }
  | unsent {l : Label} {s : State} {c : Ptr} {actId : Nat} {rMsg : Json}
      (hl : handledAsy x.remote l = some (c, actId, rMsg)) (hs : Remote.step x.remote l = some s)
      (htext : lib.dump (rexecAckMsg actId) = none) :
      Stepped lib x (.remote l) { x with remote := s, tasks := x.tasks ++ [(c, rMsg)] }
  | answered {l : Label} {s : State} {c : Ptr} {actId : Nat} {rMsg : Json} {text : String}
      (hl : handledAsy x.remote l = some (c, actId, rMsg)) (hs : Remote.step x.remote l = some s)
      (htext : lib.dump (rexecAckMsg actId) = some text) :
      Stepped lib x (.remote l) { x with
        remote := s
        tasks := x.tasks ++ [(c, rMsg)]
        sent := ⟨c, rMsg, .rexecAck actId, replyUp x.remote.appId, lib.toCbor text⟩ :: x.sent }
  | threw {i : Nat} {result : Except String Json} (hlive : x.remote.crashed = false) :
      Stepped lib x (.returns i result) { x with remote := { x.remote with crashed := true } }
  | finished {i : Nat} {result : Except String Json} {c : Ptr} {rMsg : Json} {text : String}
      (hmem : (c, rMsg) ∈ x.tasks) (htext : (jResult rMsg result).bind lib.dump = some text) :
      Stepped lib x (.returns i result) { x with
        tasks := x.tasks.eraseIdx i
        queue := x.queue ++ [⟨c, rMsg, .reply, "/replies/up", lib.toCbor text⟩] }
  | reply {m : Reply} {queue : List Reply} {s : State} (hq : x.queue = m :: queue)
      (hs : Remote.step x.remote (.reply m.conn) = some s) : Stepped lib x .reply { x with
        remote := s
        queue
        sent := if m.conn ∈ x.remote.isValidConnection then m :: x.sent else x.sent }

theorem step_cases (h : x.step lib a = some y) : Stepped lib x a y := by
  cases a with
  | remote l =>
    simp only [step, Option.ite_none_left_eq_some, Option.map_eq_some_iff] at h
    obtain ⟨hrep, s, hs, rfl⟩ := h
    cases hl : handledAsy x.remote l with
    | none => simpa [answer, hl] using Stepped.other (Bool.eq_false_iff.mpr hrep) hl hs
    | some r =>
      obtain ⟨c, actId, rMsg⟩ := r
      cases hdump : lib.dump (rexecAckMsg actId) with
      | none => simpa [answer, hl, hdump] using Stepped.unsent hl hs hdump
      | some text => simpa [answer, hl, hdump] using Stepped.answered hl hs hdump
  | returns i result =>
    simp only [step, Option.ite_none_left_eq_some, Option.map_eq_some_iff] at h
    obtain ⟨hlive, ⟨c, rMsg⟩, hi, rfl⟩ := h
    cases hres : (jResult rMsg result).bind lib.dump with
    | none => simpa [finish, hres] using Stepped.threw (Bool.eq_false_iff.mpr hlive)
    | some text =>
      simpa [finish, hres] using Stepped.finished (List.mem_of_getElem? hi) hres
  | reply =>
    cases hq : x.queue with
    | nil => simp [step, hq] at h
    | cons m queue =>
      simp only [step, hq, Option.map_eq_some_iff] at h
      obtain ⟨s, hs, rfl⟩ := h
      exact .reply hq hs

theorem inv_init (lib : Codec) (remote : State) : Inv lib { remote } := by
  constructor <;> simp

theorem Inv.step (h : Inv lib x) (hy : x.step lib a = some y) : Inv lib y := by
  have hanswered {l : Label} {s : State} {c : Ptr} {actId : Nat} {rMsg : Json}
      (hl : handledAsy x.remote l = some (c, actId, rMsg)) (hs : Remote.step x.remote l = some s) :
      ∀ p ∈ x.tasks ++ [(c, rMsg)], (readActId p.2).isSome := by
    intro p hp
    rcases List.mem_append.mp hp with hp | hp
    · exact h.tasks p hp
    · obtain rfl := List.mem_singleton.mp hp
      simp [(step_handledAsy hl hs).1]
  cases step_cases hy with
  | other | threw => exact ⟨h.tasks, h.queue, h.sent⟩
  | unsent hl hs => exact ⟨hanswered hl hs, h.queue, h.sent⟩
  | answered hl hs htext =>
    refine ⟨hanswered hl hs, h.queue, fun m hm => ?_⟩
    rcases List.mem_cons.mp hm with rfl | hm
    · exact .inl ⟨_, _, (step_handledAsy hl hs).1, rfl, htext, rfl⟩
    · exact h.sent m hm
  | finished hmem htext =>
    refine ⟨fun p hp => h.tasks p (List.mem_of_mem_eraseIdx hp), fun m hm => ?_, h.sent⟩
    rcases List.mem_append.mp hm with hm | hm
    · exact h.queue m hm
    · obtain rfl := List.mem_singleton.mp hm
      exact ⟨_, _, h.tasks _ hmem, rfl, htext, rfl⟩
  | @reply m queue _ hq _ =>
    have hmade : ∀ r ∈ m :: queue, MadeByTask lib r := hq ▸ h.queue
    refine ⟨h.tasks, fun r hr => hmade r (List.mem_cons_of_mem _ hr), fun r hr => ?_⟩
    split at hr
    · rcases List.mem_cons.mp hr with rfl | hr
      · exact .inr (hmade r List.mem_cons_self)
      · exact h.sent r hr
    · exact h.sent r hr

/-- What every reply of a run says: a REXEC-ACK the identifier of its request, a REXEC-RES only if
it is an `int`. -/
theorem faithful_reply_iff (hlib : lib.Lawful) (remote : State) {acts : List Act}
    (hr : run (step lib) { remote } acts = some y) {m : Reply} (hm : m ∈ y.sent) :
    m.Faithful lib ↔
      (m.packet = .reply → ∀ actId ∈ m.actId, actId < 2 ^ 32 → actId < 2 ^ 31) := by
  have hinv : Inv lib y := run_invariant (fun _ _ _ h hy => h.step hy) (inv_init lib remote) hr
  rcases hinv.sent m hm with hack | hres
  · obtain ⟨actId, -, -, hpacket, -⟩ := id hack
    exact iff_of_true (faithful_ack hlib hack) fun heq => by simp [hpacket] at heq
  · obtain ⟨-, -, -, hpacket, -⟩ := id hres
    rw [faithful_res_iff hlib hres]
    exact ⟨fun h _ => h, fun h => h hpacket⟩

/-- The remote layer of a run is a run of its own, and it may have crashed behind it. -/
theorem run_remote (remote : State) {acts : List Act}
    (hr : run (step lib) { remote } acts = some y) :
    ∃ ls s, run Remote.step remote ls = some s ∧
      (y.remote = s ∨ y.remote = { s with crashed := true }) := by
  refine run_invariant (I := fun y : Callee => ∃ ls s, run Remote.step remote ls = some s ∧
    (y.remote = s ∨ y.remote = { s with crashed := true })) ?_ ⟨[], remote, rfl, .inl rfl⟩ hr
  rintro x a y ⟨ls, s, hr, hx⟩ hy
  have hon {l : Label} {t : State} (ht : Remote.step x.remote l = some t) :
      run Remote.step remote (ls ++ [l]) = some t := by
    rcases hx with hx | hx
    · exact run_append.mpr ⟨s, hr, run_cons.mpr ⟨t, hx ▸ ht, rfl⟩⟩
    · rw [hx] at ht
      cases ht
  cases step_cases hy with
  | other _ _ hs | unsent _ hs | answered _ hs | reply _ hs => exact ⟨_, _, hon hs, .inl rfl⟩
  | finished => exact ⟨ls, s, hr, hx⟩
  | threw hlive =>
    rcases hx with hx | hx
    · exact ⟨ls, s, hr, .inr (by rw [hx])⟩
    · rw [hx] at hlive
      cases hlive

/-- If REXEC-ACK can be written, the replies are the messages that have answered requests since the
beginning. -/
theorem sent_replies (hack : ∀ actId, (lib.dump (rexecAckMsg actId)).isSome) (remote : State)
    {acts : List Act} (hr : run (step lib) { remote } acts = some y) :
    y.remote.replies = y.sent.map (fun m => (m.conn, m.packet)) ++ remote.replies := by
  refine (run_invariant (I := fun y => Inv lib y ∧
    y.remote.replies = y.sent.map (fun m => (m.conn, m.packet)) ++ remote.replies) ?_
    ⟨inv_init lib remote, rfl⟩ hr).2
  rintro x a y ⟨hinv, hx⟩ hy
  refine ⟨hinv.step hy, ?_⟩
  cases step_cases hy with
  | other hrep hl hs => simpa [hl, hx] using step_replies hrep hs
  | @unsent _ _ _ actId _ _ _ htext => simpa [htext] using hack actId
  | threw | finished => exact hx
  | answered hl hs =>
    rw [State.replies, (step_handledAsy hl hs).2, List.filter_cons_of_pos rfl]
    exact congrArg _ hx
  | @reply m _ _ hq hs =>
    obtain ⟨-, -, -, hpacket, -⟩ := hinv.queue m (hq ▸ List.mem_cons_self)
    simp only [Remote.step, Option.ite_none_left_eq_some, Option.some.injEq] at hs
    obtain ⟨-, rfl⟩ := hs
    unfold Remote.reply
    split
    · simp [replies_publish, Packet.isReply, hpacket, hx]
    · exact hx

/-- A step keeps the replies faithful exactly if it publishes no REXEC-RES for an identifier that
is no `int`. -/
theorem allFaithful_step_iff (hlib : lib.Lawful) (h : Inv lib x) (hx : AllFaithful lib x)
    (hy : x.step lib a = some y) : AllFaithful lib y ↔ FitsInt x a := by
  cases step_cases hy with
  | other | unsent | threw | finished => exact iff_of_true hx trivial
  | answered hl hs htext =>
    refine iff_of_true (fun m hm => ?_) trivial
    rcases List.mem_cons.mp hm with rfl | hm
    · exact faithful_ack hlib ⟨_, _, (step_handledAsy hl hs).1, rfl, htext, rfl⟩
    · exact hx m hm
  | @reply m queue _ hq _ =>
    have hfaithful := faithful_res_iff hlib (h.queue m (hq ▸ List.mem_cons_self))
    simp only [FitsInt, hq, List.head?_cons, Option.mem_def, Option.some.injEq, forall_eq']
    by_cases hvalid : m.conn ∈ x.remote.isValidConnection
    · simp only [AllFaithful, hvalid, ↓reduceIte, List.mem_cons, forall_eq_or_imp, forall_const]
      exact (and_iff_left hx).trans hfaithful
    · simp only [AllFaithful, hvalid, ↓reduceIte, false_imp_iff, iff_true]
      exact hx

/-- In every run from a state without tasks and replies, every REXEC-ACK and REXEC-RES published
for a request with an identifier of 32 bits carries this identifier, as a number that the handler of
the command accepts, exactly as long as no REXEC-RES is published for an identifier from 2^31 on. -/
theorem allFaithful_iff (hlib : lib.Lawful) (remote : State) {acts : List Act}
    (hr : run (step lib) { remote } acts = some y) :
    Always (step lib) (AllFaithful lib) { remote } acts ↔
      Along (step lib) FitsInt { remote } acts :=
  always_iff_along (I := Inv lib) (fun _ _ _ h hy => h.step hy)
    (fun _ _ _ h hx hy => allFaithful_step_iff hlib h hx hy) (inv_init lib remote)
    (fun _ hm => nomatch hm) hr

/-- A REXEC-ASY for a function without arguments. -/
def rexecAsyMsg (actId : Nat) : Json :=
  .obj [("cmd", .str "REXEC-ASY"), ("actname", .str "f"), ("actid", .unsigned actId),
    ("args", .arr [])]

/-- The request comes in, its function returns 7 and the reply is published. -/
def callRun (actId : Nat) : List Act :=
  [.remote (.arrived 0 "/app/requests/down/c" (rexecAsyMsg actId) 0 1),
    .returns 0 (.ok (.unsigned 7)), .reply]

/-- The JSON library on the replies of these runs, for 5 and for 2^32 - 1. -/
def sampleLib : Codec where
  dump
    | .obj [("cmd", .str "REXEC-ACK"), ("actid", .unsigned 5)] =>
      some "\x7b\"actid\":5,\"cmd\":\"REXEC-ACK\"\x7d"
    | .obj [("cmd", .str "REXEC-RES"), ("actid", .integer 5), ("args", .unsigned 7)] =>
      some "\x7b\"actid\":5,\"args\":7,\"cmd\":\"REXEC-RES\"\x7d"
    | .obj [("cmd", .str "REXEC-ACK"), ("actid", .unsigned 4294967295)] =>
      some "\x7b\"actid\":4294967295,\"cmd\":\"REXEC-ACK\"\x7d"
    | .obj [("cmd", .str "REXEC-RES"), ("actid", .integer (-1)), ("args", .unsigned 7)] =>
      some "\x7b\"actid\":-1,\"args\":7,\"cmd\":\"REXEC-RES\"\x7d"
    | _ => none
  toCbor text := Cbor.toCbor text.toUTF8.data.toList
  fromCbor payload := (Cbor.fromCbor payload).bind fun text =>
    (String.fromUTF8? ⟨text.toArray⟩).map Json.str
  parse
    | "\x7b\"actid\":5,\"cmd\":\"REXEC-ACK\"\x7d" =>
      some (.obj [("cmd", .str "REXEC-ACK"), ("actid", .unsigned 5)])
    | "\x7b\"actid\":5,\"args\":7,\"cmd\":\"REXEC-RES\"\x7d" =>
      some (.obj [("cmd", .str "REXEC-RES"), ("actid", .unsigned 5), ("args", .unsigned 7)])
    | "\x7b\"actid\":4294967295,\"cmd\":\"REXEC-ACK\"\x7d" =>
      some (.obj [("cmd", .str "REXEC-ACK"), ("actid", .unsigned 4294967295)])
    | "\x7b\"actid\":-1,\"args\":7,\"cmd\":\"REXEC-RES\"\x7d" =>
      some (.obj [("cmd", .str "REXEC-RES"), ("actid", .integer (-1)), ("args", .unsigned 7)])
    | _ => none

theorem sampleLib_fromCbor {text : String} (h : text.toUTF8.data.toList.length < 2 ^ 64) :
    sampleLib.fromCbor (sampleLib.toCbor text) = some (.str text) := by
  have hvalid : text.toUTF8.IsValidUTF8 := text.isValidUTF8
  simp only [sampleLib, Cbor.fromCbor_toCbor h, Option.bind_some, Array.toArray_toList]
  rw [String.fromUTF8?, dif_pos hvalid]
  rfl

theorem sampleLib_lawful : sampleLib.Lawful where
  fromCbor_toCbor {j text} h := by
    apply sampleLib_fromCbor
    simp only [sampleLib] at h
    split at h <;> cases h <;> decide
  parse_dump {j text} h := by
    simp only [sampleLib] at h
    split at h <;> cases h
    · exact ⟨_, rfl, .members (.cons ⟨rfl, .str _⟩ (.cons ⟨rfl, .unsigned _⟩ .nil))⟩
    · exact ⟨_, rfl, .members (.cons ⟨rfl, .str _⟩ (.cons ⟨rfl, .natural 5⟩
        (.cons ⟨rfl, .unsigned _⟩ .nil)))⟩
    · exact ⟨_, rfl, .members (.cons ⟨rfl, .str _⟩ (.cons ⟨rfl, .unsigned _⟩ .nil))⟩
    · exact ⟨_, rfl, .members (.cons ⟨rfl, .str _⟩ (.cons ⟨rfl, .negative (by decide)⟩
        (.cons ⟨rfl, .unsigned _⟩ .nil)))⟩

theorem allFaithful_callRun :
    ∃ y, run (step sampleLib) { remote := init "app" ["f"] 7 0 } (callRun 5) = some y ∧
      y.sent.length = 2 ∧ Always (step sampleLib) (AllFaithful sampleLib)
        { remote := init "app" ["f"] 7 0 } (callRun 5) := by
  obtain ⟨y, hr, hlength⟩ : ∃ y, run (step sampleLib) { remote := init "app" ["f"] 7 0 }
      (callRun 5) = some y ∧ y.sent.length = 2 := run_reaches (by decide)
  exact ⟨y, hr, hlength, (allFaithful_iff sampleLib_lawful _ hr).mpr (by decide)⟩

/-- The reply for 2^32 - 1 has the number -1. -/
theorem not_faithful_callRun : sampleLib.Lawful ∧
    ∃ y, run (step sampleLib) { remote := init "app" ["f"] 7 0 } (callRun 4294967295) = some y ∧
      ∃ m ∈ y.sent, m.packet = .reply ∧ m.actId = some 4294967295 ∧ ¬ m.Faithful sampleLib :=
  ⟨sampleLib_lawful, run_reaches (by decide)⟩

end Callee

end JamSched.Remote
