import JamSched.Remote.Connections

/-!
# Payloads from the network

`RemoteArrivedCallback` from the bytes of a message to the end of the handler it queues. The bytes
are decoded outside of any `try`, so what `from_cbor`, `get` or `parse` throws leaves the callback.
The handler reads `cfINFO->remote` before it looks whether the connection is still valid. Behind
that only PUT-CF-INFO uses a field it has not tested, and it has put the identifier into the cache
by then.
-/
namespace JamSched.Remote

section Callback

variable (fromCbor : List UInt8 → Option Json) (parse : String → Option Json)

/-- `parse(from_cbor(cbor_).get<std::string>())`, or `none` if one of the three throws. -/
def decode (payload : List UInt8) : Option Json :=
  fromCbor payload >>= Json.getString >>= parse

/-- `RemoteArrivedCallback` and the handler it queues, which finds the state `s`; `none` if an
exception leaves the callback. -/
def remoteArrivedCallback (s : State) (cfINFO : Ptr) (topicname : String) (payload : List UInt8)
    (rand : Nat) (fresh : Ptr) : Option Handled :=
  (decode fromCbor parse payload).map fun rMsg =>
    -- `cfINFO->remote`
    if s.Owned cfINFO then handler s cfINFO topicname rMsg rand fresh
    else ⟨s, .undefined⟩

end Callback

section Formats

/-- `rMsg["args"][0].get<std::string>()`. -/
def hostArg (rMsg : Json) : Option String :=
  (rMsg.field "args" >>= fun args => args.element 0) >>= Json.getString

/-- `rMsg["actid"].get<uint32_t>()`. -/
def actIdArg (rMsg : Json) : Option Nat := rMsg.field "actid" >>= Json.getUInt32

/-- PUT-CF-INFO with a number, a host to connect to or one that is connected, and nothing else
in their place. -/
def WellFormedPut (s : State) (rMsg : Json) : Prop :=
  (actIdArg rMsg).isSome ∧ ∃ host, hostArg rMsg = some host ∧
    (isPut rMsg "ADD" ∨ isPut rMsg "DEL" ∧ (s.cloudFogInfo.lookup host).isSome)

/-- The message is a command of its topic and has the fields of this command. -/
def WellFormed (s : State) (topic : String) (rMsg : Json) : Prop :=
  registerTopic topic (announceDown s.appId) rMsg "PING" ∨
  registerTopic topic (announceDown s.appId) rMsg "KILL" ∨
  registerTopic topic (announceDown s.appId) rMsg "REGISTER-ACK" ∨
  registerTopic topic (announceDown s.appId) rMsg "PUT-CF-INFO" ∧ WellFormedPut s rMsg ∨
  registerTopic topic (replyDown s.appId) rMsg "REXEC-ACK" ∧ (readActId rMsg).isSome ∨
  registerTopic topic (requestDown s.appId) rMsg "REXEC-ASY" ∧ (readActId rMsg).isSome ∧
    (rMsg.field "actname").any Json.isString ∧ rMsg.contains "args" ∨
  registerTopic topic (requestDown s.appId) rMsg "REXEC-SYN" ∧ (readActId rMsg).isSome ∨
  registerTopic topic (replyDown s.appId) rMsg "REXEC-RES" ∧ (readActId rMsg).isSome ∧
    rMsg.contains "args"

/-- The tables, the connections and the cache are as they were. -/
structure SameTables (s t : State) : Prop where
  ackLookup : t.ackLookup = s.ackLookup
  rLookup : t.rLookup = s.rLookup
  cloudFogInfo : t.cloudFogInfo = s.cloudFogInfo
  isValidConnection : t.isValidConnection = s.isValidConnection
  cache : t.cache = s.cache

/-- The code has run to its end without undefined behaviour, and has left everything as it was
unless the message is `good`. -/
def Handled.Guarded (s : State) (good : Prop) (h : Handled) : Prop :=
  h.exit ≠ .undefined ∧ (¬ good → SameTables s h.state)

/-- A PUT-CF-INFO that goes wrong: a DEL without an identifier, or one with a new identifier and
no host, or no connected one to delete. -/
def BadPut (s : State) (rMsg : Json) : Prop :=
  (isPut rMsg "ADD" ∧ rMsg.contains "actid" ∨ isPut rMsg "DEL") ∧
    (rMsg.contains "actid" = false ∨
      ∃ actId, actIdArg rMsg = some actId ∧ actId ∉ s.cache ∧
        ∀ host, hostArg rMsg = some host → isPut rMsg "DEL" ∧ s.cloudFogInfo.lookup host = none)

end Formats

section Commands

variable {s : State} {c fresh : Ptr} {topic : String} {rMsg : Json} {rand : Nat} {good : Prop}

theorem SameTables.refl (s : State) : SameTables s s := ⟨rfl, rfl, rfl, rfl, rfl⟩

/-- A command that has changed nothing. -/
theorem guarded_of_eq {h : Handled} (hexit : h.exit ≠ .undefined) (hstate : h.state = s) :
    h.Guarded s good := by
  refine ⟨hexit, fun _ => ?_⟩
  rw [hstate]
  exact .refl s

theorem guarded_of_good {h : Handled} (hexit : h.exit ≠ .undefined) (hgood : good) :
    h.Guarded s good :=
  ⟨hexit, fun hbad => absurd hgood hbad⟩

theorem Handled.Guarded.mono {good' : Prop} {h : Handled} (hg : h.Guarded s good)
    (himp : good → good') : h.Guarded s good' :=
  ⟨hg.1, fun hbad => hg.2 fun hgood => hbad (himp hgood)⟩

theorem guarded_ite {p : Prop} [Decidable p] {h h' : Handled} (hthen : p → h.Guarded s good)
    (helse : h'.Guarded s good) : (if p then h else h').Guarded s good := by
  split
  · next hp => exact hthen hp
  · exact helse

theorem ofResult_exit (r : Result) : (Handled.ofResult r).exit ≠ .undefined := by
  cases r <;> simp [Handled.ofResult]

theorem cacheInsert_ne {cache : List Nat} {key : Nat} (h : key ∉ cache) :
    cacheInsert cache key ≠ cache := by
  intro heq
  apply h
  rw [← heq]
  simp [cacheInsert, h]

/-- Both branches of PUT-CF-INFO, for an `act` that is safe on the hosts in `ok`. -/
theorem withHost_guarded (s : State) (rMsg : Json) (act : State → String → Handled)
    (ok : String → Prop)
    (hact : ∀ u host, u.cloudFogInfo = s.cloudFogInfo →
      ((act u host).exit ≠ .undefined ↔ ok host)) :
    (withHost s rMsg act).Guarded s
        ((actIdArg rMsg).isSome ∧ ∃ host, hostArg rMsg = some host ∧ ok host) ↔
      ¬ (rMsg.field "actid" = none ∨ ∃ actId, actIdArg rMsg = some actId ∧ actId ∉ s.cache ∧
        ∀ host, hostArg rMsg = some host → ¬ ok host) := by
  unfold withHost
  split
  · next hid => simp [Handled.Guarded, hid]
  · next actid hid =>
    split
    · next hnum => simp [Handled.Guarded, actIdArg, hid, hnum, SameTables.refl]
    · next actId hnum =>
      have harg : actIdArg rMsg = some actId := by simp [actIdArg, hid, hnum]
      split
      · next hcache => simp [Handled.Guarded, harg, hid, hcache, SameTables.refl]
      · next hcache =>
        -- from here on the cache has changed
        have hchanged : ¬ SameTables s { s with cache := cacheInsert s.cache actId } :=
          fun h => cacheInsert_ne hcache h.cache
        dsimp only
        split
        · next hargs => simp [Handled.Guarded, harg, hid, hcache, hostArg, hargs]
        · next v hargs =>
          split
          · next hstr =>
            simp [Handled.Guarded, harg, hid, hcache, hostArg, hargs, hstr, hchanged]
          · next host hstr =>
            have hhost : hostArg rMsg = some host := by simp [hostArg, hargs, hstr]
            have hok := hact { s with cache := cacheInsert s.cache actId } host rfl
            by_cases hgood : ok host
            · simp [Handled.Guarded, harg, hid, hhost, hgood, hok.mpr hgood]
            · have hundef : (act { s with cache := cacheInsert s.cache actId } host).exit =
                  .undefined := by
                by_contra hexit
                exact hgood (hok.mp hexit)
              simp [Handled.Guarded, harg, hid, hcache, hhost, hgood, hundef]

theorem addHost_exit (host : String) : (addHost fresh s host).exit ≠ .undefined := by
  unfold addHost
  split <;> simp

theorem delHost_exit (host : String) :
    (delHost s host).exit ≠ .undefined ↔ (s.cloudFogInfo.lookup host).isSome = true := by
  unfold delHost
  split
  · next hnone => simp [hnone]
  · next d hd => simp [hd, ofResult_exit]

theorem contains_eq_false {key : String} : rMsg.contains key = false ↔ rMsg.field key = none := by
  cases rMsg <;> simp [Json.contains, Json.field]

theorem putCFInfo_guarded :
    (putCFInfo s rMsg fresh).Guarded s (WellFormedPut s rMsg) ↔ ¬ BadPut s rMsg := by
  unfold putCFInfo
  split
  · next hadd =>
    have hdel : isPut rMsg "DEL" = false := isPut_opt hadd.1 (by decide)
    have hid : rMsg.field "actid" ≠ none := by
      rw [Ne, ← contains_eq_false]
      simp [hadd.2]
    have hput := withHost_guarded s rMsg (addHost fresh) (fun _ => True) fun u host _ => by
      simp [addHost_exit]
    simpa [WellFormedPut, BadPut, hadd, hdel, hid] using hput
  · split
    · next hdel =>
      have hadd : isPut rMsg "ADD" = false := isPut_opt hdel (by decide)
      have hput := withHost_guarded s rMsg delHost
        (fun host => (s.cloudFogInfo.lookup host).isSome = true) fun u host hu => by
          rw [delHost_exit, hu]
      simpa [WellFormedPut, BadPut, hadd, hdel, contains_eq_false] using hput
    · next hadd hdel =>
      -- neither of the two: nothing is done
      have hgood : Handled.Guarded s (WellFormedPut s rMsg) ⟨s, .returned⟩ :=
        guarded_of_eq (by simp) rfl
      have hbad : ¬ BadPut s rMsg := by
        rintro ⟨h | h, -⟩
        · exact hadd h
        · exact hdel h
      exact iff_of_true hgood hbad

theorem rexecAck_guarded : (rexecAck s rMsg).Guarded s (readActId rMsg).isSome := by
  unfold rexecAck
  split
  · exact guarded_of_eq (by simp) rfl
  · next actId hid =>
    refine guarded_of_good ?_ (by simp [hid])
    split
    · simp
    · exact ofResult_exit _

/-- Only a call with a name and arguments goes to the scheduler. -/
theorem createRPBatchCall_fields (h : createRPBatchCall s rMsg = some true) :
    (rMsg.field "actname").any Json.isString = true ∧ rMsg.contains "args" = true := by
  unfold createRPBatchCall at h
  split at h
  · next hfields =>
    refine ⟨?_, hfields.2⟩
    cases hname : rMsg.field "actname" with
    | none => simp [hname] at h
    | some name => cases name <;> simp_all [Json.getString, Json.isString]
  · simp at h

theorem rexecAsy_guarded : (rexecAsy s c rMsg).Guarded s ((readActId rMsg).isSome ∧
    (rMsg.field "actname").any Json.isString ∧ rMsg.contains "args") := by
  unfold rexecAsy
  split
  · exact guarded_of_eq (by simp) rfl
  · next actId hid =>
    split
    · split
      · exact guarded_of_eq (by simp) rfl
      · exact guarded_of_eq (by simp) rfl
      · next hcall =>
        exact guarded_of_good (by simp) ⟨by simp [hid], createRPBatchCall_fields hcall⟩
    · exact guarded_of_eq (by simp) rfl

theorem rexecRes_guarded : (rexecRes s c rMsg).Guarded s ((readActId rMsg).isSome ∧
    rMsg.contains "args") := by
  unfold rexecRes
  split
  · next actId args hid hargs =>
    refine guarded_of_good ?_ ⟨by simp [hid], Json.contains_iff_field.mpr ⟨args, hargs⟩⟩
    unfold storeRes
    split
    · simp
    · exact ofResult_exit _
  · exact guarded_of_eq (by simp) rfl

/-- Behind the check of the connection only a PUT-CF-INFO goes wrong. -/
theorem dispatch_guarded :
    (dispatch s c topic rMsg rand fresh).Guarded s (WellFormed s topic rMsg) ↔
      (registerTopic topic (announceDown s.appId) rMsg "PUT-CF-INFO" = true → ¬ BadPut s rMsg) := by
  by_cases hput : registerTopic topic (announceDown s.appId) rMsg "PUT-CF-INFO" = true
  · have hother : ∀ (topicName : String) {name : String}, name ≠ "PUT-CF-INFO" →
        registerTopic topic topicName rMsg name = false :=
      fun topicName _ hne => registerTopic_ne hput hne
    have hform : WellFormed s topic rMsg ↔ WellFormedPut s rMsg := by
      simp [WellFormed, hput, hother]
    rw [hform]
    simp [dispatch, hput, hother, putCFInfo_guarded]
  · refine iff_of_true ?_ fun h => absurd h hput
    unfold dispatch
    refine guarded_ite (fun h => ?_) (guarded_ite (fun h => ?_) (guarded_ite (fun h => ?_) ?_))
    · exact guarded_of_good (by simp) (by simp [WellFormed, h])
    · exact guarded_of_good (ofResult_exit _) (by simp [WellFormed, h])
    · exact guarded_of_good (by simp) (by simp [WellFormed, h])
    rw [if_neg hput]
    refine guarded_ite (fun h => ?_) (guarded_ite (fun h => ?_) (guarded_ite (fun h => ?_)
      (guarded_ite (fun h => ?_) ?_)))
    · exact rexecAck_guarded.mono fun hg => by simp [WellFormed, h, hg]
    · exact rexecAsy_guarded.mono fun hg => by simp [WellFormed, h, hg]
    · exact guarded_of_eq (by simp) rfl
    · exact rexecRes_guarded.mono fun hg => by simp [WellFormed, h, hg]
    · exact guarded_of_eq (by simp) rfl

end Commands

section Arrived

variable (fromCbor : List UInt8 → Option Json) (parse : String → Option Json)

/-- No exception leaves the callback, nothing that is not there is used, and a message that is no
well-formed command of its topic changes none of the tables. -/
def GuardedArrival (s : State) (c : Ptr) (topic : String) (payload : List UInt8) (rand : Nat)
    (fresh : Ptr) : Prop :=
  ∃ h, remoteArrivedCallback fromCbor parse s c topic payload rand fresh = some h ∧
    h.Guarded s (∃ rMsg, decode fromCbor parse payload = some rMsg ∧ WellFormed s topic rMsg)

/-- For every payload, topic, connection and state this is so exactly if the payload can be
decoded, the object of the connection is still there, and the message is not one of the
PUT-CF-INFO that go wrong, or the connection is not valid. -/
theorem arrived_guarded_iff (s : State) (c : Ptr) (topic : String) (payload : List UInt8)
    (rand : Nat) (fresh : Ptr) :
    GuardedArrival fromCbor parse s c topic payload rand fresh ↔
      ∃ rMsg, decode fromCbor parse payload = some rMsg ∧ s.Owned c ∧
        (c ∈ s.isValidConnection →
          registerTopic topic (announceDown s.appId) rMsg "PUT-CF-INFO" = true →
          ¬ BadPut s rMsg) := by
  unfold GuardedArrival remoteArrivedCallback
  cases hdec : decode fromCbor parse payload with
  | none => simp
  | some rMsg =>
    by_cases hown : s.Owned c
    · by_cases hvalid : c ∈ s.isValidConnection
      · simp [hown, hvalid, handler, dispatch_guarded]
      · have hskip : Handled.Guarded s (WellFormed s topic rMsg) ⟨s, .returned⟩ :=
          guarded_of_eq (by simp) rfl
        simpa [hown, hvalid, handler] using hskip
    · simp [hown, Handled.Guarded]

/-- A DEL of the host `h`, as JSON text. -/
def delText : String :=
  "\x7b\"cmd\":\"PUT-CF-INFO\",\"opt\":\"DEL\",\"actid\":5,\"args\":[\"h\"]\x7d"

/-- The text as a CBOR string of 56 bytes. -/
def delPayload : List UInt8 := 0x78 :: 56 :: delText.toUTF8.toList

/-- At the start no host is connected, and the null pointer for `h` is cleared. -/
theorem del_unknown_host_not_guarded :
    ¬ GuardedArrival (fun payload => if payload = delPayload then some (.str delText) else none)
      (fun text => if text = delText then some (putCFInfoMsg "DEL" 5 "h") else none)
      (init "app" [] 7 0) 0 "/app/announce/down" delPayload 0 1 := by
  rintro ⟨h, heq, hexit, -⟩
  have hundef : (remoteArrivedCallback
      (fun payload => if payload = delPayload then some (.str delText) else none)
      (fun text => if text = delText then some (putCFInfoMsg "DEL" 5 "h") else none)
      (init "app" [] 7 0) 0 "/app/announce/down" delPayload 0 1).map Handled.exit =
      some .undefined := by decide +kernel
  rw [heq] at hundef
  exact hexit (Option.some.inj hundef)

end Arrived

end JamSched.Remote
