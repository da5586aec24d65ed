import JamSched.Remote.Machine

/-!
# What the surroundings do to an execution

Messages, expiries and cancellations complete promises and shrink the tables; they leave the
program counters, the calls and the callbacks alone. `Env` says so once, for every step that is
no step of an attempt and no new call. In return a step of an attempt leaves the other attempts
and the other calls alone.
-/
namespace JamSched.Remote

/-- The change of one attempt by its surroundings: a promise is completed at most once, and the
history of its answers follows. -/
structure Attempt.Touched (t t' : Attempt) : Prop where
  same : t' = { t with
    ack := t'.ack, res := t'.res, acknowledged := t'.acknowledged, received := t'.received }
  ack : t.ack.isSome → t'.ack = t.ack
  res : t.res.isSome → t'.res = t.res
  acknowledged : t'.acknowledged =
    (t.acknowledged || (t.ack.isNone && (t'.ack == some true) && t.pc.inLoop))
  received : t'.received =
    (t.received || (t.res.isNone && t'.res.any (·.1) && t.pc.inWait))

namespace Attempt.Touched

variable {t u v : Attempt}

theorem refl (t : Attempt) : t.Touched t := by
  refine ⟨rfl, fun _ => rfl, fun _ => rfl, ?_, ?_⟩
  · cases t.ack <;> simp
  · cases t.res <;> simp

theorem kind (h : t.Touched u) : u.kind = t.kind := by rw [h.same]

theorem call (h : t.Touched u) : u.call = t.call := by rw [h.same]

theorem pc (h : t.Touched u) : u.pc = t.pc := by rw [h.same]

theorem tempEID (h : t.Touched u) : u.tempEID = t.tempEID := by rw [h.same]

theorem registered (h : t.Touched u) : u.registered = t.registered := by rw [h.same]

theorem serial (h : t.Touched u) : u.serial = t.serial := by rw [h.same]

theorem counts (h : t.Touched u) : u.counts = t.counts := by rw [h.same]

theorem returned (h : t.Touched u) : u.returned = t.returned := by rw [h.same]

theorem trans (h : t.Touched u) (g : u.Touched v) : t.Touched v := by
  refine ⟨?_, ?_, ?_, ?_, ?_⟩
  · rw [g.same, h.same]
  · intro ht
    have hu := h.ack ht
    rw [g.ack (hu ▸ ht), hu]
  · intro ht
    have hu := h.res ht
    rw [g.res (hu ▸ ht), hu]
  · rw [g.acknowledged, h.acknowledged, h.pc]
    rcases hu : u.ack with _ | b
    · have : t.ack.isNone := by
        cases ht : t.ack with
        | none => rfl
        | some b => simpa [ht, hu] using h.ack (by simp [ht])
      simp [this]
    · rw [g.ack (by simp [hu]), hu]
      simp
  · rw [g.received, h.received, h.pc]
    rcases hu : u.res with _ | b
    · have : t.res.isNone := by
        cases ht : t.res with
        | none => rfl
        | some b => simpa [ht, hu] using h.res (by simp [ht])
      simp [this]
    · rw [g.res (by simp [hu]), hu]
      simp

end Attempt.Touched

/-- What a state knows of the executions. -/
def State.executions (s : State) :=
  (s.attempt, s.nAttempts, s.call, s.nCalls, s.callbacks, s.eIdFactory, s.allocs, s.ackLookup,
    s.rLookup, s.answers)

/-- What every step of the surroundings satisfies. -/
structure Env (s t : State) : Prop where
  attempt : ∀ a, (s.attempt a).Touched (t.attempt a)
  nAttempts : t.nAttempts = s.nAttempts
  call : t.call = s.call
  nCalls : t.nCalls = s.nCalls
  callbacks : t.callbacks = s.callbacks
  eIdFactory : t.eIdFactory = s.eIdFactory
  allocs : t.allocs = s.allocs
  ackLookup : ∀ id a, t.ackLookup id = some a → s.ackLookup id = some a
  rLookup : ∀ id a, t.rLookup id = some a → s.rLookup id = some a
  /-- Promises are completed through the tables, and a result is one that was received. -/
  ack : ∀ a, (t.attempt a).ack ≠ (s.attempt a).ack → ∃ id, s.ackLookup id = some a
  res : ∀ a, (t.attempt a).res ≠ (s.attempt a).res → ∃ id, s.rLookup id = some a ∧
    ∀ ok j, (t.attempt a).res = some (ok, j) → if ok then (id, j) ∈ t.answers else j = .obj []
  answers : s.answers ⊆ t.answers

namespace Env

variable {s t u : State}

theorem refl (s : State) : Env s s :=
  ⟨fun _ => .refl _, rfl, rfl, rfl, rfl, rfl, rfl, fun _ _ => id, fun _ _ => id,
    fun _ h => absurd rfl h, fun _ h => absurd rfl h, fun _ => id⟩

theorem trans (h : Env s t) (g : Env t u) : Env s u where
  attempt a := (h.attempt a).trans (g.attempt a)
  nAttempts := g.nAttempts.trans h.nAttempts
  call := g.call.trans h.call
  nCalls := g.nCalls.trans h.nCalls
  callbacks := g.callbacks.trans h.callbacks
  eIdFactory := g.eIdFactory.trans h.eIdFactory
  allocs := g.allocs.trans h.allocs
  ackLookup id a ha := h.ackLookup id a (g.ackLookup id a ha)
  rLookup id a ha := h.rLookup id a (g.rLookup id a ha)
  ack a hne := by
    by_cases ht : (t.attempt a).ack = (s.attempt a).ack
    · obtain ⟨id, hid⟩ := g.ack a (ht ▸ hne)
      exact ⟨id, h.ackLookup id a hid⟩
    · exact h.ack a ht
  res a hne := by
    by_cases ht : (t.attempt a).res = (s.attempt a).res
    · obtain ⟨id, hid, hj⟩ := g.res a (ht ▸ hne)
      exact ⟨id, h.rLookup id a hid, hj⟩
    · obtain ⟨id, hid, hj⟩ := h.res a ht
      -- completed by the first half, so the second one kept it
      have hsome : (t.attempt a).res.isSome = true := by
        cases hr : (t.attempt a).res with
        | some v => rfl
        | none =>
          cases hs : (s.attempt a).res with
          | none => exact absurd (hr.trans hs.symm) ht
          | some v => exact absurd ((h.attempt a).res (by simp [hs])) ht
      refine ⟨id, hid, fun ok j hu => ?_⟩
      have hj := hj ok j (by rw [← (g.attempt a).res hsome, hu])
      cases ok with
      | true => exact g.answers hj
      | false => exact hj
  answers := fun _ hx => g.answers (h.answers hx)

/-- The fields that `Env` speaks of are the same. -/
theorem of_eq (h : t.executions = s.executions) : Env s t := by
  simp only [State.executions, Prod.mk.injEq] at h
  obtain ⟨ha, hn, hc, hm, hb, he, hl, hk, hr, hx⟩ := h
  refine ⟨fun a => ?_, hn, hc, hm, hb, he, hl, fun i a => ?_, fun i a => ?_, fun a h => ?_,
    fun a h => ?_, fun x => ?_⟩
  · rw [ha]
    exact .refl _
  · rw [hk]
    exact id
  · rw [hr]
    exact id
  · exact absurd (congrFun ha a ▸ rfl) h
  · exact absurd (congrFun ha a ▸ rfl) h
  · rw [hx]
    exact id

/-- One attempt is touched, through the table that holds its promise. -/
theorem updAttempt {a : Nat} {f : Attempt → Attempt} (h : (s.attempt a).Touched (f (s.attempt a)))
    (hack : (f (s.attempt a)).ack ≠ (s.attempt a).ack → ∃ id, s.ackLookup id = some a)
    (hres : (f (s.attempt a)).res ≠ (s.attempt a).res → ∃ id, s.rLookup id = some a ∧
      ∀ ok j, (f (s.attempt a)).res = some (ok, j) →
        if ok then (id, j) ∈ s.answers else j = .obj []) :
    Env s (s.updAttempt a f) := by
  refine ⟨fun b => ?_, rfl, rfl, rfl, rfl, rfl, rfl, fun _ _ => id, fun _ _ => id, fun b => ?_,
    fun b => ?_, fun _ => id⟩
  · by_cases hb : b = a
    · subst hb
      simpa [State.updAttempt] using h
    · simpa [State.updAttempt, Function.update_of_ne hb] using Attempt.Touched.refl _
  · by_cases hb : b = a
    · subst hb
      simpa [State.updAttempt] using hack
    · simp [State.updAttempt, Function.update_of_ne hb]
  · by_cases hb : b = a
    · subst hb
      simpa [State.updAttempt] using hres
    · simp [State.updAttempt, Function.update_of_ne hb]

theorem updConn (c : Ptr) (f : CloudFogInfo → CloudFogInfo) : Env s (s.updConn c f) :=
  .of_eq rfl

end Env

/-- The state behind code that may throw. -/
def Result.state : Result → State
  | .ok s => s
  | .error s => s

@[simp] theorem Result.state_ok (s : State) : Result.state (.ok s) = s := rfl

@[simp] theorem Result.state_error (s : State) : Result.state (.error s) = s := rfl

/-! ## Relations that hold across the functions -/

/-- A relation that holds across the updates of which the expiry of connections, their
cancellation and PUT-CF-INFO consist. -/
structure Framed (R : State → State → Prop) : Prop where
  refl : ∀ s, R s s
  trans : ∀ {s t u}, R s t → R t u → R s u
  /-- Executions, connections and messages are the same. -/
  of_eq : ∀ {s t : State}, t.executions = s.executions → t.conn = s.conn →
    t.published = s.published → R s t
  /-- The flags of a connection change. -/
  flags : ∀ s c (registered expired : CloudFogInfo → Bool),
    R s (s.updConn c fun i => { i with isRegistered := registered i, isExpired := expired i })
  ack : ∀ s id a, s.ackLookup id = some a → R s (setAck s a false).state
  res : ∀ s id a, s.rLookup id = some a → R s (setRes s a (false, .obj [])).state

namespace Framed

variable {R : State → State → Prop}

section Results

variable {s : State} {r : Result}

theorem bind (h : Framed R) {f : State → Result} (hr : R s r.state)
    (hf : ∀ u, R u (f u).state) : R s (Result.state (r.bind f)) := by
  cases r with
  | error u => exact hr
  | ok u => exact h.trans hr (hf u)

theorem map (h : Framed R) {f : State → State} (hr : R s r.state) (hf : ∀ u, R u (f u)) :
    R s (Result.state (r.map f)) := by
  cases r with
  | error u => exact hr
  | ok u => exact h.trans hr (hf u)

theorem settle (h : Framed R) (hr : R s r.state) : R s (settle r) := by
  cases r with
  | error u => exact h.trans hr (h.of_eq rfl rfl rfl)
  | ok u => exact hr

theorem handled (h : Framed R) {x : Handled} (hx : R s x.state) : R s x.settle := by
  unfold Handled.settle
  split
  · exact h.trans hx (h.of_eq rfl rfl rfl)
  · exact hx

end Results

section Clear

variable (s : State)

theorem failEach (h : Framed R) {lookup : State → Nat → Option Nat}
    {complete : State → Nat → Result}
    (hc : ∀ s id a, lookup s id = some a → R s (complete s a).state) (ids : List Nat) :
    R s (failEach lookup complete s ids).state := by
  induction ids generalizing s with
  | nil => exact h.refl s
  | cons id ids ih =>
    unfold Remote.failEach
    split
    · exact ih s
    · next hid => exact h.bind (hc s id _ hid) ih

theorem clear (h : Framed R) (c : Ptr) : R s (clear s c).state := by
  refine h.trans (h.flags s c (fun _ => false) (·.isExpired)) ?_
  exact h.bind (h.failEach _ h.ack _) fun u => h.failEach u h.res _

theorem expireMain (h : Framed R) {fresh : Ptr} (hnew : ∀ u : State, R u (u.construct fresh)) :
    R s (expireMain s fresh).state := by
  unfold Remote.expireMain
  split
  · split
    · exact h.map (h.clear s _) fun u => h.of_eq rfl rfl rfl
    · exact h.flags s _ (·.isRegistered) fun _ => true
  · exact h.trans (hnew s) (h.of_eq rfl rfl rfl)

theorem dropHosts (h : Framed R) (hosts : List String) : R s (hosts.foldl dropHost s) := by
  induction hosts generalizing s with
  | nil => exact h.refl s
  | cons host hosts ih =>
    have hdrop : R s (dropHost s host) := h.of_eq rfl rfl rfl
    exact h.trans hdrop (ih _)

theorem expireLoop (h : Framed R) (expired : List String) (rest : List (String × Ptr)) :
    R s (Result.state ((expireLoop s expired rest).map fun (s, hosts) =>
      hosts.foldl dropHost s)) := by
  induction rest generalizing s expired with
  | nil => exact h.dropHosts s expired
  | cons p rest ih =>
    obtain ⟨host, c⟩ := p
    unfold Remote.expireLoop
    split
    · have hclear := h.clear s c
      cases hr : Remote.clear s c with
      | error u =>
        rw [hr] at hclear
        exact hclear
      | ok u =>
        rw [hr] at hclear
        exact h.trans hclear (ih u (expired ++ [host]))
    · exact h.trans (h.flags s c (·.isRegistered) fun _ => true) (ih _ _)

theorem checkExpire (h : Framed R) {fresh : Ptr} (hnew : ∀ u : State, R u (u.construct fresh)) :
    R s (checkExpire s fresh).state :=
  h.bind (h.expireMain s hnew) fun u => h.expireLoop u [] _

theorem clearAll (h : Framed R) (hosts : List (String × Ptr)) : R s (clearAll s hosts).state := by
  induction hosts generalizing s with
  | nil => exact h.refl s
  | cons p hosts ih => exact h.bind (h.clear s p.2) ih

theorem cancelAllRExecRequests (h : Framed R) : R s (cancelAllRExecRequests s).state := by
  have hmain : R s (cancelMain s).state := by
    unfold cancelMain
    split
    · exact h.map (h.clear s _) fun u => h.of_eq rfl rfl rfl
    · exact h.refl s
  exact h.bind hmain fun u => h.map (h.clearAll u _) fun _ => h.of_eq rfl rfl rfl

theorem shutDown (h : Framed R) : R s (shutDown s).state := by
  unfold Remote.shutDown
  split
  · exact h.refl s
  · exact h.map (h.cancelAllRExecRequests s) fun u => h.of_eq rfl rfl rfl

end Clear

section Handler

variable {s : State} {c fresh : Ptr} {topic : String} {rMsg : Json} {rand : Nat}

theorem ofResult {r : Result} (hr : R s r.state) : R s (Handled.ofResult r).state := by
  cases r <;> exact hr

theorem withHost (h : Framed R) {act : State → String → Handled}
    (hact : ∀ u host, R u (act u host).state) : R s (withHost s rMsg act).state := by
  have hcache (cache : List Nat) : R s { s with cache := cache } := h.of_eq rfl rfl rfl
  unfold Remote.withHost
  split
  · exact h.refl s
  · split
    · exact h.refl s
    · split
      · exact h.refl s
      · dsimp only
        split
        · exact hcache _
        · split
          · exact hcache _
          · exact h.trans (hcache _) (hact _ _)

theorem putCFInfo (h : Framed R) (hnew : ∀ u : State, R u (u.construct fresh)) :
    R s (putCFInfo s rMsg fresh).state := by
  unfold Remote.putCFInfo
  split
  · refine h.withHost fun u host => ?_
    have hadd (v : State) (d : Ptr) : R v (v.updConn d fun i => { i with isRegistered := true }) :=
      h.flags v d (fun _ => true) (·.isExpired)
    unfold addHost
    split
    · exact h.trans (hadd u _) (h.of_eq rfl rfl rfl)
    · exact h.trans (h.trans (hnew u) (hadd _ fresh)) (h.of_eq rfl rfl rfl)
  · split
    · refine h.withHost fun u host => ?_
      unfold delHost
      split
      · exact h.refl u
      · exact ofResult (h.map (h.clear u _) fun v => h.of_eq rfl rfl rfl)
    · exact h.refl s

/-- A command, given those about the connection itself and about executions. -/
theorem dispatch (h : Framed R) (hnew : ∀ u : State, R u (u.construct fresh))
    (hping : registerTopic topic (announceDown s.appId) rMsg "PING" = true → R s (ping s c rand))
    (hack : R s (rexecAck s rMsg).state)
    (hasy : registerTopic topic (requestDown s.appId) rMsg "REXEC-ASY" = true →
      R s (rexecAsy s c rMsg).state)
    (hres : R s (rexecRes s c rMsg).state) : R s (dispatch s c topic rMsg rand fresh).state := by
  unfold Remote.dispatch
  split
  · next hcmd => exact hping hcmd
  split
  · exact ofResult (h.shutDown s)
  split
  · exact h.flags s c (fun _ => true) fun _ => false
  split
  · exact h.putCFInfo hnew
  split
  · exact hack
  split
  · next hcmd => exact hasy hcmd
  split
  · exact h.refl s
  split
  · exact hres
  · exact h.refl s

end Handler

end Framed

/-- PING, for a relation that holds across messages of the connection that answer no request, and
across changes of its flags and counters. -/
theorem relates_ping {R : State → State → Prop} {c : Ptr} (refl : ∀ s, R s s)
    (trans : ∀ {s t u}, R s t → R t u → R s u)
    (publish : ∀ s p, (∀ actId, p ≠ .rexecAck actId) → p ≠ .reply → R s (s.publish c p))
    (conn : ∀ s (f : CloudFogInfo → CloudFogInfo), (∀ i, (f i).rExecPending = i.rExecPending) →
      (∀ i, (f i).sent = i.sent) → R s (s.updConn c f)) (s : State) (rand : Nat) :
    R s (ping s c rand) := by
  have hregister : R s (askRegister s c) := by
    unfold askRegister
    split
    · exact refl s
    · exact publish s _ (by simp) (by simp)
  have hask (u : State) : R u (askCFInfo u c) := by
    unfold askCFInfo
    split
    · exact trans (publish u _ (by simp) (by simp)) (conn _ _ (fun _ => rfl) fun _ => rfl)
    · exact refl u
  have hanswer (u : State) : R u (answerPing u c rand) := by
    unfold answerPing
    split
    · exact trans (publish u _ (by simp) (by simp)) (conn _ _ (fun _ => rfl) fun _ => rfl)
    · exact conn _ _ (fun _ => rfl) fun _ => rfl
  exact trans (trans (trans hregister (hask _)) (hanswer _)) (conn _ _ (fun _ => rfl) fun _ => rfl)

/-! ## The surroundings -/

section Executions

variable (s : State)

theorem env_setAck_false {id a : Nat} (hid : s.ackLookup id = some a) :
    Env s (setAck s a false).state := by
  unfold setAck
  split
  · exact .refl s
  · next h =>
    rw [Result.state_ok]
    apply Env.updAttempt
    · refine ⟨rfl, fun hs => absurd hs h, fun _ => rfl, ?_, ?_⟩
      · simp
      · cases (s.attempt a).res <;> simp
    · exact fun _ => ⟨id, hid⟩
    · simp

theorem env_setRes_false {id a : Nat} (hid : s.rLookup id = some a) :
    Env s (setRes s a (false, .obj [])).state := by
  unfold setRes
  split
  · exact .refl s
  · next h =>
    rw [Result.state_ok]
    apply Env.updAttempt
    · refine ⟨rfl, fun _ => rfl, fun hs => absurd hs h, ?_, ?_⟩
      · cases (s.attempt a).ack <;> simp
      · simp
    · simp
    · refine fun _ => ⟨id, hid, ?_⟩
      rintro ok j ⟨⟩
      simp

theorem framed_env : Framed Env where
  refl := .refl
  trans := .trans
  of_eq h _ _ := .of_eq h
  flags _ c _ _ := .updConn c _
  ack s _ _ hid := env_setAck_false s hid
  res s _ _ hid := env_setRes_false s hid

theorem env_failAcks (ids : List Nat) : Env s (failAcks s ids).state :=
  framed_env.failEach s framed_env.ack ids

theorem env_construct (c : Ptr) : Env s (s.construct c) := .updConn _ _

end Executions

section Handler

variable (s : State)

theorem env_publish (c : Ptr) (p : Packet) : Env s (s.publish c p) :=
  .of_eq rfl

theorem env_ping (c : Ptr) (rand : Nat) : Env s (ping s c rand) :=
  relates_ping .refl .trans (fun u p _ _ => env_publish u c p) (fun _ _ _ _ => .updConn _ _) s rand

/-- The promise behind `futureAck` is completed with true. -/
theorem env_finishAck {a actId : Nat} (hid : s.ackLookup actId = some a)
    (h : (s.attempt a).ack = none) :
    Env s (finishAck actId a (s.updAttempt a fun t => { t with ack := some true })) := by
  refine ⟨fun b => ?_, rfl, rfl, rfl, rfl, rfl, rfl, fun id b => ?_, fun _ _ => id, fun b => ?_,
    fun b => ?_, fun _ => id⟩
  · by_cases hb : b = a
    · subst hb
      refine ⟨?_, ?_, ?_, ?_, ?_⟩ <;> simp [finishAck, State.updAttempt, h]
      cases (s.attempt b).res <;> simp
    · simpa [finishAck, State.updAttempt, Function.update_of_ne hb] using Attempt.Touched.refl _
  · by_cases hid : id = actId
    · simp [finishAck, State.updAttempt, hid]
    · simp [finishAck, State.updAttempt, Function.update_of_ne hid]
  · by_cases hb : b = a
    · exact fun _ => ⟨actId, hb ▸ hid⟩
    · simp [finishAck, State.updAttempt, Function.update_of_ne hb]
  · by_cases hb : b = a
    · simp [finishAck, State.updAttempt, hb]
    · simp [finishAck, State.updAttempt, Function.update_of_ne hb]

theorem env_rexecAck (rMsg : Json) : Env s (rexecAck s rMsg).state := by
  unfold rexecAck
  split
  · exact .refl s
  · split
    · exact .refl s
    · next hid =>
      apply Framed.ofResult
      unfold setAck
      split
      · exact .refl s
      · next h => exact env_finishAck s hid (by simpa using h)

theorem env_rexecAsy (c : Ptr) (rMsg : Json) : Env s (rexecAsy s c rMsg).state := by
  unfold rexecAsy
  split
  · exact .refl s
  · split
    · split
      · exact .refl s
      · exact .refl s
      · exact .of_eq rfl
    · exact .refl s

/-- The promise behind `fuExec` is completed with a result. -/
theorem env_finishRes (c : Ptr) {a actId : Nat} {args : Json} (hid : s.rLookup actId = some a)
    (hargs : (actId, args) ∈ s.answers) (h : (s.attempt a).res = none) :
    Env s (finishRes c actId a (s.updAttempt a fun t => { t with res := some (true, args) })) := by
  refine ⟨fun b => ?_, rfl, rfl, rfl, rfl, rfl, rfl, fun _ _ => id, fun id b => ?_, fun b => ?_,
    fun b => ?_, fun _ => id⟩
  · by_cases hb : b = a
    · subst hb
      refine ⟨?_, ?_, ?_, ?_, ?_⟩ <;> simp [finishRes, State.updAttempt, State.updConn, h]
      cases (s.attempt b).ack <;> simp
    · simpa [finishRes, State.updAttempt, State.updConn, Function.update_of_ne hb] using
        Attempt.Touched.refl _
  · by_cases hid : id = actId
    · simp [finishRes, State.updAttempt, State.updConn, hid]
    · simp [finishRes, State.updAttempt, State.updConn, Function.update_of_ne hid]
  · by_cases hb : b = a
    · simp [finishRes, State.updAttempt, State.updConn, hb]
    · simp [finishRes, State.updAttempt, State.updConn, Function.update_of_ne hb]
  · by_cases hb : b = a
    · subst hb
      refine fun _ => ⟨actId, hid, fun ok j hj => ?_⟩
      obtain ⟨rfl, rfl⟩ : true = ok ∧ args = j := by
        simpa [finishRes, State.updAttempt, State.updConn] using hj
      exact hargs
    · simp [finishRes, State.updAttempt, State.updConn, Function.update_of_ne hb]

theorem env_storeRes (c : Ptr) {actId : Nat} {args : Json} (hargs : (actId, args) ∈ s.answers) :
    Env s (storeRes s c actId args).state := by
  unfold storeRes
  split
  · exact .refl s
  · next hid =>
    apply Framed.ofResult
    unfold setRes
    split
    · exact .refl s
    · next h => exact env_finishRes s c hid hargs (by simpa using h)

theorem env_rexecRes (c : Ptr) (rMsg : Json) : Env s (rexecRes s c rMsg).state := by
  unfold rexecRes
  split
  · apply Env.trans ?_ (env_storeRes _ c (List.mem_cons_self ..))
    exact { Env.refl s with
      res := fun a h => absurd rfl h
      answers := List.subset_cons_self .. }
  · exact .refl s

theorem env_handler (c : Ptr) (topic : String) (rMsg : Json) (rand : Nat) (fresh : Ptr) :
    Env s (handler s c topic rMsg rand fresh).state := by
  unfold handler
  split
  · exact framed_env.dispatch (env_construct · fresh) (fun _ => env_ping s c rand)
      (env_rexecAck s rMsg)
      (fun _ => env_rexecAsy s c rMsg) (env_rexecRes s c rMsg)
  · exact .refl s

theorem env_reply (c : Ptr) : Env s (reply s c) := by
  unfold reply
  split
  · exact env_publish s c _
  · exact .refl s

end Handler

/-- Every step is a new call, a step of an attempt, or one of the surroundings. -/
theorem step_cases {s t : State} {l : Label} (h : step s l = some t) :
    s.crashed = false ∧
      ((∃ entry, l = .call entry ∧ t = s.create entry) ∨
        (∃ a, l = .attempt a ∧ a < s.nAttempts ∧ (s.attempt a).pc.isEnded = false ∧
          t = s.advance a) ∨
        Env s t ∧ (∀ a, l ≠ .attempt a) ∧ ∀ entry, l ≠ .call entry) := by
  unfold step at h
  split at h
  · simp at h
  · next hc =>
    refine ⟨by simpa using hc, ?_⟩
    cases l with
    | call entry => exact .inl ⟨entry, rfl, (Option.some.inj h).symm⟩
    | attempt a =>
      simp only at h
      split at h
      · next ha => exact .inr (.inl ⟨a, rfl, ha.1, ha.2, (Option.some.inj h).symm⟩)
      · simp at h
    | arrived c topic rMsg rand fresh =>
      simp only at h
      split at h
      · simp at h
      · obtain rfl := Option.some.inj h
        exact .inr (.inr ⟨framed_env.handled (env_handler s c topic rMsg rand fresh), by simp, by simp⟩)
    | reply c =>
      obtain rfl := Option.some.inj h
      exact .inr (.inr ⟨env_reply s c, by simp, by simp⟩)
    | checkExpire fresh =>
      simp only at h
      split at h
      · simp at h
      · obtain rfl := Option.some.inj h
        have hround := framed_env.checkExpire s (env_construct · fresh)
        exact .inr (.inr ⟨framed_env.settle hround, by simp, by simp⟩)
    | cancelAllRExecRequests =>
      obtain rfl := Option.some.inj h
      exact .inr (.inr ⟨framed_env.settle (framed_env.cancelAllRExecRequests s), by simp, by simp⟩)
    | shutDown =>
      obtain rfl := Option.some.inj h
      exact .inr (.inr ⟨framed_env.settle (framed_env.shutDown s), by simp, by simp⟩)

end JamSched.Remote
