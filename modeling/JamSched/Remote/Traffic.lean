import JamSched.Remote.Frame

/-!
# Relations about the traffic of connections

Executions do much to their records and little to the connections: they fill and empty the sets of
pending identifiers and publish requests. A relation that does not mind these holds across every
step, as long as it holds across PING, across the answers to requests and where a new object takes
an address.
-/
namespace JamSched.Remote

/-- A relation that does not mind requests and minds only the counters of connections. -/
structure Traffic (R : State → State → Prop) : Prop where
  refl : ∀ s, R s s
  trans : ∀ {s t u}, R s t → R t u → R s u
  of_eq : ∀ {s t : State}, t.conn = s.conn → t.published = s.published → R s t
  conn : ∀ s c (f : CloudFogInfo → CloudFogInfo), (∀ i, (f i).pongCounter = i.pongCounter) →
    (∀ i, (f i).cloudFogInfoCounter = i.cloudFogInfoCounter) → R s (s.updConn c f)
  rexec : ∀ s c actId, R s (s.publish c (.rexec actId))

namespace Traffic

variable {R : State → State → Prop}

section Handler

variable (s : State)

theorem setAck (h : Traffic R) (a : Nat) (value : Bool) : R s (setAck s a value).state := by
  unfold Remote.setAck
  split <;> exact h.of_eq rfl rfl

theorem setRes (h : Traffic R) (a : Nat) (value : Bool × Json) : R s (setRes s a value).state := by
  unfold Remote.setRes
  split <;> exact h.of_eq rfl rfl

theorem framed (h : Traffic R) : Framed R where
  refl := h.refl
  trans := h.trans
  of_eq _ hconn hpublished := h.of_eq hconn hpublished
  flags s c _ _ := h.conn s c _ (fun _ => rfl) fun _ => rfl
  ack s _ a _ := h.setAck s a false
  res s _ a _ := h.setRes s a _

theorem rexecAck (h : Traffic R) (rMsg : Json) : R s (rexecAck s rMsg).state := by
  unfold Remote.rexecAck
  split
  · exact h.refl s
  · split
    · exact h.refl s
    · exact Framed.ofResult (h.framed.map (h.setAck s _ _) fun u => h.of_eq rfl rfl)

/-- REXEC-ASY, given its answer. -/
theorem rexecAsy (h : Traffic R) (c : Ptr) (rMsg : Json)
    (hack : s.toContinue = true → createRPBatchCall s rMsg = some true →
      ∀ actId, readActId rMsg = some actId → ∀ u : State, R u (u.publish c (.rexecAck actId))) :
    R s (rexecAsy s c rMsg).state := by
  unfold Remote.rexecAsy
  split
  · exact h.refl s
  · next actId hactId =>
    split
    · next hcont =>
      split
      · exact h.refl s
      · exact h.refl s
      · next hcall =>
        have hcache : R s { s with cache := cacheInsert s.cache actId } := h.of_eq rfl rfl
        exact h.trans hcache (hack hcont hcall actId hactId _)
    · exact h.refl s

theorem storeRes (h : Traffic R) (c : Ptr) (actId : Nat) (args : Json) :
    R s (storeRes s c actId args).state := by
  unfold Remote.storeRes
  split
  · exact h.refl s
  · refine Framed.ofResult (h.framed.map (h.setRes s _ _) fun u => ?_)
    exact h.trans (h.conn u c
      (fun i => { i with rExecPending := i.rExecPending.filter (· ≠ actId) }) (fun _ => rfl)
      fun _ => rfl) (h.of_eq rfl rfl)

theorem rexecRes (h : Traffic R) (c : Ptr) (rMsg : Json) : R s (rexecRes s c rMsg).state := by
  unfold Remote.rexecRes
  split
  · next actId args _ _ =>
    have hanswers : R s { s with answers := (actId, args) :: s.answers } := h.of_eq rfl rfl
    exact h.trans hanswers (h.storeRes _ c actId args)
  · exact h.refl s

end Handler

section Attempts

variable (s : State) (a : Nat)

theorem failWith (h : Traffic R) (e : Reason) (k : Cont) : R s (s.failWith a e k) := by
  unfold State.failWith
  split <;> exact h.of_eq rfl rfl

theorem sent (h : Traffic R) (c : Ptr) :
    R s (s.updConn c fun i => { i with sent := a :: i.sent }) :=
  h.conn s c _ (fun _ => rfl) fun _ => rfl

theorem insertPending (h : Traffic R) (c : Ptr) (id : Nat) : R s (s.insertPending c id) :=
  h.conn s c _ (fun _ => rfl) fun _ => rfl

theorem register (h : Traffic R) (c : Ptr) : R s (s.register a c) := by
  have hallocate : R s (s.allocate a c) := h.trans (h.sent s a c) (h.of_eq rfl rfl)
  unfold State.register
  refine h.trans hallocate ?_
  unfold State.enrol
  split
  · exact h.refl _
  · exact h.refl _
  · exact h.insertPending _ _ _
  · exact h.insertPending _ _ _
  · exact h.insertPending _ _ _
  · split
    · exact h.insertPending _ _ _
    · exact h.of_eq rfl rfl

theorem send (h : Traffic R) (c : Ptr) (n : Nat) : R s (s.send a c n) := by
  have hrexec := h.rexec s c (s.attempt a).tempEID
  exact h.trans (h.trans hrexec (h.sent _ a c)) (h.of_eq rfl rfl)

theorem getResult (h : Traffic R) : R s (s.getResult a) := by
  unfold State.getResult
  split
  · split <;> exact h.failWith s a _ _
  · split
    · exact h.of_eq rfl rfl
    · split
      · exact h.of_eq rfl rfl
      · exact h.failWith s a _ _

theorem announce (h : Traffic R) : R s (s.announce a) := by
  unfold State.announce
  split
  · exact h.of_eq rfl rfl
  · split <;> exact h.of_eq rfl rfl
  · unfold State.announceValue
    split
    · exact h.of_eq rfl rfl
    · split <;> exact h.of_eq rfl rfl
  · exact h.refl s

theorem reportFailure (h : Traffic R) (e : Reason) (cont : Cont) :
    R s (s.reportFailure a e cont) := by
  unfold State.reportFailure
  split
  · exact h.of_eq rfl rfl
  · exact h.of_eq rfl rfl
  · unfold State.reportValue
    split
    · exact h.of_eq rfl rfl
    · split <;> exact h.of_eq rfl rfl
  · exact h.refl s

/-- A step of an attempt. -/
theorem advance (h : Traffic R) : R s (s.advance a) := by
  unfold State.advance
  split
  · split
    · unfold State.refuse
      split
      · exact h.of_eq rfl rfl
      · exact h.failWith s a _ _
    · exact h.register s a _
  · split
    · split
      · exact h.failWith s a _ _
      · exact h.send s a _ _
    · unfold State.leaveLoop
      split <;> exact h.of_eq rfl rfl
  · split
    · split
      · exact h.of_eq rfl rfl
      · have herase : R s (s.eraseEntries a) := h.of_eq rfl rfl
        exact h.trans herase (h.failWith _ a _ _)
    · unfold State.acked
      split <;> exact h.of_eq rfl rfl
    · unfold State.nacked
      split <;> exact h.failWith s a _ _
  · exact h.getResult s a
  · exact h.announce s a
  · exact h.of_eq rfl rfl
  · exact h.reportFailure s a _ _
  · exact h.refl s

end Attempts

/-- A step of the machine, given what a new object, PING and the answers to requests do. -/
theorem step (h : Traffic R) {s t : State} {l : Label}
    (hnew : ∀ (u : State) (fresh : Ptr), ¬ s.Owned fresh → R u (u.construct fresh))
    (hping : ∀ c topic rMsg rand fresh, l = .arrived c topic rMsg rand fresh →
      c ∈ s.isValidConnection → registerTopic topic (announceDown s.appId) rMsg "PING" = true →
      R s (ping s c rand))
    (hasy : ∀ c topic rMsg rand fresh, l = .arrived c topic rMsg rand fresh →
      c ∈ s.isValidConnection →
      registerTopic topic (requestDown s.appId) rMsg "REXEC-ASY" = true →
      R s (Remote.rexecAsy s c rMsg).state)
    (hreply : ∀ c, l = .reply c → R s (reply s c)) (hs : step s l = some t) : R s t := by
  unfold Remote.step at hs
  split at hs
  · cases hs
  cases l with
  | call entry =>
    cases hs
    exact h.of_eq rfl rfl
  | attempt a =>
    simp only [Option.ite_none_right_eq_some, Option.some.injEq] at hs
    exact hs.2 ▸ h.advance s a
  | arrived c topic rMsg rand fresh =>
    simp only [Option.ite_none_left_eq_some, Option.some.injEq] at hs
    obtain ⟨hfresh, rfl⟩ := hs
    refine h.framed.handled ?_
    unfold handler
    split
    · next hvalid =>
      exact h.framed.dispatch (fun u => hnew u fresh hfresh)
        (fun hcmd => hping c topic rMsg rand fresh rfl hvalid hcmd) (h.rexecAck s rMsg)
        (fun hcmd => hasy c topic rMsg rand fresh rfl hvalid hcmd) (h.rexecRes s c rMsg)
    · exact h.refl s
  | reply c =>
    cases hs
    exact hreply c rfl
  | checkExpire fresh =>
    simp only [Option.ite_none_left_eq_some, Option.some.injEq] at hs
    obtain ⟨hfresh, rfl⟩ := hs
    exact h.framed.settle (h.framed.checkExpire s fun u => hnew u fresh hfresh)
  | cancelAllRExecRequests =>
    cases hs
    exact h.framed.settle (h.framed.cancelAllRExecRequests s)
  | shutDown =>
    cases hs
    exact h.framed.settle (h.framed.shutDown s)

end Traffic

end JamSched.Remote
