import JamSched.Remote.Callbacks

/-!
# Asynchronous executions through all connections

`CreateRExecAsyncWithCallbackToEachConnection` with one attempt for each host and one for the
main connection. The attempts of a call are a `Ballot` over `failureCountCommon` and the
once-flag, whose threshold is the number of hosts.
-/
namespace JamSched.Remote

open Machine

def Pc.vote : Pc → Vote
  | .report _ _ => .reporting
  | .ended .succeeded => .won
  | .ended (.failed _) => .failed
  | .ended .unanswered | .ended .returned => .silent
  | _ => .undecided

/-- The attempts of call `k` as a ballot. -/
def ballot (s : State) (k : Nat) : Ballot Nat where
  members := (s.call k).members
  vote a := if (s.attempt a).call = k then (s.attempt a).pc.vote else .undecided
  threshold := (s.call k).countCommon
  count := (s.call k).failureCountCommon
  once := (s.call k).successCallOnceFlag
  reports := (s.callbacksOf k).countP (·.error.isSome)
  wins := (s.callbacksOf k).countP (·.error.isNone)

section Ballot

variable {s t : State} {a k : Nat} {l : Label}

/-- Only the program counters of the members, the call and its callbacks matter. -/
theorem ballot_congr (hv : ∀ a, (ballot t k).vote a = (ballot s k).vote a)
    (hc : t.call k = s.call k) (hb : t.callbacksOf k = s.callbacksOf k) :
    ballot t k = ballot s k := by
  ext
  · simp [ballot, hc]
  · exact hv _
  all_goals simp [ballot, hc, hb]

/-- A step of an attempt of another call. -/
theorem ballot_other (hne : (s.attempt a).call ≠ k) : ballot (s.advance a) k = ballot s k := by
  have hown := own_advance s a
  apply ballot_congr
  · intro b
    by_cases hb : b = a
    · simp [ballot, hb, hown.caller, hne]
    · simp [ballot, hown.attempt b hb]
  · exact hown.call k hne.symm
  · rw [State.callbacksOf, State.callbacksOf, advance_callbacks, List.filter_append]
    cases speaks s a <;> simp [hne]

/-- What a step of a member makes of the ballot. -/
theorem ballot_advance (s : State) (a : Nat) :
    ballot (s.advance a) (s.attempt a).call =
      { ballot s (s.attempt a).call with
        vote := Function.update (ballot s (s.attempt a).call).vote a (nextPc s a).vote
        count := (nextCall s a).failureCountCommon
        once := (nextCall s a).successCallOnceFlag
        reports := (speaks s a).toList.countP (·.1.isSome) + (ballot s (s.attempt a).call).reports
        wins := (speaks s a).toList.countP (·.1.isNone) + (ballot s (s.attempt a).call).wins } := by
  have hown := own_advance s a
  have hcalls : (s.advance a).callbacksOf (s.attempt a).call =
      ((speaks s a).toList.map fun v => ⟨(s.attempt a).call, v.1, v.2⟩) ++
        s.callbacksOf (s.attempt a).call := by
    rw [State.callbacksOf, State.callbacksOf, advance_callbacks, List.filter_append]
    cases speaks s a <;> simp
  ext b
  · simp [ballot, hown.members]
  · by_cases hb : b = a
    · simp [ballot, hb, hown.caller, advance_pc]
    · simp [ballot, hown.attempt b hb, Function.update_of_ne hb]
  · exact hown.countCommon _
  · simp [ballot, advance_call]
  · simp [ballot, advance_call]
  all_goals
    simp only [ballot, hcalls, List.countP_append]
    cases speaks s a <;> simp

/-- A step of a member is a move of the ballot. -/
theorem ballot_own {host : Option String} (hk : (s.attempt a).kind = .asyncNT host)
    (hfits : Pc.fits (s.attempt a).kind (s.attempt a).pc = true)
    (hmem : a ∈ (s.call (s.attempt a).call).members) :
    (ballot s (s.attempt a).call).Move (ballot (s.advance a) (s.attempt a).call) := by
  have hvote : (ballot s (s.attempt a).call).vote a = (s.attempt a).pc.vote := by simp [ballot]
  have hstay : ∀ pc : Pc, (s.attempt a).pc = pc → (nextPc s a).vote = pc.vote →
      nextCall s a = s.call (s.attempt a).call → speaks s a = none →
      (ballot s (s.attempt a).call).Move (ballot (s.advance a) (s.attempt a).call) := by
    intro pc hpc hv hc hb
    have heq : ballot (s.advance a) (s.attempt a).call = ballot s (s.attempt a).call := by
      rw [ballot_advance, hv, hc, hb, ← hpc, ← hvote, Function.update_eq_self]
      simp [ballot]
    rw [heq]
    exact .stay
  cases hpc : (s.attempt a).pc with
  | start =>
    refine hstay _ hpc ?_ (by simp [nextCall, hpc]) (by simp [speaks, hk, hpc])
    simp only [nextPc, hpc, hk]
    split <;> simp [Pc.vote, Kind.failing]
  | publish n =>
    by_cases hn : n < 3
    · refine hstay _ hpc ?_ (by simp [nextCall, hpc]) (by simp [speaks, hk, hpc])
      simp only [nextPc, hpc, hk, hn, if_true]
      split <;> simp [Pc.vote, Kind.failing]
    · have heq : ballot (s.advance a) (s.attempt a).call =
          (ballot s (s.attempt a).call).abstain a := by
        rw [ballot_advance]
        simp [Ballot.abstain, nextPc, nextCall, speaks, hpc, hk, hn, Kind.isSync, Pc.vote, ballot]
      rw [heq]
      exact .abstain hmem (by rw [hvote, hpc]; rfl)
  | waitAck n =>
    have hn : n < 3 := by simpa [hpc, Pc.fits] using hfits
    refine hstay _ hpc ?_ (by simp [nextCall, hpc]) (by simp [speaks, hk, hpc])
    simp only [nextPc, hpc, hk]
    split <;> simp [Pc.vote, Kind.failing, Kind.isSync, hn]
  | waitRes => simp [hpc, hk, Pc.fits, Kind.isSync] at hfits
  | succeed =>
    have heq : ballot (s.advance a) (s.attempt a).call = (ballot s (s.attempt a).call).win a := by
      rw [ballot_advance]
      cases hflag : (s.call (s.attempt a).call).successCallOnceFlag <;>
        simp [Ballot.win, nextPc, nextCall, speaks, hpc, hk, hflag, Pc.vote, ballot, Nat.add_comm]
    rw [heq]
    exact .win hmem (by rw [hvote, hpc]; rfl)
  | count e k =>
    obtain ⟨rfl, rfl⟩ : e = .heartbeatFailure ∧ k = .leave := by
      simpa [hpc, hk, Pc.fits] using hfits
    have heq : ballot (s.advance a) (s.attempt a).call = (ballot s (s.attempt a).call).fail a := by
      rw [ballot_advance]
      by_cases hlast : (s.call (s.attempt a).call).failureCountCommon =
          (s.call (s.attempt a).call).countCommon <;>
        simp [Ballot.fail, nextPc, nextCall, speaks, hpc, hk, hlast, State.afterFailure, Pc.vote,
          ballot]
    rw [heq]
    exact .fail hmem (by rw [hvote, hpc]; rfl)
  | report e k =>
    obtain ⟨rfl, rfl⟩ : e = .heartbeatFailure ∧ k = .leave := by
      simpa [hpc, hk, Pc.fits] using hfits
    have heq : ballot (s.advance a) (s.attempt a).call =
        (ballot s (s.attempt a).call).report a := by
      rw [ballot_advance]
      simp [Ballot.report, nextPc, nextCall, speaks, hpc, hk, State.afterFailure, Pc.vote, ballot,
        Nat.add_comm]
    rw [heq]
    exact .report hmem (by rw [hvote, hpc]; rfl)
  | ended o =>
    refine hstay _ hpc ?_ (by simp [nextCall, hpc]) (by simp [speaks, hk, hpc])
    simp [nextPc, hpc]

/-- The ballots of the calls are in order. -/
def Balloted (s : State) : Prop :=
  ∀ k < s.nCalls, (s.call k).entry = .asyncEach → (ballot s k).Sound

theorem ballot_env (he : Env s t) : ballot t k = ballot s k := by
  apply ballot_congr
  · intro a
    simp [ballot, (he.attempt a).call, (he.attempt a).pc]
  · rw [he.call]
  · rw [State.callbacksOf, State.callbacksOf, he.callbacks]

theorem ballot_create_old (h : Sane s) (entry : Entry) (hk : k < s.nCalls) :
    ballot (s.create entry) k = ballot s k := by
  apply ballot_congr
  · intro a
    rcases create_attempt s entry a with ⟨heq, -⟩ | ⟨hge, -, kind, -, heq⟩
    · simp [ballot, heq]
    · have hne : s.nCalls ≠ k := by omega
      simp [ballot, heq, hne, h.later a hge, Pc.vote]
  · simp [State.create, Nat.ne_of_lt hk]
  · rfl

/-- Nobody has voted in a new call. -/
theorem ballot_create_new (h : Sane s) (entry : Entry) :
    (ballot (s.create entry) s.nCalls).Sound := by
  have hsane := sane_create h entry
  have hlt : s.nCalls < (s.create entry).nCalls := Nat.lt_succ_self _
  have hopen : ∀ a ∈ (ballot (s.create entry) s.nCalls).members,
      (ballot (s.create entry) s.nCalls).vote a = .undecided := by
    intro a ha
    have hlen : s.nAttempts ≤ a := by
      simp only [ballot, State.create, Function.update_self, List.mem_range'_1] at ha
      exact ha.1
    rcases create_attempt s entry a with ⟨heq, -⟩ | ⟨-, -, kind, -, heq⟩
    · simp [ballot, heq, h.later a hlen, Pc.vote]
    · simp [ballot, heq, Pc.vote]
  have hnone : (s.create entry).callbacksOf s.nCalls = [] := by
    simp only [State.callbacksOf, List.filter_eq_nil_iff, decide_eq_true_eq]
    intro b hb
    have := h.callbacks b hb
    omega
  have hcall : (s.create entry).call s.nCalls =
      { entry := entry
        countCommon := (s.kinds entry).length - 1
        members := List.range' s.nAttempts (s.kinds entry).length } := by
    simp [State.create]
  refine ⟨hsane.nodup _ hlt, hsane.size _ hlt, ?_, ?_, ?_, ?_⟩
  · have hzero : ((ballot (s.create entry) s.nCalls).members.countP fun a =>
        ((ballot (s.create entry) s.nCalls).vote a).counted) = 0 := by
      apply List.countP_eq_zero.mpr
      intro a ha
      simp [hopen a ha, Vote.counted]
    rw [hzero]
    simp [ballot, hcall]
  · have hzero : ((ballot (s.create entry) s.nCalls).members.countP fun a =>
        (ballot (s.create entry) s.nCalls).vote a = .reporting) = 0 := by
      apply List.countP_eq_zero.mpr
      intro a ha
      simp [hopen a ha]
    rw [hzero]
    simp [ballot, hcall, hnone]
  · simp [ballot, hcall, hnone]
  · have hnowin : ((ballot (s.create entry) s.nCalls).members.any fun a =>
        (ballot (s.create entry) s.nCalls).vote a = .won) = false := by
      simp only [List.any_eq_false, decide_eq_true_eq]
      intro a ha
      simp [hopen a ha]
    rw [hnowin]
    simp [ballot, hcall]

theorem balloted_step (h : Sane s) (hb : Balloted s) (hst : step s l = some t) : Balloted t := by
  obtain ⟨-, ⟨entry, -, rfl⟩ | ⟨a, -, ha, -, rfl⟩ | ⟨he, -⟩⟩ := step_cases hst
  · intro k hk hentry
    by_cases hnew : k = s.nCalls
    · rw [hnew]
      exact ballot_create_new h entry
    · have hk : k < s.nCalls := by
        simp only [State.create] at hk
        omega
      rw [ballot_create_old h entry hk]
      exact hb k hk (by simpa [State.create, Nat.ne_of_lt hk] using hentry)
  · have hown := own_advance s a
    intro k hk hentry
    rw [hown.nCalls] at hk
    rw [hown.entry] at hentry
    by_cases hc : (s.attempt a).call = k
    · subst hc
      have hmakes := h.makes a ha
      rw [hentry] at hmakes
      obtain ⟨host, hkind⟩ : ∃ host, (s.attempt a).kind = .asyncNT host := by
        cases hkind : (s.attempt a).kind <;> simp [hkind, Entry.makes] at hmakes ⊢
      exact (hb _ hk hentry).move (ballot_own hkind (h.fits a ha) (h.caller a ha).2)
    · rw [ballot_other hc]
      exact hb k hk hentry
  · intro k hk hentry
    rw [ballot_env he]
    exact hb k (he.nCalls ▸ hk) (he.call ▸ hentry)

end Ballot

section Answers

def Pc.waitsAck : Pc → Bool
  | .waitAck _ => true
  | _ => false

/-- On its way out with a failure. -/
def Pc.failing : Pc → Bool
  | .count _ _ | .report _ _ | .ended (.failed _) => true
  | _ => false

/-- The wait of an asynchronous attempt finds its acknowledgement. -/
def FindsAck (a : Nat) (s : State) : Label → Prop
  | .attempt b => b = a ∧ (s.attempt a).kind.isSync = false ∧ (s.attempt a).pc.waitsAck = true ∧
      (s.attempt a).ack = some true
  | _ => False

/-- An asynchronous attempt finds its connection down at the head of the retry loop, although
its acknowledgement has come since it last looked. -/
def GivesUpAcknowledged (a : Nat) (s : State) : Label → Prop
  | .attempt b => b = a ∧ (s.attempt a).kind.isSync = false ∧ (s.attempt a).pc.inLoop = true ∧
      (s.attempt a).pc.waitsAck = false ∧ (s.attempt a).pc ≠ .publish 3 ∧
      s.up (s.attempt a).kind = none ∧ (s.attempt a).acknowledged = true
  | _ => False

instance (a : Nat) (s : State) (l : Label) : Decidable (FindsAck a s l) :=
  match l with
  | .attempt _ => inferInstanceAs (Decidable (_ ∧ _))
  | .call _ | .arrived .. | .reply _ | .checkExpire _ | .cancelAllRExecRequests | .shutDown =>
    inferInstanceAs (Decidable False)

instance (a : Nat) (s : State) (l : Label) : Decidable (GivesUpAcknowledged a s l) :=
  match l with
  | .attempt _ => inferInstanceAs (Decidable (_ ∧ _))
  | .call _ | .arrived .. | .reply _ | .checkExpire _ | .cancelAllRExecRequests | .shutDown =>
    inferInstanceAs (Decidable False)

/-- Behind a wait that found the acknowledgement. -/
def Attempt.found (t : Attempt) : Bool :=
  !t.kind.isSync && (t.pc = .succeed || t.pc = .ended .succeeded)

/-- Failed although it was acknowledged. -/
def Attempt.dropped (t : Attempt) : Bool := !t.kind.isSync && t.acknowledged && t.pc.failing

variable {s t : State} {a k : Nat} {l : Label}

/-- An acknowledged attempt is past its registration and its promise is completed. -/
def Acked (s : State) : Prop :=
  ∀ a, (s.attempt a).acknowledged = true → (s.attempt a).ack = some true ∧ (s.attempt a).pc ≠ .start

theorem acked_step (h : Acked s) (hst : step s l = some t) : Acked t := by
  intro a
  obtain ⟨-, ⟨entry, -, rfl⟩ | ⟨b, -, hb, -, rfl⟩ | ⟨he, -⟩⟩ := step_cases hst
  · rcases create_attempt s entry a with ⟨heq, -⟩ | ⟨-, -, kind, -, heq⟩
    · rw [heq]
      exact h a
    · rw [heq]
      simp
  · have hown := own_advance s b
    by_cases hab : a = b
    · subst hab
      rw [hown.acknowledged, hown.ack, advance_pc]
      intro hk
      exact ⟨(h a hk).1, nextPc_ne_start s a⟩
    · rw [hown.attempt a hab]
      exact h a
  · have htouch := he.attempt a
    intro hk
    rw [htouch.acknowledged, Bool.or_eq_true] at hk
    rw [htouch.pc]
    rcases hk with hk | hk
    · obtain ⟨hack, hpc⟩ := h a hk
      exact ⟨by rw [htouch.ack (by simp [hack]), hack], hpc⟩
    · simp only [Bool.and_eq_true, beq_iff_eq] at hk
      refine ⟨hk.1.2, ?_⟩
      intro hpc
      simp [hpc, Pc.inLoop] at hk

theorem nextPc_found_iff (hs : (s.attempt a).kind.isSync = false)
    (hfits : Pc.fits (s.attempt a).kind (s.attempt a).pc = true)
    (hend : (s.attempt a).pc.isEnded = false) :
    (nextPc s a = .succeed ∨ nextPc s a = .ended .succeeded) ↔
      (s.attempt a).pc = .succeed ∨
        (s.attempt a).pc.waitsAck = true ∧ (s.attempt a).ack = some true := by
  have hfail : ∀ (kind : Kind) (e : Reason) (k : Cont),
      kind.failing e k ≠ .succeed ∧ kind.failing e k ≠ .ended .succeeded := by
    intro kind e k
    cases kind <;> simp [Kind.failing]
  have hafter : ∀ (e : Reason) (k : Cont), State.afterFailure e k ≠ .succeed ∧
      State.afterFailure e k ≠ .ended .succeeded := by
    intro e k
    cases k <;> simp [State.afterFailure]
  cases hpc : (s.attempt a).pc with
  | start => simp only [nextPc, hpc]; split_ifs <;> simp [hfail, Pc.waitsAck]
  | publish n => simp only [nextPc, hpc, hs]; split_ifs <;> simp_all [Pc.waitsAck]
  | waitAck n =>
    have hn : n < 3 := by simpa [hpc, Pc.fits] using hfits
    rw [nextPc_waitAck hs hn hpc]
    split <;> simp_all [Pc.waitsAck]
  | waitRes => simp [hpc, Pc.fits, hs] at hfits
  | succeed => simp [nextPc_succeed hs hpc]
  | count e k => simp only [nextPc, hpc]; split <;> simp [hafter, Pc.waitsAck]
  | report e k => simp [nextPc_report hs hpc, hafter, Pc.waitsAck]
  | ended o => simp [hpc, Pc.isEnded] at hend

/-- A step of an asynchronous attempt ends in failure without the promise being completed with
false only where the connection is down. -/
theorem nextPc_failing_iff (hs : (s.attempt a).kind.isSync = false)
    (hfits : Pc.fits (s.attempt a).kind (s.attempt a).pc = true)
    (hend : (s.attempt a).pc.isEnded = false) (hack : (s.attempt a).ack = some true)
    (hstart : (s.attempt a).pc ≠ .start) :
    (nextPc s a).failing = true ↔ (s.attempt a).pc.failing = true ∨
      (s.attempt a).pc.inLoop = true ∧ (s.attempt a).pc.waitsAck = false ∧
        (s.attempt a).pc ≠ .publish 3 ∧ s.up (s.attempt a).kind = none := by
  cases hpc : (s.attempt a).pc with
  | start => exact absurd hpc hstart
  | publish n =>
    have hn : n ≤ 3 := by simpa [hpc, Pc.fits] using hfits
    simp only [nextPc, hpc]
    by_cases h3 : n < 3
    · have hne : n ≠ 3 := by omega
      cases hk : (s.attempt a).kind <;>
        by_cases hup : s.up (s.attempt a).kind = none <;>
        simp_all [Pc.failing, Pc.inLoop, Pc.waitsAck, Kind.failing, Kind.isSync]
    · have : n = 3 := by omega
      simp [this, hs, Pc.failing]
  | waitAck n => simp [nextPc, hpc, hack, hs, Pc.failing, Pc.waitsAck]
  | waitRes => simp [hpc, Pc.fits, hs] at hfits
  | succeed => simp [nextPc_succeed hs hpc, Pc.failing, Pc.inLoop]
  | count e k =>
    cases hk : (s.attempt a).kind with
    | asyncNT host =>
      obtain ⟨rfl, rfl⟩ : e = .heartbeatFailure ∧ k = .leave := by
        simpa [hpc, hk, Pc.fits] using hfits
      simp only [nextPc, hpc]
      split <;> simp [Pc.failing, State.afterFailure]
    | _ => simp_all [Pc.fits, Kind.isSync]
  | report e k =>
    cases hk : (s.attempt a).kind with
    | syncTask host => simp [hk, Kind.isSync] at hs
    | syncTimeout => simp [hk, Kind.isSync] at hs
    | _ =>
      obtain ⟨rfl, rfl⟩ : e = .heartbeatFailure ∧ k = .leave := by
        simpa [hpc, hk, Pc.fits] using hfits
      simp [nextPc, hpc, hk, Pc.failing, State.afterFailure]
  | ended o => simp [hpc, Pc.isEnded] at hend

theorem found_run {appId : String} {funcs : List String} {eid : Nat} {fresh : Ptr}
    {ls : List Label} (hr : run step (init appId funcs eid fresh) ls = some s) (a : Nat) :
    (s.attempt a).found = false ↔
      Along step (fun s l => ¬ FindsAck a s l) (init appId funcs eid fresh) ls := by
  refine mark_run (fun _ _ _ => sane_step) (sane_init appId funcs eid fresh) (fun _ => id)
    (fun s l hP => ?_) ?_ ?_ ?_ hr (by simp [init, Attempt.found])
  · cases l <;> simp_all [FindsAck]
  · intro t ht
    simp [Attempt.found, ht]
  · intro t u htouch
    simp [Attempt.found, htouch.kind, htouch.pc]
  · intro s h ha hend
    unfold Attempt.found FindsAck
    rw [(own_advance s a).kind, advance_pc s a]
    cases hs : (s.attempt a).kind.isSync with
    | true => simp
    | false =>
      have hiff := nextPc_found_iff hs (h.fits a ha) hend
      have hnot : (s.attempt a).pc ≠ .ended .succeeded := by
        rintro heq
        simp [heq, Pc.isEnded] at hend
      simp only [Bool.not_false, Bool.true_and, true_and, ← Bool.decide_or]
      by_cases hold : (s.attempt a).pc = .succeed
      · simp_all [Pc.waitsAck]
      · by_cases hnew : (s.attempt a).pc.waitsAck = true ∧ (s.attempt a).ack = some true <;>
          simp_all

theorem dropped_run {appId : String} {funcs : List String} {eid : Nat} {fresh : Ptr}
    {ls : List Label} (hr : run step (init appId funcs eid fresh) ls = some s) (a : Nat) :
    (s.attempt a).dropped = false ↔
      Along step (fun s l => ¬ GivesUpAcknowledged a s l) (init appId funcs eid fresh) ls := by
  refine mark_run (I := fun s => Sane s ∧ Acked s)
    (fun _ _ _ h hst => ⟨sane_step h.1 hst, acked_step h.2 hst⟩)
    ⟨sane_init appId funcs eid fresh, by simp [Acked, init]⟩ (fun _ h => h.1)
    (fun s l hP => ?_) ?_ ?_ ?_ hr (by simp [init, Attempt.dropped])
  · cases l <;> simp_all [GivesUpAcknowledged]
  · intro t ht
    simp [Attempt.dropped, ht, Pc.failing]
  · intro t u htouch
    -- a late acknowledgement is history only of an attempt in its loop
    have hloop : t.pc.failing = true → t.pc.inLoop = false := by
      cases t.pc <;> simp [Pc.failing, Pc.inLoop]
    cases hf : t.pc.failing with
    | false => simp [Attempt.dropped, htouch.pc, hf]
    | true =>
      simp [Attempt.dropped, htouch.kind, htouch.pc, htouch.acknowledged, hloop hf]
  · intro s h ha hend
    unfold Attempt.dropped GivesUpAcknowledged
    have hown := own_advance s a
    rw [hown.kind, hown.acknowledged, advance_pc s a]
    cases hs : (s.attempt a).kind.isSync with
    | true => simp
    | false =>
      cases hk : (s.attempt a).acknowledged with
      | false => simp
      | true =>
        obtain ⟨hack, hstart⟩ := h.2 a hk
        have hiff := nextPc_failing_iff hs (h.1.fits a ha) hend hack hstart
        have hexcl : (s.attempt a).pc.inLoop = true → (s.attempt a).pc.failing = false := by
          cases (s.attempt a).pc <;> simp [Pc.failing, Pc.inLoop]
        cases hf : (s.attempt a).pc.failing <;> cases hn : (nextPc s a).failing <;> simp_all

/-- What `CreateRExecAsyncWithCallbackToEachConnection` promises of a call whose attempts have
all ended: one callback, a success if some attempt was acknowledged and a failure if none of
them succeeded. -/
def Decides (s : State) (k : Nat) : Prop :=
  ∃ b, s.callbacksOf k = [b] ∧
    ((∃ a ∈ (s.call k).members, (s.attempt a).acknowledged = true) → b.error = none) ∧
    ((∀ a ∈ (s.call k).members, (s.attempt a).pc ≠ .ended .succeeded) → b.error ≠ none)

/-- A closed ballot decides exactly if somebody won, or everybody failed and nobody was
acknowledged. -/
theorem decides_iff (hb : (ballot s k).Sound)
    (hcall : ∀ a ∈ (s.call k).members, (s.attempt a).call = k)
    (hend : ∀ a ∈ (s.call k).members, (s.attempt a).pc.isEnded = true) :
    Decides s k ↔ (∃ a ∈ (s.call k).members, (s.attempt a).pc = .ended .succeeded) ∨
      ∀ a ∈ (s.call k).members, (s.attempt a).pc.vote = .failed ∧
        (s.attempt a).acknowledged = false := by
  have hvote : ∀ a ∈ (s.call k).members, (ballot s k).vote a = (s.attempt a).pc.vote := by
    intro a ha
    simp [ballot, hcall a ha]
  have hwon : ∀ a ∈ (s.call k).members,
      ((ballot s k).vote a = .won ↔ (s.attempt a).pc = .ended .succeeded) := by
    intro a ha
    rw [hvote a ha]
    cases hpc : (s.attempt a).pc with
    | ended o => cases o <;> simp [Pc.vote]
    | _ => simp [Pc.vote]
  have hclosed : ∀ a ∈ (ballot s k).members, ((ballot s k).vote a).closed = true := by
    intro a ha
    have := hend a ha
    rw [hvote a ha]
    cases hpc : (s.attempt a).pc with
    | ended o => cases o <;> rfl
    | _ => simp [hpc, Pc.isEnded] at this
  have hreports := hb.reports_closed hclosed
  have hwins := hb.wins_eq
  have hlen : (s.callbacksOf k).length = (ballot s k).reports + (ballot s k).wins := by
    rw [List.length_eq_countP_add_countP fun b : Callback => b.error.isSome]
    congr 1
    apply List.countP_congr
    intro b _
    cases b.error <;> simp
  constructor
  · rintro ⟨b, hbk, hack, hfail⟩
    by_cases hw : ∃ a ∈ (s.call k).members, (s.attempt a).pc = .ended .succeeded
    · exact .inl hw
    · right
      push Not at hw
      have herr := hfail hw
      have hone : (ballot s k).reports = 1 := by
        simp [ballot, hbk, Option.isSome_iff_ne_none.mpr herr]
      intro a ha
      constructor
      · rw [← hvote a ha]
        by_contra hne
        rw [hreports, if_neg fun hall => hne (hall a ha)] at hone
        omega
      · cases hk : (s.attempt a).acknowledged with
        | false => rfl
        | true => exact absurd (hack ⟨a, ha, hk⟩) herr
  · rintro (⟨a, ha, hpc⟩ | hall)
    · have hnot : ¬ ∀ a ∈ (ballot s k).members, (ballot s k).vote a = .failed := by
        intro hall
        have := (hwon a ha).mpr hpc
        rw [hall a ha] at this
        cases this
      rw [if_neg hnot] at hreports
      rw [if_pos ⟨a, ha, (hwon a ha).mpr hpc⟩] at hwins
      rw [hreports, hwins] at hlen
      obtain ⟨b, hbk⟩ := List.length_eq_one_iff.mp hlen
      have herr : b.error = none := by
        simpa [ballot, hbk] using hreports
      exact ⟨b, hbk, fun _ => herr, fun hno => absurd hpc (hno a ha)⟩
    · have hfailed : ∀ a ∈ (ballot s k).members, (ballot s k).vote a = .failed := by
        intro a ha
        rw [hvote a ha]
        exact (hall a ha).1
      have hnone : ¬ ∃ a ∈ (ballot s k).members, (ballot s k).vote a = .won := by
        rintro ⟨a, ha, hw⟩
        rw [hfailed a ha] at hw
        cases hw
      rw [if_pos hfailed] at hreports
      rw [if_neg hnone] at hwins
      rw [hreports, hwins] at hlen
      obtain ⟨b, hbk⟩ := List.length_eq_one_iff.mp hlen
      have herr : b.error ≠ none := by
        simpa [ballot, hbk] using hwins
      refine ⟨b, hbk, ?_, fun _ => herr⟩
      rintro ⟨a, ha, hk⟩
      rw [(hall a ha).2] at hk
      cases hk

/-- In every run a call of `CreateRExecAsyncWithCallbackToEachConnection` whose attempts have
all ended has decided, exactly when some attempt's wait found its acknowledgement, or no
attempt's third wait timed out and none found its connection down although acknowledged. -/
theorem each_connection_decides_iff {appId : String} {funcs : List String} {eid : Nat}
    {fresh : Ptr} {ls : List Label} (hr : run step (init appId funcs eid fresh) ls = some s)
    (hk : k < s.nCalls) (hentry : (s.call k).entry = .asyncEach)
    (hend : ∀ a ∈ (s.call k).members, (s.attempt a).pc.isEnded = true) :
    Decides s k ↔
      (∃ a ∈ (s.call k).members,
        ¬ Along step (fun s l => ¬ FindsAck a s l) (init appId funcs eid fresh) ls) ∨
      ∀ a ∈ (s.call k).members,
        Along step (fun s l => ¬ ThirdTimeout a s l ∧ ¬ GivesUpAcknowledged a s l)
          (init appId funcs eid fresh) ls := by
  obtain ⟨hsane, hballot⟩ : Sane s ∧ Balloted s :=
    run_invariant (I := fun s => Sane s ∧ Balloted s)
      (fun s l t h hst => ⟨sane_step h.1 hst, balloted_step h.1 h.2 hst⟩)
      ⟨sane_init appId funcs eid fresh, by simp [Balloted, init]⟩ hr
  rw [decides_iff (hballot k hk hentry) (fun a ha => (hsane.member k hk a ha).2) hend]
  have hasync : ∀ a ∈ (s.call k).members, (s.attempt a).kind.isSync = false := by
    intro a ha
    obtain ⟨hlt, hcall⟩ := hsane.member k hk a ha
    have := hsane.makes a hlt
    rw [hcall, hentry] at this
    cases hkind : (s.attempt a).kind <;> simp [hkind, Entry.makes, Kind.isSync] at this ⊢
  have hreturned : ∀ a ∈ (s.call k).members, (s.attempt a).pc ≠ .ended .returned := by
    intro a ha hpc
    have hfits := hsane.fits a (hsane.member k hk a ha).1
    have := hasync a ha
    cases hkind : (s.attempt a).kind <;> simp_all [Pc.fits, Kind.isSync]
  have hfound : (∃ a ∈ (s.call k).members, (s.attempt a).pc = .ended .succeeded) ↔
      ∃ a ∈ (s.call k).members,
        ¬ Along step (fun s l => ¬ FindsAck a s l) (init appId funcs eid fresh) ls := by
    refine exists_congr fun a => and_congr_right fun ha => ?_
    rw [← found_run hr a]
    have := hend a ha
    have := hasync a ha
    cases hpc : (s.attempt a).pc <;> simp_all [Attempt.found, Pc.isEnded]
  rw [← hfound]
  apply or_congr_right'
  intro hnone
  refine forall_congr' fun a => imp_congr_right fun ha => ?_
  rw [along_and, ← lost_run hr a, ← dropped_run hr a]
  have := hend a ha
  have := hasync a ha
  have := hreturned a ha
  have : (s.attempt a).pc ≠ .ended .succeeded := fun hpc => hnone ⟨a, ha, hpc⟩
  cases hpc : (s.attempt a).pc with
  | ended o =>
    cases o <;> simp_all [Attempt.lost, Attempt.dropped, Pc.failing, Pc.vote]
  | _ => simp_all [Pc.isEnded]

/-- Main connection and one host, both registered, and a call to both. -/
def twoConnections : List Label :=
  [.arrived 0 "/app/announce/down" registerAckMsg 0 1,
    .arrived 0 "/app/announce/down" (putCFInfoMsg "ADD" 3 "fog") 0 1,
    .call .asyncEach, .attempt 0, .attempt 1, .attempt 0, .attempt 1]

/-- The host acknowledges, the main connection expires. -/
def hostAcknowledges : List Label :=
  twoConnections ++
    [Label.arrived 1 "/app/replies/down" (rexecAckMsg 7) 0 2, .attempt 0, .attempt 0, .attempt 1,
      .checkExpire 2, .checkExpire 2, .attempt 1, .attempt 1]

theorem each_connection_decides_acknowledged :
    ∃ s, run step (init "app" [] 7 0) hostAcknowledges = some s ∧ (s.call 0).members = [0, 1] ∧
      Decides s 0 := by
  obtain ⟨s, hr, hk, hentry, hmem, hend⟩ :
      ∃ s, run step (init "app" [] 7 0) hostAcknowledges = some s ∧ 0 < s.nCalls ∧
        (s.call 0).entry = .asyncEach ∧ (s.call 0).members = [0, 1] ∧
        ∀ a ∈ (s.call 0).members, (s.attempt a).pc.isEnded = true :=
    run_reaches (by decide +kernel)
  refine ⟨s, hr, hmem, (each_connection_decides_iff hr hk hentry hend).mpr (.inl ⟨0, ?_, ?_⟩)⟩
  · simp [hmem]
  · decide

/-- The host is deleted, the main connection stays and does not acknowledge. -/
def hostDeleted : List Label :=
  twoConnections ++
    [Label.arrived 0 "/app/announce/down" (putCFInfoMsg "DEL" 4 "fog") 0 2, .attempt 0, .attempt 0,
      .attempt 1, .attempt 1, .attempt 1, .attempt 1, .attempt 1, .attempt 1]

/-- The attempt through the host fails with its connection, the other one times out three times
and is not counted: nobody is called back. -/
theorem each_connection_silent :
    ∃ s, run step (init "app" [] 7 0) hostDeleted = some s ∧
      (s.call 0).entry = .asyncEach ∧
      (∀ a ∈ (s.call 0).members, (s.attempt a).pc.isEnded = true) ∧
      s.callbacksOf 0 = [] ∧ ¬ Decides s 0 := by
  obtain ⟨s, hr, hentry, hend, hnone⟩ :
      ∃ s, run step (init "app" [] 7 0) hostDeleted = some s ∧ (s.call 0).entry = .asyncEach ∧
        (∀ a ∈ (s.call 0).members, (s.attempt a).pc.isEnded = true) ∧ s.callbacksOf 0 = [] :=
    run_reaches (by decide)
  refine ⟨s, hr, hentry, hend, hnone, ?_⟩
  rintro ⟨b, hb, -⟩
  rw [hnone] at hb
  cases hb

end Answers

end JamSched.Remote
