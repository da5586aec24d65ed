import JamSched.Remote.EachConnection
import JamSched.Remote.Tables

/-!
# Synchronous executions through all connections

`CreateRExecSyncToEachConnection` with one `CreateRetryTaskSync` for the main connection and one
for each host. They are a ballot as well, whose reports and announcements go into `prCommon`.

The two variants of the task differ. Behind a failed acknowledgement the one for the main
connection returns, while the one for a host counts a failure and goes on to wait for the
result, where it is counted again or even succeeds. The one for a host also registers with the
main connection, whether there is one or not. And neither looks at a result that came before the
acknowledgement when it finds its connection down.
-/
namespace JamSched.Remote

open Machine

section Advance

variable (s : State) (a : Nat)

def Pc.isCount : Pc → Bool
  | .count _ _ => true
  | _ => false

theorem failWith_counts (e : Reason) (k : Cont) :
    ((s.failWith a e k).attempt a).counts = (s.attempt a).counts := by
  unfold State.failWith
  split <;> simp [State.returnValue]

theorem advance_counts : ((s.advance a).attempt a).counts =
    (s.attempt a).counts + (s.attempt a).pc.isCount.toNat := by
  unfold State.advance
  split
  · next hpc =>
    split
    · unfold State.refuse
      split
      · simp [hpc, Pc.isCount]
      · simp [hpc, Pc.isCount, failWith_counts]
    · simp [hpc, Pc.isCount]
  · next hpc =>
    split
    · split
      · simp [hpc, Pc.isCount, failWith_counts]
      · simp [hpc, Pc.isCount]
    · unfold State.leaveLoop
      split <;> simp [hpc, Pc.isCount]
  · next hpc =>
    split
    · split
      · simp [hpc, Pc.isCount]
      · rw [failWith_counts]
        simp [State.eraseEntries, hpc, Pc.isCount]
    · unfold State.acked
      split <;> simp [hpc, Pc.isCount]
    · unfold State.nacked
      split <;> simp [hpc, Pc.isCount, failWith_counts]
  · next hpc =>
    unfold State.getResult
    split
    · split <;> simp [hpc, Pc.isCount, failWith_counts]
    · split
      · simp [hpc, Pc.isCount, State.returnValue]
      · split <;> simp [hpc, Pc.isCount, failWith_counts]
  · next hpc =>
    unfold State.announce
    split
    · simp [hpc, Pc.isCount]
    · split <;> simp [hpc, Pc.isCount]
    · unfold State.announceValue
      split
      · simp [hpc, Pc.isCount]
      · split <;> simp [hpc, Pc.isCount]
    · simp [hpc, Pc.isCount]
  · next hpc => simp [hpc, Pc.isCount]
  · next hpc =>
    unfold State.reportFailure
    split
    · simp [hpc, Pc.isCount]
    · simp [hpc, Pc.isCount]
    · unfold State.reportValue
      split
      · simp [hpc, Pc.isCount]
      · split <;> simp [hpc, Pc.isCount]
    · simp [hpc, Pc.isCount]
  · next hpc => simp [hpc, Pc.isCount]

end Advance

section Ballot

variable {s t : State} {a k : Nat} {l : Label}

/-- The attempts of call `k` as a ballot about `prCommon`. -/
def syncBallot (s : State) (k : Nat) : Ballot Nat :=
  { ballot s k with
    reports := ((s.call k).prCommon.any fun v => !v.1).toNat
    wins := ((s.call k).prCommon.any fun v => v.1).toNat }

theorem syncBallot_congr (hb : ballot t k = ballot s k) (hc : t.call k = s.call k) :
    syncBallot t k = syncBallot s k := by
  rw [syncBallot, syncBallot, hb, hc]

theorem syncBallot_advance (s : State) (a : Nat) :
    syncBallot (s.advance a) (s.attempt a).call =
      { syncBallot s (s.attempt a).call with
        vote := Function.update (syncBallot s (s.attempt a).call).vote a (nextPc s a).vote
        count := (nextCall s a).failureCountCommon
        once := (nextCall s a).successCallOnceFlag
        reports := ((nextCall s a).prCommon.any fun v => !v.1).toNat
        wins := ((nextCall s a).prCommon.any fun v => v.1).toNat } := by
  rw [syncBallot, ballot_advance, advance_call]
  rfl

/-- A new call has an empty promise and no votes. -/
theorem syncBallot_create_new (h : Sane s) (entry : Entry) :
    (syncBallot (s.create entry) s.nCalls).Sound := by
  have hb := ballot_create_new h entry
  have hcall : (s.create entry).call s.nCalls =
      { entry := entry
        countCommon := (s.kinds entry).length - 1
        members := List.range' s.nAttempts (s.kinds entry).length } := by
    simp [State.create]
  have hreports : (ballot (s.create entry) s.nCalls).reports = 0 := by
    have := hb.reports
    simp only [ballot, hcall] at this ⊢
    split at this <;> omega
  refine ⟨hb.nodup, hb.threshold, hb.count, ?_, ?_, hb.once⟩
  · have := hb.reports
    rw [hreports] at this
    simpa [syncBallot, hcall] using this
  · simp [syncBallot, ballot, hcall]

/-- Somebody about to announce a success finds the promise empty, or announced already. -/
theorem prCommon_of_undecided (hb : (syncBallot s k).Sound) (hmem : a ∈ (s.call k).members)
    (hv : (syncBallot s k).vote a = .undecided) (hflag : (s.call k).successCallOnceFlag = false) :
    (s.call k).prCommon = none := by
  have hwins := hb.wins
  have hno : (syncBallot s k).reports = 0 := by
    by_contra hne
    have := hb.all_counted (.inl hne) a hmem
    simp [hv, Vote.counted] at this
  cases hp : (s.call k).prCommon with
  | none => rfl
  | some v =>
    obtain ⟨ok, j⟩ := v
    cases ok <;> simp [syncBallot, ballot, hp, hflag] at hwins hno

/-- Somebody about to report the failure finds the promise empty. -/
theorem prCommon_of_reporting (hb : (syncBallot s k).Sound) (hmem : a ∈ (s.call k).members)
    (hv : (syncBallot s k).vote a = .reporting) : (s.call k).prCommon = none := by
  have hall := hb.all_counted (.inr ⟨a, hmem, hv⟩)
  have hpos : 0 < (syncBallot s k).members.countP fun i => (syncBallot s k).vote i = .reporting :=
    List.countP_pos_iff.mpr ⟨a, hmem, by simp [hv]⟩
  have hno : (syncBallot s k).reports = 0 := by
    have := hb.reports
    split at this <;> omega
  have hwins : (syncBallot s k).wins = 0 := by
    rw [hb.wins_eq, if_neg]
    rintro ⟨i, hi, hw⟩
    have := hall i hi
    simp [hw, Vote.counted] at this
  cases hp : (s.call k).prCommon with
  | none => rfl
  | some v =>
    obtain ⟨ok, j⟩ := v
    cases ok <;> simp [syncBallot, hp] at hwins hno

/-- Counted, and on to the wait for the result. -/
def Pc.goesOn : Pc → Bool
  | .count _ .throughAck | .report _ .throughAck => true
  | _ => false

/-- The next step of attempt `a` is none of these: a host's registration without a main
connection, a host's acknowledgement that failed, a connection lost behind a result. -/
def regular (s : State) (a : Nat) : Bool :=
  match (s.attempt a).kind, (s.attempt a).pc with
  | .syncTask (some host), .start =>
    (s.up (.syncTask (some host))).isNone || s.mainFogInfo.isSome
  | .syncTask host, .publish n =>
    3 ≤ n || (s.up (.syncTask host)).isSome || !(s.attempt a).res.any (·.1)
  | .syncTask (some _), .waitAck _ => (s.attempt a).ack ≠ some false
  | .syncTask none, .waitAck _ => (s.attempt a).ack ≠ some false || !(s.attempt a).res.any (·.1)
  | _, _ => true

/-- Steps of the attempts of call `k` are regular. -/
def Regular (k : Nat) (s : State) : Label → Prop
  | .attempt a => (s.attempt a).call = k → regular s a = true
  | _ => True

instance (k : Nat) (s : State) (l : Label) : Decidable (Regular k s l) :=
  match l with
  | .attempt _ => inferInstanceAs (Decidable (_ → _))
  | .call _ | .arrived .. | .reply _ | .checkExpire _ | .cancelAllRExecRequests | .shutDown =>
    inferInstanceAs (Decidable True)

/-- What holds of an attempt of such a call. -/
structure Attempt.Tallied (t : Attempt) : Prop where
  straight : t.pc.goesOn = false
  heard : t.pc = .start ∨ t.pc.inWait = true → t.received = t.res.any (·.1)
  won : t.pc = .succeed ∨ t.pc = .ended .succeeded → t.received = true ∧ ∃ j, t.res = some (true, j)
  failing : t.pc.failing = true → t.received = false
  counts : t.counts = t.pc.vote.counted.toNat

/-- Every step of a member is a move of the ballot. -/
theorem syncBallot_own {host : Option String} (hk : (s.attempt a).kind = .syncTask host)
    (hfits : Pc.fits (s.attempt a).kind (s.attempt a).pc = true)
    (hmem : a ∈ (s.call (s.attempt a).call).members)
    (hb : (syncBallot s (s.attempt a).call).Sound) (ht : (s.attempt a).Tallied) :
    (syncBallot s (s.attempt a).call).Move (syncBallot (s.advance a) (s.attempt a).call) := by
  have hvote : (syncBallot s (s.attempt a).call).vote a = (s.attempt a).pc.vote := by
    simp [syncBallot, ballot]
  have hstay : ∀ pc : Pc, (s.attempt a).pc = pc → (nextPc s a).vote = pc.vote →
      nextCall s a = s.call (s.attempt a).call →
      (syncBallot s (s.attempt a).call).Move (syncBallot (s.advance a) (s.attempt a).call) := by
    intro pc hpc hv hc
    have heq : syncBallot (s.advance a) (s.attempt a).call = syncBallot s (s.attempt a).call := by
      rw [syncBallot_advance, hv, hc, ← hpc, ← hvote, Function.update_eq_self]
      rfl
    rw [heq]
    exact .stay
  cases hpc : (s.attempt a).pc with
  | start =>
    refine hstay _ hpc ?_ (by simp [nextCall, hpc])
    simp only [nextPc, hpc, hk]
    split <;> simp [Pc.vote, Kind.failing]
  | publish n =>
    refine hstay _ hpc ?_ (by simp [nextCall, hpc])
    simp only [nextPc, hpc, hk]
    split
    · split <;> simp [Pc.vote, Kind.failing]
    · simp [Pc.vote, Kind.isSync]
  | waitAck n =>
    have hn : n < 3 := by simpa [hpc, Pc.fits] using hfits
    refine hstay _ hpc ?_ (by simp [nextCall, hpc])
    simp only [nextPc, hpc, hk]
    cases host <;> split <;> simp [Pc.vote, Kind.failing, Kind.isSync, hn]
  | waitRes =>
    refine hstay _ hpc ?_ (by simp [nextCall, hpc])
    simp only [nextPc, hpc, hk]
    split
    · simp [Pc.vote, Kind.failing]
    · simp only [reduceCtorEq, if_false]
      split <;> simp [Pc.vote, Kind.failing]
  | succeed =>
    obtain ⟨-, j, hres⟩ := ht.won (.inl hpc)
    have heq : syncBallot (s.advance a) (s.attempt a).call =
        (syncBallot s (s.attempt a).call).win a := by
      rw [syncBallot_advance]
      cases hflag : (s.call (s.attempt a).call).successCallOnceFlag with
      | true => simp [Ballot.win, nextPc, nextCall, hpc, hk, hflag, Pc.vote, syncBallot, ballot]
      | false =>
        have hnone := prCommon_of_undecided hb hmem (by rw [hvote, hpc]; rfl) hflag
        simp [Ballot.win, nextPc, nextCall, hpc, hk, hflag, hnone, hres, Pc.vote, syncBallot,
          ballot]
    rw [heq]
    exact .win hmem (by rw [hvote, hpc]; rfl)
  | count e c =>
    have hafter : State.afterFailure e c = .ended (.failed e) := by
      have := ht.straight
      cases c <;> simp [hpc, Pc.goesOn, State.afterFailure] at this ⊢
    have heq : syncBallot (s.advance a) (s.attempt a).call =
        (syncBallot s (s.attempt a).call).fail a := by
      rw [syncBallot_advance]
      by_cases hlast : (s.call (s.attempt a).call).failureCountCommon =
          (s.call (s.attempt a).call).countCommon <;>
        simp [Ballot.fail, nextPc, nextCall, hpc, hlast, hafter, Pc.vote, syncBallot, ballot]
    rw [heq]
    exact .fail hmem (by rw [hvote, hpc]; rfl)
  | report e c =>
    have hafter : State.afterFailure e c = .ended (.failed e) := by
      have := ht.straight
      cases c <;> simp [hpc, Pc.goesOn, State.afterFailure] at this ⊢
    have hnone := prCommon_of_reporting hb hmem (by rw [hvote, hpc]; rfl)
    have heq : syncBallot (s.advance a) (s.attempt a).call =
        (syncBallot s (s.attempt a).call).report a := by
      rw [syncBallot_advance]
      simp [Ballot.report, nextPc, nextCall, hpc, hk, hnone, hafter, Pc.vote, syncBallot, ballot]
    rw [heq]
    exact .report hmem (by rw [hvote, hpc]; rfl)
  | ended o =>
    refine hstay _ hpc ?_ (by simp [nextCall, hpc])
    simp [nextPc, hpc]

end Ballot

section Tally

variable {s t : State} {a k : Nat} {l : Label} {r : Attempt}

theorem Attempt.tallied_wait (hpc : r.pc.inWait = true) (hr : r.received = r.res.any (·.1))
    (hc : r.counts = 0) : r.Tallied := by
  refine ⟨?_, fun _ => hr, ?_, ?_, ?_⟩ <;>
    cases h : r.pc <;> simp_all [Pc.inWait, Pc.goesOn, Pc.failing, Pc.vote, Vote.counted]

theorem Attempt.tallied_won (hpc : r.pc = .succeed ∨ r.pc = .ended .succeeded)
    (hr : r.received = true ∧ ∃ j, r.res = some (true, j)) (hc : r.counts = 0) : r.Tallied := by
  rcases hpc with hpc | hpc <;>
    exact ⟨by simp [hpc, Pc.goesOn], by simp [hpc, Pc.inWait], fun _ => hr,
      by simp [hpc, Pc.failing], by simp [hpc, hc, Pc.vote, Vote.counted]⟩

theorem Attempt.tallied_failing (hpc : r.pc.failing = true) (hgo : r.pc.goesOn = false)
    (hr : r.received = false) (hc : r.counts = r.pc.vote.counted.toNat) : r.Tallied := by
  refine ⟨hgo, ?_, ?_, fun _ => hr, hc⟩
  · cases h : r.pc <;> simp_all [Pc.inWait, Pc.failing]
  · rintro (h | h) <;> simp [h, Pc.failing] at hpc

/-- The attempt has not counted a failure and does not count one now. -/
def Pc.isQuiet (pc : Pc) : Prop := pc.vote.counted = false ∧ pc.isCount = false

/-- No failure has been counted before the attempt has left its waits. -/
theorem Pc.isQuiet_of_start {pc : Pc} (h : pc = .start ∨ pc.inWait = true) : pc.isQuiet := by
  cases pc <;> simp_all [Pc.inWait, Pc.isQuiet, Pc.vote, Vote.counted, Pc.isCount]

/-- The attempt goes to one of its waits. -/
theorem tallied_own_wait (ht : (s.attempt a).Tallied) (pc : Pc) (hn : nextPc s a = pc)
    (hin : pc.inWait = true) (hheard : (s.attempt a).received = (s.attempt a).res.any (·.1))
    (hquiet : (s.attempt a).pc.isQuiet) : ((s.advance a).attempt a).Tallied := by
  have hown := own_advance s a
  refine Attempt.tallied_wait (by rw [advance_pc, hn, hin])
    (by rw [hown.received, hown.res, hheard]) ?_
  rw [advance_counts, ht.counts, hquiet.1, hquiet.2]
  rfl

/-- The attempt goes to the count of its failure. -/
theorem tallied_own_count (ht : (s.attempt a).Tallied) (e : Reason) (c : Cont)
    (hn : nextPc s a = .count e c) (hne : c ≠ .throughAck) (hrec : (s.attempt a).received = false)
    (hquiet : (s.attempt a).pc.isQuiet) : ((s.advance a).attempt a).Tallied := by
  refine Attempt.tallied_failing ?_ ?_ (by rw [(own_advance s a).received, hrec]) ?_
  · rw [advance_pc, hn]
    rfl
  · rw [advance_pc, hn]
    cases c <;> simp [Pc.goesOn] at hne ⊢
  · rw [advance_counts, ht.counts, hquiet.1, hquiet.2, advance_pc, hn]
    rfl

/-- The attempt ends, with its failure counted now or before. -/
theorem tallied_own_ended (ht : (s.attempt a).Tallied) (e : Reason)
    (hn : nextPc s a = .ended (.failed e)) (hrec : (s.attempt a).received = false)
    (hc : (s.attempt a).pc.vote.counted.toNat + (s.attempt a).pc.isCount.toNat = 1) :
    ((s.advance a).attempt a).Tallied := by
  refine Attempt.tallied_failing ?_ ?_ (by rw [(own_advance s a).received, hrec]) ?_
  · rw [advance_pc, hn]
    rfl
  · rw [advance_pc, hn]
    rfl
  · rw [advance_counts, ht.counts, hc, advance_pc, hn]
    rfl

/-- A step of such an attempt, as long as it is a regular one. -/
theorem tallied_own {host : Option String} (hk : (s.attempt a).kind = .syncTask host)
    (hfits : Pc.fits (s.attempt a).kind (s.attempt a).pc = true)
    (hmem : a ∈ (s.call (s.attempt a).call).members)
    (hb : (syncBallot s (s.attempt a).call).Sound) (ht : (s.attempt a).Tallied)
    (hstart : (s.attempt a).pc = .start → (s.attempt a).res = none)
    (hreg : Regular (s.attempt a).call s (.attempt a)) : ((s.advance a).attempt a).Tallied := by
  have hown := own_advance s a
  have hpc' := advance_pc s a
  have hcounts := advance_counts s a
  have hvote : (syncBallot s (s.attempt a).call).vote a = (s.attempt a).pc.vote := by
    simp [syncBallot, ballot]
  have hold := ht.counts
  have hreg := hreg rfl
  cases hpc : (s.attempt a).pc with
  | start =>
    have hquiet := Pc.isQuiet_of_start (.inl hpc)
    have hheard := ht.heard (.inl hpc)
    have hrec : (s.attempt a).received = false := by simp [hheard, hstart hpc]
    by_cases hup : s.up (.syncTask host) = none
    · exact tallied_own_count ht .heartbeatFailure .leave
        (by simp [nextPc, hpc, hup, hk, Kind.failing]) (by simp) hrec hquiet
    · exact tallied_own_wait ht (.publish 0) (by simp [nextPc, hpc, hk, hup]) rfl hheard hquiet
  | publish n =>
    have hin : (s.attempt a).pc.inWait = true := by simp [hpc, Pc.inWait]
    have hquiet := Pc.isQuiet_of_start (.inr hin)
    have hheard := ht.heard (.inr hin)
    by_cases hn : n < 3
    · by_cases hup : s.up (.syncTask host) = none
      · have hrec : (s.attempt a).res.any (·.1) = false := by
          simpa [regular, hk, hpc, hup, Nat.not_le.mpr hn] using hreg
        exact tallied_own_count ht .heartbeatFailure .leave
          (by simp [nextPc, hpc, hn, hup, hk, Kind.failing]) (by simp) (by rw [hheard, hrec]) hquiet
      · exact tallied_own_wait ht (.waitAck n) (by simp [nextPc, hpc, hn, hk, hup]) rfl hheard
          hquiet
    · exact tallied_own_wait ht .waitRes (by simp [nextPc, hpc, hn, hk, Kind.isSync]) rfl hheard
        hquiet
  | waitAck n =>
    have hin : (s.attempt a).pc.inWait = true := by simp [hpc, Pc.inWait]
    have hquiet := Pc.isQuiet_of_start (.inr hin)
    have hn : n < 3 := by simpa [hpc, Pc.fits] using hfits
    have hheard := ht.heard (.inr hin)
    cases hack : (s.attempt a).ack with
    | none =>
      exact tallied_own_wait ht (.publish (n + 1)) (by simp [nextPc, hpc, hn, hack]) rfl hheard
        hquiet
    | some ok =>
      cases ok with
      | true =>
        exact tallied_own_wait ht .waitRes (by simp [nextPc, hpc, hack, hk, Kind.isSync]) rfl hheard
          hquiet
      | false =>
        -- only the main connection's attempt may come here
        cases host with
        | some host => simp [regular, hk, hpc, hack] at hreg
        | none =>
          have hrec : (s.attempt a).res.any (·.1) = false := by
            simpa [regular, hk, hpc, hack] using hreg
          exact tallied_own_count ht .heartbeatFailure .leave
            (by simp [nextPc, hpc, hack, hk, Kind.failing]) (by simp) (by rw [hheard, hrec]) hquiet
  | waitRes =>
    have hin : (s.attempt a).pc.inWait = true := by simp [hpc, Pc.inWait]
    have hquiet := Pc.isQuiet_of_start (.inr hin)
    have hheard := ht.heard (.inr hin)
    cases hres : (s.attempt a).res with
    | none =>
      exact tallied_own_count ht .executionTimeout .inTry
        (by simp [nextPc, hpc, hres, hk, Kind.failing]) (by simp) (by simp [hheard, hres]) hquiet
    | some v =>
      obtain ⟨ok, j⟩ := v
      cases ok with
      | false =>
        exact tallied_own_count ht .heartbeatFailure .inTry
          (by simp [nextPc, hpc, hres, hk, Kind.failing]) (by simp) (by simp [hheard, hres]) hquiet
      | true =>
        refine Attempt.tallied_won (.inl ?_) ?_ ?_
        · rw [hpc']
          simp [nextPc, hpc, hk, hres]
        · rw [hown.received, hown.res, hheard, hres]
          simp
        · rw [hcounts, hold, hpc]
          rfl
  | succeed =>
    refine Attempt.tallied_won (.inr ?_) ?_ ?_
    · have hopen : (s.call (s.attempt a).call).successCallOnceFlag = true ∨
          (s.call (s.attempt a).call).prCommon.isNone = true := by
        cases hflag : (s.call (s.attempt a).call).successCallOnceFlag with
        | true => exact .inl rfl
        | false =>
          right
          rw [prCommon_of_undecided hb hmem (by rw [hvote, hpc]; rfl) hflag]
          rfl
      rw [hpc']
      simp only [nextPc, hpc, hk]
      rw [if_pos hopen]
    · rw [hown.received, hown.res]
      exact ht.won (.inl hpc)
    · rw [hcounts, hold, hpc]
      rfl
  | count e c =>
    have hrec := ht.failing (by simp [hpc, Pc.failing])
    have hgo := ht.straight
    rw [hpc] at hgo
    by_cases hlast : (s.call (s.attempt a).call).failureCountCommon =
        (s.call (s.attempt a).call).countCommon
    · refine Attempt.tallied_failing ?_ ?_ (by rw [hown.received, hrec]) ?_
      all_goals
        have hnext : nextPc s a = .report e c := by simp [nextPc, hpc, hlast]
        rw [hpc', hnext]
      · rfl
      · cases c <;> simp [Pc.goesOn] at hgo ⊢
      · rw [hcounts, hold, hpc]
        rfl
    · refine tallied_own_ended ht e ?_ hrec ?_
      · cases c <;> simp [nextPc, hpc, hlast, State.afterFailure, Pc.goesOn] at hgo ⊢
      · simp [hpc, Pc.vote, Vote.counted, Pc.isCount]
  | report e c =>
    have hrec := ht.failing (by simp [hpc, Pc.failing])
    have hgo := ht.straight
    rw [hpc] at hgo
    have hnone := prCommon_of_reporting hb hmem (by rw [hvote, hpc]; rfl)
    refine tallied_own_ended ht e ?_ hrec ?_
    · cases c <;> simp [nextPc, hpc, hk, hnone, State.afterFailure, Pc.goesOn] at hgo ⊢
    · simp [hpc, Pc.vote, Vote.counted, Pc.isCount]
  | ended o =>
    have hsame : s.advance a = s := by simp [State.advance, hpc]
    rw [hsame]
    exact ht

/-- The surroundings complete promises and nothing else. -/
theorem Attempt.Tallied.touched {r' : Attempt} (h : r.Tallied) (ht : r.Touched r')
    (hstart : r.pc = .start → r'.res = r.res) : r'.Tallied := by
  have hpc := ht.pc
  have hrec := ht.received
  refine ⟨hpc ▸ h.straight, ?_, ?_, ?_, ?_⟩
  · rw [hpc]
    intro hin
    have hheard := h.heard hin
    rcases hin with hin | hin
    · rw [hrec, hheard, hstart hin, hin]
      cases r.res <;> simp [Pc.inWait]
    · cases hres : r.res with
      | none => simp [hrec, hheard, hres, hin]
      | some v =>
        rw [ht.res (by simp [hres]), hrec, hheard, hres]
        simp
  · rw [hpc]
    intro hwon
    obtain ⟨hr, j, hres⟩ := h.won hwon
    exact ⟨by simp [hrec, hr], j, by rw [ht.res (by simp [hres]), hres]⟩
  · rw [hpc]
    intro hfail
    have hno : r.pc.inWait = false := by
      cases hp : r.pc <;> simp [hp, Pc.failing, Pc.inWait] at hfail ⊢
    simp [hrec, h.failing hfail, hno]
  · rw [hpc, ht.counts]
    exact h.counts

/-- What holds of call `k` along regular steps. -/
structure Tallied (s : State) (k : Nat) : Prop where
  ballot : (syncBallot s k).Sound
  member : ∀ a ∈ (s.call k).members, (s.attempt a).Tallied
  throws : (s.call k).throws = 0
  result : ∀ v, (s.call k).prCommon = some (true, v) →
    ∃ a ∈ (s.call k).members, (s.attempt a).pc = .ended .succeeded ∧
      (s.attempt a).res = some (true, v)
  exception : ∀ v, (s.call k).prCommon = some (false, v) → v.isException = true

theorem tallied_create_new (h : Sane s) (entry : Entry) : Tallied (s.create entry) s.nCalls := by
  have hcall : (s.create entry).call s.nCalls =
      { entry := entry
        countCommon := (s.kinds entry).length - 1
        members := List.range' s.nAttempts (s.kinds entry).length } := by
    simp [State.create]
  refine ⟨syncBallot_create_new h entry, ?_, by rw [hcall], by simp [hcall], by simp [hcall]⟩
  intro a ha
  obtain ⟨hge, hlt⟩ : s.nAttempts ≤ a ∧ a < s.nAttempts + (s.kinds entry).length := by
    simpa [hcall] using ha
  rcases create_attempt s entry a with ⟨-, hold⟩ | ⟨-, -, kind, -, heq⟩
  · omega
  · rw [heq]
    constructor <;> simp [Pc.goesOn, Pc.inWait, Pc.failing, Pc.vote, Vote.counted]

/-- The call and its members are as they were. -/
theorem Tallied.congr (h : Tallied s k) (hb : syncBallot t k = syncBallot s k)
    (hc : t.call k = s.call k) (ha : ∀ a ∈ (s.call k).members, t.attempt a = s.attempt a) :
    Tallied t k := by
  refine ⟨hb ▸ h.ballot, ?_, by rw [hc]; exact h.throws, ?_, by rw [hc]; exact h.exception⟩
  · intro a hmem
    rw [hc] at hmem
    rw [ha a hmem]
    exact h.member a hmem
  · intro v hv
    rw [hc] at hv
    obtain ⟨a, hmem, hpc, hres⟩ := h.result v hv
    exact ⟨a, hc ▸ hmem, by rw [ha a hmem, hpc], by rw [ha a hmem, hres]⟩

theorem tallied_env (h : Tallied s k) (htab : Tabled s) (he : Env s t) : Tallied t k := by
  have hc : t.call k = s.call k := by rw [he.call]
  refine ⟨syncBallot_congr (ballot_env he) hc ▸ h.ballot, ?_, by rw [hc]; exact h.throws, ?_,
    by rw [hc]; exact h.exception⟩
  · intro a hmem
    rw [hc] at hmem
    refine (h.member a hmem).touched (he.attempt a) fun hpc => ?_
    by_contra hne
    obtain ⟨id, hid, -⟩ := he.res a hne
    have := htab.start a hpc
    rw [(htab.res id a hid).2.1] at this
    cases this
  · intro v hv
    rw [hc] at hv
    obtain ⟨a, hmem, hpc, hres⟩ := h.result v hv
    exact ⟨a, hc ▸ hmem, by rw [(he.attempt a).pc, hpc],
      by rw [(he.attempt a).res (by simp [hres]), hres]⟩

/-- What a step of a member makes of the promise of its call. -/
theorem nextCall_prCommon {host : Option String} (hk : (s.attempt a).kind = .syncTask host)
    (hmem : a ∈ (s.call (s.attempt a).call).members) (h : Tallied s (s.attempt a).call) :
    (nextCall s a).throws = 0 ∧
      ((nextCall s a).prCommon = (s.call (s.attempt a).call).prCommon ∨
        (s.attempt a).pc = .succeed ∧ nextPc s a = .ended .succeeded ∧
          (nextCall s a).prCommon = (s.attempt a).res ∨
        ∃ e : Reason, (nextCall s a).prCommon = some (false, .exception e.text)) := by
  have hvote : (syncBallot s (s.attempt a).call).vote a = (s.attempt a).pc.vote := by
    simp [syncBallot, ballot]
  have hthrows := h.throws
  cases hpc : (s.attempt a).pc with
  | succeed =>
    cases hflag : (s.call (s.attempt a).call).successCallOnceFlag with
    | true => simp [nextCall, hpc, hk, hflag, hthrows]
    | false =>
      have hnone := prCommon_of_undecided h.ballot hmem (by rw [hvote, hpc]; rfl) hflag
      simp [nextCall, nextPc, hpc, hk, hflag, hnone, hthrows]
  | report e c =>
    have hnone := prCommon_of_reporting h.ballot hmem (by rw [hvote, hpc]; rfl)
    refine ⟨by simp [nextCall, hpc, hk, hnone, hthrows], .inr (.inr ⟨e, ?_⟩)⟩
    simp [nextCall, hpc, hk, hnone]
  | _ => simp [nextCall, hpc, hthrows]

theorem tallied_advance (hs : Sane s) (htab : Tabled s) (ha : a < s.nAttempts)
    (hrun : (s.attempt a).pc.isEnded = false) (hk : k < s.nCalls)
    (hentry : (s.call k).entry = .syncEach) (h : Tallied s k) (hreg : Regular k s (.attempt a)) :
    Tallied (s.advance a) k := by
  have hown := own_advance s a
  by_cases hc : (s.attempt a).call = k
  · subst hc
    have hmem := (hs.caller a ha).2
    obtain ⟨host, hkind⟩ : ∃ host, (s.attempt a).kind = .syncTask host := by
      have hmakes := hs.makes a ha
      rw [hentry] at hmakes
      cases hkind : (s.attempt a).kind <;> simp [hkind, Entry.makes] at hmakes ⊢
    have ht := h.member a hmem
    have hself := tallied_own hkind (hs.fits a ha) hmem h.ballot ht
      (fun hpc => (htab.fresh a (htab.start a hpc)).2.1) hreg
    have hmembers := hown.members (s.attempt a).call
    obtain ⟨hthrows, hpr⟩ := nextCall_prCommon hkind hmem h
    refine ⟨h.ballot.move (syncBallot_own hkind (hs.fits a ha) hmem h.ballot ht), ?_, ?_, ?_, ?_⟩
    · intro b hb
      by_cases hba : b = a
      · rw [hba]
        exact hself
      · rw [hown.attempt b hba]
        exact h.member b (hmembers ▸ hb)
    · rw [advance_call]
      exact hthrows
    · intro v hv
      rw [advance_call] at hv
      rw [hmembers]
      rcases hpr with hsame | ⟨hpc, hend, hset⟩ | ⟨e, hset⟩
      · obtain ⟨b, hb, hpc, hres⟩ := h.result v (hsame ▸ hv)
        -- it has ended, so it is not the one that moves
        have hba : b ≠ a := by
          rintro rfl
          simp [hpc, Pc.isEnded] at hrun
        exact ⟨b, hb, by rw [hown.attempt b hba, hpc], by rw [hown.attempt b hba, hres]⟩
      · exact ⟨a, hmem, by rw [advance_pc, hend], by rw [hown.res, ← hset, hv]⟩
      · rw [hset] at hv
        cases hv
    · intro v hv
      rw [advance_call] at hv
      rcases hpr with hsame | ⟨hpc, -, hset⟩ | ⟨e, hset⟩
      · exact h.exception v (hsame ▸ hv)
      · obtain ⟨-, j, hres⟩ := ht.won (.inl hpc)
        rw [hset, hres] at hv
        cases hv
      · rw [hset] at hv
        obtain rfl : Json.exception e.text = v := by simpa using hv
        exact Json.isException_exception _
  · refine h.congr (syncBallot_congr (ballot_other hc) (hown.call k (Ne.symm hc)))
      (hown.call k (Ne.symm hc)) fun b hb => hown.attempt b ?_
    rintro rfl
    exact hc (hs.member k hk b hb).2

/-- An upper bound of the steps an attempt has left. -/
def Pc.left : Pc → Nat
  | .start => 17
  | .publish n => 16 - 2 * n
  | .waitAck n => 15 - 2 * n
  | .count _ .throughAck => 8
  | .report _ .throughAck => 7
  | .waitRes => 6
  | .succeed => 5
  | .count _ .inTry => 4
  | .report _ .inTry => 3
  | .count _ .leave => 2
  | .report _ .leave => 1
  | .ended _ => 0

theorem nextPc_left (hfits : Pc.fits (s.attempt a).kind (s.attempt a).pc = true)
    (hrun : (s.attempt a).pc.isEnded = false)
    (hpr : ∀ host e c, (s.attempt a).kind = .syncTask host → (s.attempt a).pc = .report e c →
      (s.call (s.attempt a).call).prCommon = none) :
    (nextPc s a).left < (s.attempt a).pc.left := by
  have hfail : ∀ (kind : Kind) (e : Reason), (kind.failing e .leave).left ≤ 2 := by
    intro kind e
    cases kind <;> simp [Kind.failing, Pc.left]
  have hfail' : ∀ (kind : Kind) (e : Reason), (kind.failing e .inTry).left ≤ 4 := by
    intro kind e
    cases kind <;> simp [Kind.failing, Pc.left]
  cases hpc : (s.attempt a).pc with
  | start =>
    have := hfail (s.attempt a).kind .heartbeatFailure
    simp only [nextPc, hpc]
    change _ < 17
    split_ifs
    · change 16 < 17
      omega
    · change 0 < 17
      omega
    · omega
  | publish n =>
    have hn : n ≤ 3 := by simpa [hpc, Pc.fits] using hfits
    have := hfail (s.attempt a).kind .heartbeatFailure
    simp only [nextPc, hpc]
    change _ < 16 - 2 * n
    split_ifs
    · change 15 - 2 * n < _
      omega
    · omega
    · change 6 < _
      omega
    · change 0 < _
      omega
  | waitAck n =>
    have hn : n < 3 := by simpa [hpc, Pc.fits] using hfits
    have := hfail (s.attempt a).kind .heartbeatFailure
    simp only [nextPc, hpc]
    change _ < 15 - 2 * n
    split
    · rw [if_pos hn]
      change 16 - 2 * (n + 1) < _
      omega
    · split_ifs
      · change 6 < _
        omega
      · change 5 < _
        omega
    · split
      · change 8 < _
        omega
      · omega
  | waitRes =>
    have htime := hfail' (s.attempt a).kind .executionTimeout
    have hheart := hfail' (s.attempt a).kind .heartbeatFailure
    simp only [nextPc, hpc]
    change _ < 6
    split
    · split_ifs
      · change 0 < 6
        omega
      · omega
    · split_ifs
      · change 0 < 6
        omega
      · change 5 < 6
        omega
      · omega
  | succeed =>
    simp only [nextPc, hpc]
    split
    · split <;> simp [Pc.left]
    · next hk => simp [hpc, hk, Pc.fits] at hfits
    · simp [Pc.left]
  | count e c =>
    simp only [nextPc, hpc]
    split <;> cases c <;> simp [State.afterFailure, Pc.left]
  | report e c =>
    simp only [nextPc, hpc]
    split
    · next hk =>
      rw [hpr _ e c hk hpc]
      cases c <;> simp [State.afterFailure, Pc.left]
    · next hk => simp [hpc, hk, Pc.fits] at hfits
    · cases c <;> simp [State.afterFailure, Pc.left]
  | ended o => simp [hpc, Pc.isEnded] at hrun

theorem failWith_crashed (e : Reason) (c : Cont) : (s.failWith a e c).crashed = s.crashed := by
  unfold State.failWith
  split <;> rfl

theorem advance_crashed {host : Option String} (hk : (s.attempt a).kind = .syncTask host)
    (hpr : ∀ e c, (s.attempt a).pc = .report e c →
      (s.call (s.attempt a).call).prCommon = none) (hreg : regular s a = true) :
    (s.advance a).crashed = s.crashed := by
  cases hpc : (s.attempt a).pc with
  | start =>
    cases hup : s.up (.syncTask host) with
    | none => simp [State.advance, State.refuse, hpc, hk, hup, failWith_crashed]
    | some c =>
      cases host with
      | none =>
        simp [State.advance, State.register, State.enrol, State.insertPending, State.allocate,
          State.updConn, State.updAttempt, hpc, hk, hup]
      | some host =>
        obtain ⟨m, hm⟩ : ∃ m, s.mainFogInfo = some m := by
          rw [← Option.isSome_iff_exists]
          simpa [regular, hpc, hk, hup] using hreg
        simp [State.advance, State.register, State.enrol, State.insertPending, State.allocate,
          State.updConn, State.updAttempt, hpc, hk, hup, hm]
  | publish n =>
    simp only [State.advance, hpc, hk]
    split
    · split
      · exact failWith_crashed ..
      · rfl
    · unfold State.leaveLoop
      split <;> rfl
  | waitAck n =>
    simp only [State.advance, hpc]
    split
    · split
      · rfl
      · exact failWith_crashed ..
    · unfold State.acked
      split <;> rfl
    · unfold State.nacked
      split <;> exact failWith_crashed ..
  | waitRes =>
    simp only [State.advance, hpc, State.getResult]
    split
    · split <;> exact failWith_crashed ..
    · split
      · rfl
      · split
        · rfl
        · exact failWith_crashed ..
  | succeed =>
    simp only [State.advance, hpc, State.announce, hk, State.announceValue]
    split
    · rfl
    · split <;> rfl
  | count e c => simp [State.advance, hpc, State.countFailure, State.updCall, State.updAttempt]
  | report e c =>
    simp [State.advance, hpc, State.reportFailure, hk, State.reportValue, hpr e c hpc,
      State.updCall, State.setPc, State.updAttempt]
  | ended o => simp [State.advance, hpc]

end Tally

section Settles

/-- What `CreateRExecSyncToEachConnection` promises of its call `k`. -/
structure Settles (s : State) (k : Nat) : Prop where
  /-- No `set_value` of `prCommon` has thrown. -/
  throws : (s.call k).throws = 0
  counts : ∀ a ∈ (s.call k).members, (s.attempt a).counts ≤ 1
  /-- A result is one that some attempt received. -/
  result : ∀ v, (s.call k).prCommon = some (true, v) → ∃ a ∈ (s.call k).members,
    (s.attempt a).received = true ∧ (s.attempt a).res = some (true, v)
  /-- An exception value means that all attempts have failed, none with a result. -/
  exception : ∀ v, (s.call k).prCommon = some (false, v) → v.isException = true ∧
    ∀ a ∈ (s.call k).members, (s.attempt a).received = false ∧
      ∃ e, (s.attempt a).pc = .ended (.failed e)
  /-- With all attempts at their end the promise is satisfied, by a result if one was received. -/
  settled : (∀ a ∈ (s.call k).members, (s.attempt a).pc.isEnded = true) →
    ∃ ok v, (s.call k).prCommon = some (ok, v) ∧
      ((∃ a ∈ (s.call k).members, (s.attempt a).received = true) → ok = true)
  /-- And every regular step brings an attempt closer to its end. -/
  progress : ∀ a ∈ (s.call k).members, (s.attempt a).pc.isEnded = false → regular s a = true →
    (s.advance a).crashed = s.crashed ∧
      ((s.advance a).attempt a).pc.left < (s.attempt a).pc.left

variable {s t : State} {k : Nat} {l : Label}

/-- The members of such a call. -/
theorem sync_member (hs : Sane s) (hk : k < s.nCalls) (hentry : (s.call k).entry = .syncEach)
    {a : Nat} (ha : a ∈ (s.call k).members) :
    a < s.nAttempts ∧ (s.attempt a).call = k ∧ ∃ host, (s.attempt a).kind = .syncTask host := by
  obtain ⟨hlt, hcall⟩ := hs.member k hk a ha
  have hmakes := hs.makes a hlt
  rw [hcall, hentry] at hmakes
  refine ⟨hlt, hcall, ?_⟩
  cases hkind : (s.attempt a).kind <;> simp [hkind, Entry.makes] at hmakes ⊢

/-- An exception value was put there by the last of them, when all had failed. -/
theorem Tallied.all_failed (h : Tallied s k)
    (hcall : ∀ a ∈ (s.call k).members, (s.attempt a).call = k) {v : Json}
    (hv : (s.call k).prCommon = some (false, v)) :
    ∀ a ∈ (s.call k).members, ∃ e, (s.attempt a).pc = .ended (.failed e) := by
  have hone : (syncBallot s k).reports = 1 := by simp [syncBallot, hv]
  have hnone : (syncBallot s k).members.countP
      (fun a => (syncBallot s k).vote a = .reporting) = 0 := by
    have := h.ballot.reports
    split at this <;> omega
  intro a ha
  have hcounted := h.ballot.all_counted (.inl (by omega)) a ha
  have hnot := List.countP_eq_zero.mp hnone a ha
  have hvote : (syncBallot s k).vote a = (s.attempt a).pc.vote := by
    simp [syncBallot, Remote.ballot, hcall a ha]
  rw [hvote] at hcounted hnot
  cases hpc : (s.attempt a).pc with
  | ended o => cases o <;> simp_all [Pc.vote, Vote.counted]
  | _ => simp_all [Pc.vote, Vote.counted]

theorem Tallied.settles (hs : Sane s) (hk : k < s.nCalls) (hentry : (s.call k).entry = .syncEach)
    (h : Tallied s k) : Settles s k := by
  have hcall : ∀ a ∈ (s.call k).members, (s.attempt a).call = k := fun a ha =>
    (hs.member k hk a ha).2
  have hfailed : ∀ v, (s.call k).prCommon = some (false, v) → ∀ a ∈ (s.call k).members,
      (s.attempt a).received = false ∧ ∃ e, (s.attempt a).pc = .ended (.failed e) := by
    intro v hv a ha
    obtain ⟨e, hpc⟩ := h.all_failed hcall hv a ha
    exact ⟨(h.member a ha).failing (by simp [hpc, Pc.failing]), e, hpc⟩
  refine ⟨h.throws, ?_, ?_, ?_, ?_, ?_⟩
  · intro a ha
    rw [(h.member a ha).counts]
    exact Bool.toNat_le _
  · intro v hv
    obtain ⟨a, ha, hpc, hres⟩ := h.result v hv
    exact ⟨a, ha, ((h.member a ha).won (.inr hpc)).1, hres⟩
  · intro v hv
    exact ⟨h.exception v hv, hfailed v hv⟩
  · intro hend
    have hsome : ∃ ok v, (s.call k).prCommon = some (ok, v) := by
      by_contra hno
      have hempty : (s.call k).prCommon = none := by
        cases hp : (s.call k).prCommon with
        | none => rfl
        | some v => exact absurd ⟨v.1, v.2, hp⟩ hno
      have hclosed : ∀ a ∈ (syncBallot s k).members,
          (syncBallot s k).vote a = .failed ∨ (syncBallot s k).vote a = .won := by
        intro a ha
        obtain ⟨hlt, hc, host, hkind⟩ := sync_member hs hk hentry ha
        have hfits := hs.fits a hlt
        have := hend a ha
        cases hpc : (s.attempt a).pc with
        | ended o =>
          cases o <;> simp_all [syncBallot, Remote.ballot, Pc.vote, Pc.fits]
        | _ => simp [hpc, Pc.isEnded] at this
      -- nobody has won, so everybody has failed and the last one has reported
      have hwins := h.ballot.wins_eq
      have hreports := h.ballot.reports_closed fun a ha => by
        rcases hclosed a ha with hv | hv <;> simp [hv, Vote.closed]
      have hall : ∀ a ∈ (syncBallot s k).members, (syncBallot s k).vote a = .failed := by
        intro a ha
        rcases hclosed a ha with hv | hv
        · exact hv
        · rw [if_pos ⟨a, ha, hv⟩] at hwins
          simp [syncBallot, hempty] at hwins
      rw [if_pos hall] at hreports
      simp [syncBallot, hempty] at hreports
    obtain ⟨ok, v, hv⟩ := hsome
    refine ⟨ok, v, hv, ?_⟩
    rintro ⟨a, ha, hrec⟩
    cases ok with
    | true => rfl
    | false =>
      rw [(hfailed v hv a ha).1] at hrec
      cases hrec
  · intro a ha hrun hreg
    obtain ⟨hlt, hc, host, hkind⟩ := sync_member hs hk hentry ha
    have hpr : ∀ e c, (s.attempt a).pc = .report e c →
        (s.call (s.attempt a).call).prCommon = none := by
      intro e c hpc
      rw [hc]
      refine prCommon_of_reporting h.ballot ha ?_
      simp [syncBallot, Remote.ballot, hc, hpc, Pc.vote]
    rw [advance_pc]
    exact ⟨advance_crashed hkind hpr hreg,
      nextPc_left (hs.fits a hlt) hrun fun _ e c _ => hpr e c⟩

/-- In every run whose steps of call `k` are all regular, a call of
`CreateRExecSyncToEachConnection` keeps its promises in every state. -/
theorem sync_each_settles (appId : String) (funcs : List String) (eid : Nat) (fresh : Ptr)
    (ls : List Label) (k : Nat) (h : Along step (Regular k) (init appId funcs eid fresh) ls) :
    Always step (fun s => k < s.nCalls → (s.call k).entry = .syncEach → Settles s k)
      (init appId funcs eid fresh) ls := by
  refine always_invariant_along (I := fun s => Sane s ∧ Tabled s ∧
    (k < s.nCalls → (s.call k).entry = .syncEach → Tallied s k)) ?_ ?_ ?_ h
  · rintro s l t ⟨hs, htab, ht⟩ hreg hst
    refine ⟨sane_step hs hst, tabled_step hs htab hst, fun hk hentry => ?_⟩
    obtain ⟨-, ⟨entry, rfl, rfl⟩ | ⟨a, rfl, ha, hrun, rfl⟩ | ⟨he, -⟩⟩ := step_cases hst
    · by_cases hnew : k = s.nCalls
      · rw [hnew]
        exact tallied_create_new hs entry
      · have hk : k < s.nCalls := by
          simp only [State.create] at hk
          omega
        have hcall : (s.create entry).call k = s.call k := by
          simp [State.create, Nat.ne_of_lt hk]
        refine (ht hk (hcall ▸ hentry)).congr
          (syncBallot_congr (ballot_create_old hs entry hk) hcall) hcall fun a ha => ?_
        simp [State.create, (hs.member k hk a ha).1]
    · have hown := own_advance s a
      rw [hown.nCalls] at hk
      rw [hown.entry] at hentry
      exact tallied_advance hs htab ha hrun hk hentry (ht hk hentry) hreg
    · exact tallied_env (ht (he.nCalls ▸ hk) (he.call ▸ hentry)) htab he
  · rintro s ⟨hs, -, ht⟩ hk hentry
    exact (ht hk hentry).settles hs hk hentry
  · exact ⟨sane_init .., tabled_init .., by simp [init]⟩

/-- Main connection and one host, both registered, and a call to both. -/
def callBoth : List Label :=
  [.arrived 0 "/app/announce/down" registerAckMsg 0 1,
    .arrived 0 "/app/announce/down" (putCFInfoMsg "ADD" 3 "fog") 0 1, .call .syncEach]

/-- The main connection answers, the host is deleted. -/
def mainAnswers : List Label :=
  callBoth ++
    [Label.attempt 0, .attempt 1, .attempt 0, .attempt 1,
      .arrived 0 "/app/replies/down" (rexecAckMsg 7) 0 2, .attempt 0,
      .arrived 0 "/app/replies/down" (rexecResMsg 7 (.str "done")) 0 2, .attempt 0, .attempt 0,
      .arrived 0 "/app/announce/down" (putCFInfoMsg "DEL" 4 "fog") 0 2, .attempt 1, .attempt 1,
      .attempt 1]

theorem sync_each_settles_main_answers :
    (∃ s, run step (init "app" [] 7 0) mainAnswers = some s ∧ (s.call 0).members = [0, 1] ∧
      (s.attempt 0).pc = .ended .succeeded ∧
      (s.attempt 1).pc = .ended (.failed .heartbeatFailure) ∧
      (s.call 0).prCommon.map Prod.fst = some true) ∧
    Always step (fun s => 0 < s.nCalls → (s.call 0).entry = .syncEach → Settles s 0)
      (init "app" [] 7 0) mainAnswers :=
  ⟨run_reaches (by decide +kernel),
    sync_each_settles "app" [] 7 0 mainAnswers 0 (by decide +kernel)⟩

/-- The main connection expires while the host still answers to PING. -/
def mainExpires : List Label :=
  callBoth ++
    [Label.attempt 1, .attempt 1, .checkExpire 2,
      .arrived 1 "/app/announce/down" (.obj [("cmd", .str "PING")]) 0 2, .checkExpire 2,
      .attempt 1, .attempt 1, .attempt 1, .attempt 1, .attempt 1]

/-- The host's attempt is failed with the main connection, counted twice, and reports the failure
of the call while the main connection's attempt has not started. -/
theorem sync_each_counted_twice :
    ∃ s, run step (init "app" [] 7 0) mainExpires = some s ∧ (s.call 0).entry = .syncEach ∧
      (s.attempt 1).counts = 2 ∧ (s.attempt 0).pc = .start ∧
      (s.call 0).prCommon.map Prod.fst = some false ∧ ¬ Settles s 0 := by
  obtain ⟨s, hr, hentry, hmem, hcounts, hpc, hpr⟩ :
      ∃ s, run step (init "app" [] 7 0) mainExpires = some s ∧ (s.call 0).entry = .syncEach ∧
        1 ∈ (s.call 0).members ∧ (s.attempt 1).counts = 2 ∧ (s.attempt 0).pc = .start ∧
        (s.call 0).prCommon.map Prod.fst = some false :=
    run_reaches (by decide +kernel)
  refine ⟨s, hr, hentry, hcounts, hpc, hpr, fun h => ?_⟩
  have := h.counts 1 hmem
  omega

end Settles

end JamSched.Remote
