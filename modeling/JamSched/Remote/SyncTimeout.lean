import JamSched.Remote.SyncEach
import JamSched.Remote.Cleanup

/-!
# Synchronous executions through the main connection

`CreateRExecSyncWithTimeout` hears of a failure through two promises, and of a result through the
second. It is to return the result if one was received, and else an exception value that says
why. It returns `fuExec.get().second` whatever the first component is, so a connection that is
cleared behind the acknowledgement makes it return `{}`; it goes on to the wait for the result
when the retries have failed; and it does not look at a result that came before the connection
was lost.
-/
namespace JamSched.Remote

open Machine

section Advance

variable {s : State} {a : Nat}

/-- What the next step of `CreateRExecSyncWithTimeout` returns, if it returns. -/
def returnedNext (s : State) (a : Nat) : Option Json :=
  match (s.attempt a).pc with
  | .start => if s.up .syncTimeout = none then some (.exception "heartbeat failed") else none
  | .publish n =>
    if n < 3 ∧ s.up .syncTimeout = none then some (.exception "heartbeat failed") else none
  | .waitAck _ =>
    if (s.attempt a).ack = some false then some (.exception "heartbeat failed") else none
  | .waitRes =>
    match (s.attempt a).res with
    | none => some (.exception "value timeout")
    | some valueResult => some valueResult.2
  | _ => none

theorem advance_returned (hk : (s.attempt a).kind = .syncTimeout)
    (hfits : Pc.fits (s.attempt a).kind (s.attempt a).pc = true)
    (hrun : (s.attempt a).pc.isEnded = false) :
    (((s.advance a).attempt a).pc.isEnded = true ↔ (returnedNext s a).isSome = true) ∧
      ∀ v, returnedNext s a = some v → ((s.advance a).attempt a).returned = some v := by
  cases hpc : (s.attempt a).pc with
  | start =>
    cases hup : s.up .syncTimeout with
    | none =>
      simp [State.advance, State.refuse, State.failWith, State.returnValue, returnedNext, hpc, hk,
        hup, Reason.text, Pc.isEnded]
    | some c => simp [State.advance, returnedNext, hpc, hk, hup, Pc.isEnded]
  | publish n =>
    by_cases hn : n < 3
    · cases hup : s.up .syncTimeout with
      | none =>
        simp [State.advance, State.failWith, State.returnValue, returnedNext, hpc, hk, hup, hn,
          Reason.text, Pc.isEnded]
      | some c => simp [State.advance, returnedNext, hpc, hk, hup, hn, Pc.isEnded]
    · simp [State.advance, State.leaveLoop, returnedNext, hpc, hk, hn, Kind.isSync, Pc.isEnded]
  | waitAck n =>
    have hn : n < 3 := by simpa [hpc, Pc.fits] using hfits
    cases hack : (s.attempt a).ack with
    | none => simp [State.advance, returnedNext, hpc, hack, hn, Pc.isEnded]
    | some ok =>
      cases ok with
      | true =>
        simp [State.advance, State.acked, returnedNext, hpc, hack, hk, Kind.isSync, Pc.isEnded]
      | false =>
        simp [State.advance, State.nacked, State.failWith, State.returnValue, returnedNext, hpc,
          hack, hk, Reason.text, Pc.isEnded]
  | waitRes =>
    cases hres : (s.attempt a).res with
    | none =>
      simp [State.advance, State.getResult, State.failWith, State.returnValue, returnedNext, hpc,
        hres, hk, Reason.text, Pc.isEnded]
    | some v =>
      simp [State.advance, State.getResult, State.returnValue, returnedNext, hpc, hres, hk,
        Pc.isEnded]
  | ended o => simp [hpc, Pc.isEnded] at hrun
  | succeed => simp [hpc, hk, Pc.fits] at hfits
  | count e c => simp [hpc, hk, Pc.fits] at hfits
  | report e c => simp [hpc, hk, Pc.fits] at hfits

theorem advance_crashed_timeout (hk : (s.attempt a).kind = .syncTimeout) :
    (s.advance a).crashed = s.crashed := by
  unfold State.advance
  split
  · split
    · simp [State.refuse, hk, failWith_crashed]
    · exact register_crashed (by simp [hk, Kind.enrols])
  · split
    · split
      · exact failWith_crashed ..
      · rfl
    · unfold State.leaveLoop
      split <;> rfl
  · split
    · split
      · rfl
      · exact failWith_crashed ..
    · unfold State.acked
      split <;> rfl
    · unfold State.nacked
      split <;> exact failWith_crashed ..
  · unfold State.getResult
    split
    · split <;> exact failWith_crashed ..
    · rw [if_pos hk]
      rfl
  · simp [State.announce, hk]
  · rfl
  · simp [State.reportFailure, hk]
  · rfl

end Advance

section Heard

/-- What the promises of such a call hold. -/
structure Heard (s : State) : Prop where
  /-- A result in the promise is one that was received in time, as long as the call waits. -/
  received : ∀ a, (s.attempt a).kind = .syncTimeout → (s.attempt a).pc.isEnded = false →
    (s.attempt a).received = (s.attempt a).res.any (·.1)
  answers : ∀ a j, (s.attempt a).res = some (true, j) → ((s.attempt a).tempEID, j) ∈ s.answers
  failed : ∀ a j, (s.attempt a).res = some (false, j) → j = .obj []

variable {s t : State} {a : Nat} {l : Label}

theorem heard_init (appId : String) (funcs : List String) (eid : Nat) (fresh : Ptr) :
    Heard (init appId funcs eid fresh) := by
  constructor <;> simp [init]

theorem heard_env (hs : Sane s) (ht : Tabled s) (h : Heard s) (he : Env s t) : Heard t := by
  -- a new value came through the table, under the attempt's identifier
  have hnew : ∀ a, (t.attempt a).res ≠ (s.attempt a).res → a < s.nAttempts ∧
      (s.attempt a).pc ≠ .start ∧ ∀ ok j, (t.attempt a).res = some (ok, j) →
        if ok then ((s.attempt a).tempEID, j) ∈ t.answers else j = .obj [] := by
    intro a hne
    obtain ⟨id, hid, hj⟩ := he.res a hne
    obtain ⟨hlt, hreg, heid, -⟩ := ht.res id a hid
    refine ⟨hlt, fun hpc => ?_, heid ▸ hj⟩
    rw [ht.start a hpc] at hreg
    cases hreg
  refine ⟨?_, ?_, ?_⟩
  · intro a hk hrun
    have htouch := he.attempt a
    rw [htouch.kind] at hk
    rw [htouch.pc] at hrun
    have hold := h.received a hk hrun
    rw [htouch.received, hold]
    by_cases hsame : (t.attempt a).res = (s.attempt a).res
    · rw [hsame]
      cases (s.attempt a).res <;> simp
    · obtain ⟨hlt, hstart, -⟩ := hnew a hsame
      have hnone : (s.attempt a).res = none := by
        cases hres : (s.attempt a).res with
        | none => rfl
        | some v => exact absurd (htouch.res (by simp [hres])) hsame
      have hin : (s.attempt a).pc.inWait = true := by
        have hfits := hs.fits a hlt
        rw [hk] at hfits
        cases hpc : (s.attempt a).pc <;> simp_all [Pc.inWait, Pc.isEnded, Pc.fits]
      simp [hnone, hin]
  · intro a j hres
    rw [(he.attempt a).tempEID]
    by_cases hsame : (t.attempt a).res = (s.attempt a).res
    · exact he.answers (h.answers a j (hsame ▸ hres))
    · exact (hnew a hsame).2.2 true j hres
  · intro a j hres
    by_cases hsame : (t.attempt a).res = (s.attempt a).res
    · exact h.failed a j (hsame ▸ hres)
    · exact (hnew a hsame).2.2 false j hres

theorem heard_advance (hs : Sane s) (ht : Tabled s) (h : Heard s) (ha : a < s.nAttempts)
    (hrun : (s.attempt a).pc.isEnded = false) : Heard (s.advance a) := by
  have hown := own_advance s a
  have hres : ∀ b, ((s.advance a).attempt b).res = (s.attempt b).res := by
    intro b
    by_cases hba : b = a
    · rw [hba, hown.res]
    · rw [hown.attempt b hba]
  refine ⟨?_, ?_, ?_⟩
  · intro b hk hend
    by_cases hba : b = a
    · subst hba
      rw [hown.received, hown.res]
      exact h.received b (hown.kind ▸ hk) hrun
    · rw [hown.attempt b hba] at hk hend ⊢
      exact h.received b hk hend
  · intro b j hb
    rw [hres] at hb
    have hreg : (s.attempt b).registered = true := by
      cases hr : (s.attempt b).registered with
      | true => rfl
      | false => simp [(ht.fresh b hr).2.1] at hb
    have hold := h.answers b j hb
    rcases advance_cases (hs.fits a ha) with ⟨c, hpc, -, heq⟩ | ⟨-, hq⟩
    · -- the one that registers has no result yet
      have hba : b ≠ a := by
        rintro rfl
        rw [ht.start b hpc] at hreg
        cases hreg
      rw [hown.attempt b hba, heq, (register_tables s a c).2.2.2.2]
      exact hold
    · rw [hq.answers]
      by_cases hba : b = a
      · subst hba
        rwa [hq.tempEID]
      · rwa [hown.attempt b hba]
  · intro b j hb
    rw [hres] at hb
    exact h.failed b j hb

theorem heard_step (hs : Sane s) (ht : Tabled s) (h : Heard s) (hst : step s l = some t) :
    Heard t := by
  obtain ⟨-, ⟨entry, rfl, rfl⟩ | ⟨a, rfl, ha, hrun, rfl⟩ | ⟨he, -⟩⟩ := step_cases hst
  · refine ⟨?_, ?_, ?_⟩
    all_goals
      intro a
      rcases create_attempt s entry a with ⟨heq, -⟩ | ⟨-, -, kind, -, heq⟩
      · rw [heq]
        first
          | exact h.received a
          | exact h.answers a
          | exact h.failed a
      · simp [heq]
  · exact heard_advance hs ht h ha hrun
  · exact heard_env hs ht h he

end Heard

section Returns

/-- Why a call that has received no result is at its end: the connection is down or was cleared,
there was no acknowledgement, or no result behind it. -/
def cause (s : State) (a : Nat) : Reason :=
  match (s.attempt a).pc with
  | .waitRes =>
    if (s.attempt a).res.isSome then .heartbeatFailure
    else if (s.attempt a).ack = some true then .valueTimeout else .ackTimedOut
  | _ => .heartbeatFailure

/-- The value to return: the result that was received in time, or else an exception value with
the cause. -/
def Right (s : State) (a : Nat) (v : Json) : Prop :=
  if (s.attempt a).received then
    (s.attempt a).res = some (true, v) ∧ ((s.attempt a).tempEID, v) ∈ s.answers
  else v = .exception (cause s a).text

/-- A step of the call does not crash and brings it closer to its end, and the value returned at
the end is the right one. -/
def Returns (a : Nat) (s : State) (l : Label) : Prop :=
  l = .attempt a → a < s.nAttempts → (s.attempt a).kind = .syncTimeout →
    (s.attempt a).pc.isEnded = false →
    (s.advance a).crashed = s.crashed ∧
      ((s.advance a).attempt a).pc.left < (s.attempt a).pc.left ∧
      (((s.advance a).attempt a).pc.isEnded = true →
        ∃ v, ((s.advance a).attempt a).returned = some v ∧ Right s a v)

/-- No result was received, unless it is the exception value itself. -/
def Attempt.Unheard (t : Attempt) : Prop :=
  ∀ args, t.res = some (true, args) → args = .exception "heartbeat failed"

/-- The step finds the connection lost only if no result was received before, and ends the wait for
the result with a received one, or with none behind an acknowledgement. -/
def Reportable (a : Nat) (s : State) (l : Label) : Prop :=
  l = .attempt a → a < s.nAttempts → (s.attempt a).kind = .syncTimeout →
    match (s.attempt a).pc with
    | .publish n => n < 3 → s.up .syncTimeout = none → (s.attempt a).Unheard
    | .waitAck _ => (s.attempt a).ack = some false → (s.attempt a).Unheard
    | .waitRes => (s.attempt a).res.any (·.1) = true ∨
      (s.attempt a).res = none ∧ (s.attempt a).ack = some true
    | _ => True

variable {s t : State} {a : Nat} {l : Label}

/-- Giving up with a lost connection is right exactly if no result was received. -/
theorem right_lost_iff (h : Heard s) (hk : (s.attempt a).kind = .syncTimeout)
    (hrun : (s.attempt a).pc.isEnded = false) (hc : cause s a = .heartbeatFailure) :
    Right s a (.exception "heartbeat failed") ↔ (s.attempt a).Unheard := by
  have hrec := h.received a hk hrun
  have hans := h.answers a
  unfold Right Attempt.Unheard
  rw [hc]
  cases hres : (s.attempt a).res with
  | none => simp [hrec, hres, Reason.text]
  | some v =>
    obtain ⟨ok, j⟩ := v
    cases ok with
    | false => simp [hrec, hres, Reason.text]
    | true =>
      simp only [hrec, hres, Option.any_some, if_true, Option.some.injEq, Prod.mk.injEq, true_and,
        forall_eq']
      constructor
      · exact fun h => h.1
      · exact fun h => ⟨h, h ▸ hans j hres⟩

/-- The value at the end of the wait for the result. -/
theorem right_result_iff (h : Heard s) (hk : (s.attempt a).kind = .syncTimeout)
    (hpc : (s.attempt a).pc = .waitRes) :
    (∀ v, returnedNext s a = some v → Right s a v) ↔
      (s.attempt a).res.any (·.1) = true ∨
        (s.attempt a).res = none ∧ (s.attempt a).ack = some true := by
  have hrec := h.received a hk (by simp [hpc, Pc.isEnded])
  unfold Right cause returnedNext
  simp only [hpc]
  cases hres : (s.attempt a).res with
  | none =>
    by_cases hack : (s.attempt a).ack = some true
    · simp [hrec, hres, hack, Reason.text]
    · simp [hrec, hres, hack, Reason.text, Json.exception]
  | some v =>
    obtain ⟨ok, j⟩ := v
    cases ok with
    | false =>
      obtain rfl := h.failed a j hres
      simp [hrec, hres, Json.exception]
    | true => simp [hrec, hres, h.answers a j hres]

theorem returns_iff (hs : Sane s) (ht : Tabled s) (h : Heard s) :
    Returns a s l ↔ Reportable a s l := by
  refine forall_congr' fun hl => forall_congr' fun ha => forall_congr' fun hk => ?_
  by_cases hrun : (s.attempt a).pc.isEnded = true
  · cases hpc : (s.attempt a).pc <;> simp [hpc, Pc.isEnded] at hrun ⊢
  · have hrun : (s.attempt a).pc.isEnded = false := by simpa using hrun
    have hfits := hs.fits a ha
    obtain ⟨hend, hval⟩ := advance_returned hk hfits hrun
    have hleft : ((s.advance a).attempt a).pc.left < (s.attempt a).pc.left := by
      rw [advance_pc]
      refine nextPc_left hfits hrun fun host e c hhost => ?_
      rw [hk] at hhost
      cases hhost
    have hright : (((s.advance a).attempt a).pc.isEnded = true →
        ∃ v, ((s.advance a).attempt a).returned = some v ∧ Right s a v) ↔
        ∀ v, returnedNext s a = some v → Right s a v := by
      rw [hend, Option.isSome_iff_exists]
      constructor
      · intro hall v hv
        obtain ⟨w, hw, hr⟩ := hall ⟨v, hv⟩
        rw [hval v hv] at hw
        exact Option.some.inj hw ▸ hr
      · rintro hall ⟨v, hv⟩
        exact ⟨v, hval v hv, hall v hv⟩
    simp only [hrun, forall_const, advance_crashed_timeout hk, hleft, true_and, hright]
    cases hpc : (s.attempt a).pc with
    | start =>
      -- nothing is registered yet
      have hres := (ht.fresh a (ht.start a hpc)).2.1
      have hright := right_lost_iff h hk hrun (by simp [cause, hpc])
      simp only [iff_true]
      intro v hv
      rw [returnedNext, hpc] at hv
      obtain ⟨-, rfl⟩ : s.up .syncTimeout = none ∧ Json.exception "heartbeat failed" = v := by
        simpa using hv
      exact hright.mpr (by simp [Attempt.Unheard, hres])
    | publish n =>
      rw [← right_lost_iff h hk hrun (by simp [cause, hpc])]
      simp [returnedNext, hpc]
    | waitAck n =>
      rw [← right_lost_iff h hk hrun (by simp [cause, hpc])]
      simp [returnedNext, hpc]
    | waitRes => exact right_result_iff h hk hpc
    | ended o => simp [hpc, Pc.isEnded] at hrun
    | succeed => simp [hpc, hk, Pc.fits] at hfits
    | count e c => simp [hpc, hk, Pc.fits] at hfits
    | report e c => simp [hpc, hk, Pc.fits] at hfits

/-- In every run a call through the main connection comes to its end, and returns the result it
received or the exception value with the cause, exactly as long as the steps at which it finds the
connection lost come before a result, and its wait for the result ends with one or with none
behind an acknowledgement. -/
theorem sync_timeout_returns_iff (appId : String) (funcs : List String) (eid : Nat) (fresh : Ptr)
    (ls : List Label) (a : Nat) :
    Along step (Returns a) (init appId funcs eid fresh) ls ↔
      Along step (Reportable a) (init appId funcs eid fresh) ls := by
  refine along_congr_of_invariant (I := fun s => Sane s ∧ Tabled s ∧ Heard s) ?_ ?_ ?_
  · rintro s l ⟨hs, ht, h⟩
    exact returns_iff hs ht h
  · rintro s l t ⟨hs, ht, h⟩ - hst
    exact ⟨sane_step hs hst, tabled_step hs ht hst, heard_step hs ht h hst⟩
  · exact ⟨sane_init .., tabled_init .., heard_init ..⟩

/-- The connection is cleared behind the acknowledgement: the call returns `{}`. -/
theorem sync_timeout_returns_empty :
    ¬ Along step (Returns 0) (init "app" [] 7 0)
      (acknowledgedSync ++ [.checkExpire 1, .checkExpire 1] ++ [.attempt 0]) := by
  obtain ⟨s, hr, hlt, hk, hpc, hrec, hend, hval⟩ : ∃ s, run step (init "app" [] 7 0)
      (acknowledgedSync ++ [.checkExpire 1, .checkExpire 1]) = some s ∧ 0 < s.nAttempts ∧
      (s.attempt 0).kind = .syncTimeout ∧ (s.attempt 0).pc.isEnded = false ∧
      (s.attempt 0).received = false ∧ ((s.advance 0).attempt 0).pc.isEnded = true ∧
      ((s.advance 0).attempt 0).returned.map Json.isException = some false :=
    run_reaches (by decide)
  intro h
  obtain ⟨-, -, hret⟩ := (h.of_append hr).1 rfl hlt hk hpc
  obtain ⟨v, hv, hright⟩ := hret hend
  rw [Right, hrec, if_neg Bool.false_ne_true] at hright
  simp [hv, hright] at hval

end Returns

end JamSched.Remote
