import JamSched.Remote.Shape
import JamSched.Core.Ballot

/-!
# Callbacks of the asynchronous executions

Which step calls back, and with what in its hands. `CreateRExecAsyncWithCallback` calls the
failure callback under `mCallback` when the main connection is down; every other call comes
with the lock released. An attempt whose three waits for the acknowledgement all time out
leaves the retry loop at its condition and calls nobody, nor does it count as a failure.
-/
namespace JamSched.Remote

open Machine

/-- The callback that the next step of `a` makes, and the lock it holds. -/
def speaks (s : State) (a : Nat) : Option (Option Reason × LockMode) :=
  match (s.attempt a).kind, (s.attempt a).pc with
  | .async, .start =>
    if s.up .async = none then some (some .heartbeatFailure, .exclusive) else none
  | .async, .succeed => some (none, .unlocked)
  | .asyncNT _, .succeed =>
    if (s.call (s.attempt a).call).successCallOnceFlag then none else some (none, .unlocked)
  | .async, .report e _ | .asyncNT _, .report e _ => some (some e, .unlocked)
  | _, _ => none

def State.callbacksOf (s : State) (k : Nat) : List Callback := s.callbacks.filter (·.call = k)

section Speaks

variable (s : State) (a : Nat)

theorem failWith_callbacks (e : Reason) (k : Cont) :
    (s.failWith a e k).callbacks = s.callbacks := by
  unfold State.failWith
  split <;> rfl

theorem enrol_callbacks (k : Kind) (c : Ptr) (id : Nat) :
    (s.enrol k c id).callbacks = s.callbacks := by
  unfold State.enrol
  split <;> try rfl
  split <;> rfl

/-- `speaks` is right about every step. -/
theorem advance_callbacks : (s.advance a).callbacks =
    ((speaks s a).toList.map fun v => ⟨(s.attempt a).call, v.1, v.2⟩) ++ s.callbacks := by
  unfold State.advance
  split
  · next hpc =>
    split
    · next hup =>
      unfold State.refuse
      cases hk : (s.attempt a).kind <;>
        simp [speaks, hk, hpc, failWith_callbacks, State.setPc, State.updAttempt, State.invoke]
      simp [hk] at hup
      simp [hup]
    · next c hup =>
      rw [State.register, enrol_callbacks]
      cases hk : (s.attempt a).kind <;>
        simp [speaks, hk, hpc, State.allocate, State.updAttempt, State.updConn]
      simp [hk] at hup
      simp [hup]
  · next n hpc =>
    have hq : speaks s a = none := by cases hk : (s.attempt a).kind <;> simp [speaks, hk, hpc]
    rw [hq]
    split
    · split
      · exact failWith_callbacks s a _ _
      · rfl
    · unfold State.leaveLoop
      split <;> rfl
  · next n hpc =>
    have hq : speaks s a = none := by cases hk : (s.attempt a).kind <;> simp [speaks, hk, hpc]
    rw [hq]
    split
    · split
      · rfl
      · exact failWith_callbacks _ a _ _
    · unfold State.acked
      split <;> rfl
    · unfold State.nacked
      split <;> exact failWith_callbacks s a _ _
  · next hpc =>
    have hq : speaks s a = none := by cases hk : (s.attempt a).kind <;> simp [speaks, hk, hpc]
    rw [hq]
    unfold State.getResult
    split
    · split <;> exact failWith_callbacks s a _ _
    · split
      · rfl
      · split
        · rfl
        · exact failWith_callbacks s a _ _
  · next hpc =>
    unfold State.announce
    cases hk : (s.attempt a).kind with
    | async => simp [speaks, hk, hpc, State.setPc, State.updAttempt, State.invoke]
    | asyncNT host =>
      simp only [speaks, hk, hpc]
      split <;> simp [State.setPc, State.updAttempt, State.updCall, State.invoke]
    | syncTask host =>
      simp only [speaks, hk, hpc, State.announceValue]
      split
      · simp [State.setPc, State.updAttempt]
      · split <;> simp [State.setPc, State.updAttempt, State.updCall]
    | syncTimeout => simp [speaks, hk, hpc]
  · next e k hpc =>
    have hq : speaks s a = none := by cases hk : (s.attempt a).kind <;> simp [speaks, hk, hpc]
    rw [hq]
    rfl
  · next e k hpc =>
    unfold State.reportFailure
    cases hk : (s.attempt a).kind with
    | async => simp [speaks, hk, hpc, State.setPc, State.updAttempt, State.invoke]
    | asyncNT host => simp [speaks, hk, hpc, State.setPc, State.updAttempt, State.invoke]
    | syncTask host =>
      simp only [speaks, hk, hpc, State.reportValue]
      split
      · simp [State.setPc, State.updAttempt, State.updCall]
      · split <;> simp [State.setPc, State.updAttempt, State.updCall]
    | syncTimeout => simp [speaks, hk, hpc]
  · next o hpc =>
    have hq : speaks s a = none := by cases hk : (s.attempt a).kind <;> simp [speaks, hk, hpc]
    rw [hq]
    rfl

end Speaks

section Locks

/-- `CreateRExecAsyncWithCallback` finds the main connection absent or not registered. -/
def RefusedAsync (s : State) : Label → Prop
  | .attempt a =>
    (s.attempt a).kind = .async ∧ (s.attempt a).pc = .start ∧ s.up .async = none
  | _ => False

instance (s : State) (l : Label) : Decidable (RefusedAsync s l) :=
  match l with
  | .attempt _ => inferInstanceAs (Decidable (_ ∧ _))
  | .call _ | .arrived .. | .reply _ | .checkExpire _ | .cancelAllRExecRequests | .shutDown =>
    inferInstanceAs (Decidable False)

/-- Callbacks made by a thread that holds `mCallback`. -/
def lockedCallbacks (s : State) : Nat := s.callbacks.countP fun b => b.held ≠ .unlocked

theorem lockedCallbacks_step {s t : State} {l : Label} (hst : step s l = some t) :
    lockedCallbacks s ≤ lockedCallbacks t ∧
      (lockedCallbacks t = lockedCallbacks s ↔ ¬ RefusedAsync s l) := by
  obtain ⟨-, ⟨entry, rfl, rfl⟩ | ⟨a, rfl, ha, -, rfl⟩ | ⟨he, hl, -⟩⟩ := step_cases hst
  · exact ⟨Nat.le_refl _, by simp [RefusedAsync, lockedCallbacks, State.create]⟩
  · unfold lockedCallbacks
    rw [advance_callbacks]
    cases hv : speaks s a with
    | none =>
      refine ⟨Nat.le_refl _, ?_⟩
      simp only [Option.toList_none, List.map_nil, List.nil_append, true_iff]
      rintro ⟨hk, hpc, hup⟩
      simp [speaks, hk, hpc, hup] at hv
    | some v =>
      have hiff : v.2 = .unlocked ↔ ¬ RefusedAsync s (.attempt a) := by
        unfold speaks at hv
        unfold RefusedAsync
        split at hv <;> grind
      simp only [Option.toList_some, List.map_cons, List.map_nil, List.singleton_append,
        List.countP_cons, ← hiff]
      constructor
      · omega
      · split <;> simp_all
  · refine ⟨Nat.le_of_eq (by rw [lockedCallbacks, lockedCallbacks, he.callbacks]), ?_⟩
    have : ¬ RefusedAsync s l := by
      cases l <;> simp_all [RefusedAsync]
    simp [this, lockedCallbacks, he.callbacks]

/-- In a run of the remote layer every callback comes without `mCallback`, exactly when no call
of `CreateRExecAsyncWithCallback` finds the main connection absent or not registered. -/
theorem callbacks_unlocked_iff {appId : String} {funcs : List String} {eid : Nat} {fresh : Ptr}
    {ls : List Label} {s : State} (hr : run step (init appId funcs eid fresh) ls = some s) :
    (∀ b ∈ s.callbacks, b.held = .unlocked) ↔
      Along step (fun s l => ¬ RefusedAsync s l) (init appId funcs eid fresh) ls := by
  have hpot := (run_potential (D := lockedCallbacks) (I := fun _ => True)
    (P := fun s l => ¬ RefusedAsync s l) (fun _ _ _ _ _ => trivial)
    (fun _ _ _ _ h => (lockedCallbacks_step h).1) (fun _ _ _ _ h => (lockedCallbacks_step h).2)
    trivial hr).2
  rw [← hpot]
  simp [lockedCallbacks, init, List.countP_eq_zero]

/-- A registered main connection and an acknowledged call. -/
def acknowledgedRun : List Label :=
  [.arrived 0 "/app/announce/down" registerAckMsg 0 1, .call .async, .attempt 0, .attempt 0,
    .arrived 0 "/app/replies/down" (rexecAckMsg 7) 0 1, .attempt 0, .attempt 0]

theorem callbacks_unlocked_acknowledged :
    ∃ s, run step (init "app" [] 7 0) acknowledgedRun = some s ∧
      s.callbacks = [⟨0, none, .unlocked⟩] ∧
      Along step (fun s l => ¬ RefusedAsync s l) (init "app" [] 7 0) acknowledgedRun :=
  ⟨_, rfl, by decide, (callbacks_unlocked_iff rfl).mp (by decide)⟩

/-- A call before the first REGISTER-ACK calls back under the exclusive lock. -/
theorem refused_call_back_locked :
    ∃ s, run step (init "app" [] 0 0) [.call .async, .attempt 0] = some s ∧
      ∃ b ∈ s.callbacks, b.held ≠ .unlocked :=
  ⟨_, rfl, by decide⟩

end Locks

section Marks

variable {s : State} {a : Nat}

/-- A mark that an attempt never loses and gets only by steps of its own, those that satisfy
`P`, is there at the end of a run exactly if one of these steps was taken. -/
theorem mark_run {I : State → Prop} {m : Attempt → Bool} {P : State → Label → Prop} {s₀ : State}
    (hI : ∀ s l t, I s → step s l = some t → I t) (h₀ : I s₀) (hsane : ∀ s, I s → Sane s)
    (hP : ∀ s l, P s l → l = .attempt a)
    (hstart : ∀ t : Attempt, t.pc = .start → m t = false)
    (htouch : ∀ t u : Attempt, t.Touched u → m u = m t)
    (hown : ∀ s, I s → a < s.nAttempts → (s.attempt a).pc.isEnded = false →
      (P s (.attempt a) → m (s.attempt a) = false ∧ m ((s.advance a).attempt a) = true) ∧
      (¬ P s (.attempt a) → m ((s.advance a).attempt a) = m (s.attempt a)))
    {ls : List Label} (hr : run step s₀ ls = some s) (hm : m (s₀.attempt a) = false) :
    m (s.attempt a) = false ↔ Along step (fun s l => ¬ P s l) s₀ ls := by
  have hstep : ∀ s l t, I s → step s l = some t →
      (P s l → m (s.attempt a) = false ∧ m (t.attempt a) = true) ∧
      (¬ P s l → m (t.attempt a) = m (s.attempt a)) := by
    intro s l t h hst
    obtain ⟨-, ⟨entry, rfl, rfl⟩ | ⟨b, rfl, hb, hend, rfl⟩ | ⟨he, hl, -⟩⟩ := step_cases hst
    · refine ⟨fun hp => by simpa using hP _ _ hp, fun _ => ?_⟩
      rcases create_attempt s entry a with ⟨heq, -⟩ | ⟨hge, -, kind, -, heq⟩
      · rw [heq]
      · rw [heq, hstart _ rfl, hstart _ ((hsane s h).later a hge)]
    · by_cases hab : b = a
      · subst hab
        exact hown s h hb hend
      · refine ⟨fun hp => absurd (by simpa using hP _ _ hp) hab, fun _ => ?_⟩
        rw [(own_advance s b).attempt a (Ne.symm hab)]
    · refine ⟨fun hp => absurd (hP _ _ hp) (hl a), fun _ => htouch _ _ (he.attempt a)⟩
  have hpot := (run_potential (D := fun s => (m (s.attempt a)).toNat) (I := I)
    (P := fun s l => ¬ P s l) hI ?_ ?_ h₀ hr).2
  · rw [← hpot, hm]
    cases m (s.attempt a) <;> simp
  · intro s l t h hst
    by_cases hp : P s l
    · rw [((hstep s l t h hst).1 hp).1]
      exact Nat.zero_le _
    · exact Nat.le_of_eq (by rw [(hstep s l t h hst).2 hp])
  · intro s l t h hst
    by_cases hp : P s l
    · obtain ⟨h₁, h₂⟩ := (hstep s l t h hst).1 hp
      simp [h₁, h₂, hp]
    · simp [(hstep s l t h hst).2 hp, hp]

end Marks

section Single

/-- The third wait of an asynchronous attempt for its acknowledgement times out. -/
def ThirdTimeout (a : Nat) (s : State) : Label → Prop
  | .attempt b => b = a ∧ (s.attempt a).kind.isSync = false ∧ (s.attempt a).pc = .waitAck 2 ∧
      (s.attempt a).ack = none
  | _ => False

instance (a : Nat) (s : State) (l : Label) : Decidable (ThirdTimeout a s l) :=
  match l with
  | .attempt _ => inferInstanceAs (Decidable (_ ∧ _))
  | .call _ | .arrived .. | .reply _ | .checkExpire _ | .cancelAllRExecRequests | .shutDown =>
    inferInstanceAs (Decidable False)

/-- Behind its third timeout. -/
def Attempt.lost (t : Attempt) : Bool :=
  !t.kind.isSync && (t.pc = .publish 3 || t.pc = .ended .unanswered)

variable {s t : State} {a : Nat} {l : Label}

/-- Where the wait of an asynchronous attempt for its acknowledgement leads. -/
theorem nextPc_waitAck (hs : (s.attempt a).kind.isSync = false) {n : Nat} (hn : n < 3)
    (hpc : (s.attempt a).pc = .waitAck n) :
    nextPc s a = match (s.attempt a).ack with
      | none => .publish (n + 1)
      | some true => .succeed
      | some false => (s.attempt a).kind.failing .heartbeatFailure .leave := by
  simp only [nextPc, hpc]
  rcases (s.attempt a).ack with _ | _ | _
  · simp [hn]
  · cases hk : (s.attempt a).kind with
    | syncTask host => simp [hk, Kind.isSync] at hs
    | _ => rfl
  · simp [hs]

theorem nextPc_succeed (hs : (s.attempt a).kind.isSync = false)
    (hpc : (s.attempt a).pc = .succeed) : nextPc s a = .ended .succeeded := by
  cases hk : (s.attempt a).kind with
  | syncTask host | syncTimeout => simp [hk, Kind.isSync] at hs
  | _ => simp [nextPc, hpc, hk]

theorem nextPc_report (hs : (s.attempt a).kind.isSync = false) {e : Reason} {k : Cont}
    (hpc : (s.attempt a).pc = .report e k) : nextPc s a = State.afterFailure e k := by
  cases hk : (s.attempt a).kind with
  | syncTask host | syncTimeout => simp [hk, Kind.isSync] at hs
  | _ => simp [nextPc, hpc, hk]

/-- A step is lost from then on only behind the third timeout. -/
theorem nextPc_lost_iff (hs : (s.attempt a).kind.isSync = false)
    (hfits : Pc.fits (s.attempt a).kind (s.attempt a).pc = true)
    (hend : (s.attempt a).pc.isEnded = false) :
    (nextPc s a = .publish 3 ∨ nextPc s a = .ended .unanswered) ↔
      (s.attempt a).pc = .publish 3 ∨ (s.attempt a).pc = .waitAck 2 ∧ (s.attempt a).ack = none := by
  have hfail : ∀ (kind : Kind) (e : Reason) (k : Cont),
      kind.failing e k ≠ .publish 3 ∧ kind.failing e k ≠ .ended .unanswered := by
    intro kind e k
    cases kind <;> simp [Kind.failing]
  have hafter : ∀ (e : Reason) (k : Cont), State.afterFailure e k ≠ .publish 3 ∧
      State.afterFailure e k ≠ .ended .unanswered := by
    intro e k
    cases k <;> simp [State.afterFailure]
  cases hpc : (s.attempt a).pc with
  | start =>
    simp only [nextPc, hpc]
    split
    · simp
    · split <;> simp [hfail]
  | publish n =>
    have hn : n ≤ 3 := by simpa [hpc, Pc.fits] using hfits
    simp only [nextPc, hpc]
    split
    · split
      · simp
        omega
      · simp [hfail]
        omega
    · simp [hs]
      omega
  | waitAck n =>
    have hn : n < 3 := by simpa [hpc, Pc.fits] using hfits
    rw [nextPc_waitAck hs hn hpc]
    split <;> simp_all
  | waitRes => simp [hpc, Pc.fits, hs] at hfits
  | succeed => simp [nextPc_succeed hs hpc]
  | count e k =>
    simp only [nextPc, hpc]
    split <;> simp [hafter]
  | report e k => simp [nextPc_report hs hpc, hafter]
  | ended o => simp [hpc, Pc.isEnded] at hend

/-- In a run, an asynchronous attempt is lost exactly if its third wait timed out. -/
theorem lost_run {appId : String} {funcs : List String} {eid : Nat} {fresh : Ptr}
    {ls : List Label} (hr : run step (init appId funcs eid fresh) ls = some s) (a : Nat) :
    (s.attempt a).lost = false ↔
      Along step (fun s l => ¬ ThirdTimeout a s l) (init appId funcs eid fresh) ls := by
  refine mark_run (fun _ _ _ => sane_step) (sane_init appId funcs eid fresh) (fun _ => id)
    (fun s l hP => ?_) ?_ ?_ ?_ hr (by simp [init, Attempt.lost])
  · cases l <;> simp_all [ThirdTimeout]
  · intro t ht
    simp [Attempt.lost, ht]
  · intro t u htouch
    simp [Attempt.lost, htouch.kind, htouch.pc]
  · intro s h ha hend
    unfold Attempt.lost ThirdTimeout
    rw [(own_advance s a).kind, advance_pc s a]
    cases hs : (s.attempt a).kind.isSync with
    | true => simp
    | false =>
      have hiff := nextPc_lost_iff hs (h.fits a ha) hend
      have hnot : (s.attempt a).pc ≠ .ended .unanswered := by
        rintro heq
        simp [heq, Pc.isEnded] at hend
      simp only [Bool.not_false, Bool.true_and, true_and, ← Bool.decide_or]
      by_cases hold : (s.attempt a).pc = .publish 3 <;>
        by_cases hnew : (s.attempt a).pc = .waitAck 2 ∧ (s.attempt a).ack = none <;>
        simp_all

/-- Callbacks that a single attempt has made. -/
def Pc.voice : Pc → Nat
  | .ended .succeeded | .ended (.failed _) => 1
  | _ => 0

/-- A step of a single attempt calls back exactly when it ends with something to say. -/
theorem nextPc_voice (hk : (s.attempt a).kind = .async)
    (hfits : Pc.fits (s.attempt a).kind (s.attempt a).pc = true)
    (hend : (s.attempt a).pc.isEnded = false) :
    (nextPc s a).voice = (speaks s a).toList.length ∧ (s.attempt a).pc.voice = 0 := by
  cases hpc : (s.attempt a).pc with
  | start =>
    simp only [nextPc, speaks, hpc, hk, ne_eq, ite_not]
    split <;> simp [Pc.voice]
  | publish n =>
    simp only [nextPc, speaks, hpc, hk, Kind.isSync]
    split
    · split <;> simp [Pc.voice, Kind.failing]
    · simp [Pc.voice]
  | waitAck n =>
    have hn : n < 3 := by simpa [hpc, Pc.fits] using hfits
    simp only [nextPc, speaks, hpc, hk]
    split <;> simp [Pc.voice, Kind.failing, Kind.isSync, hn]
  | waitRes => simp [hpc, hk, Pc.fits, Kind.isSync] at hfits
  | succeed => simp [nextPc, speaks, hpc, hk, Pc.voice]
  | count e k => simp [hpc, hk, Pc.fits] at hfits
  | report e k =>
    obtain ⟨rfl, rfl⟩ : e = .heartbeatFailure ∧ k = .leave := by
      simpa [hpc, hk, Pc.fits] using hfits
    simp [nextPc, speaks, hpc, hk, Pc.voice, State.afterFailure]
  | ended o => simp [hpc, Pc.isEnded] at hend

/-- Each attempt of `CreateRExecAsyncWithCallback` has made the callbacks its program counter
says. -/
def Voiced (s : State) : Prop :=
  ∀ a < s.nAttempts, (s.attempt a).kind = .async →
    (s.callbacksOf (s.attempt a).call).length = (s.attempt a).pc.voice

/-- A call of `CreateRExecAsyncWithCallback` makes a single attempt. -/
theorem Sane.async_unique (h : Sane s) {b : Nat} (ha : a < s.nAttempts) (hb : b < s.nAttempts)
    (hk : (s.attempt a).kind = .async) (hc : (s.attempt b).call = (s.attempt a).call) :
    b = a := by
  obtain ⟨hlt, hmem⟩ := h.caller a ha
  have hmemb := (h.caller b hb).2
  rw [hc] at hmemb
  have hentry : (s.call (s.attempt a).call).entry = .async := by
    have := h.makes a ha
    rw [hk] at this
    cases he : (s.call (s.attempt a).call).entry <;> simp [he, Entry.makes] at this
    rfl
  have hsize := h.size _ hlt
  rw [h.single _ hlt hentry] at hsize
  obtain ⟨c, hc'⟩ := List.length_eq_one_iff.mp hsize
  rw [hc', List.mem_singleton] at hmem hmemb
  rw [hmem, hmemb]

theorem voiced_advance (h : Sane s) (hv : Voiced s) {b : Nat} (hb : b < s.nAttempts)
    (hend : (s.attempt b).pc.isEnded = false) : Voiced (s.advance b) := by
  intro a ha hk
  have hown := own_advance s b
  rw [hown.nAttempts] at ha
  by_cases hab : a = b
  · subst hab
    rw [hown.kind] at hk
    obtain ⟨hnext, hzero⟩ := nextPc_voice hk (h.fits a ha) hend
    have hold := hv a ha hk
    rw [hzero] at hold
    rw [hown.caller, advance_pc, hnext, State.callbacksOf, advance_callbacks, List.filter_append,
      List.length_append]
    simp only [State.callbacksOf] at hold
    rw [hold]
    cases speaks s a <;> simp
  · rw [hown.attempt a hab] at hk ⊢
    rw [← hv a ha hk, State.callbacksOf, State.callbacksOf, advance_callbacks,
      List.filter_append]
    have hother : (s.attempt b).call ≠ (s.attempt a).call := by
      intro hc
      exact hab (h.async_unique ha hb hk hc).symm
    cases speaks s b <;> simp [hother]

theorem voiced_step (h : Sane s) (hv : Voiced s) (hst : step s l = some t) : Voiced t := by
  obtain ⟨-, ⟨entry, -, rfl⟩ | ⟨b, -, hb, hend, rfl⟩ | ⟨he, -⟩⟩ := step_cases hst
  · intro a ha hk
    rcases create_attempt s entry a with ⟨heq, hn⟩ | ⟨-, -, kind, -, heq⟩
    · rw [heq] at hk ⊢
      exact hv a (by simp only [State.create] at ha; omega) hk
    · -- the call is new, so nobody has called back for it
      rw [heq]
      simp only [Pc.voice, List.length_eq_zero_iff, State.callbacksOf, List.filter_eq_nil_iff,
        decide_eq_true_eq]
      intro b hb
      have := h.callbacks b hb
      omega
  · exact voiced_advance h hv hb hend
  · intro a ha hk
    have hold := hv a (he.nAttempts ▸ ha) ((he.attempt a).kind ▸ hk)
    rw [(he.attempt a).call, (he.attempt a).pc, State.callbacksOf, he.callbacks]
    exact hold

/-- What `CreateRExecAsyncWithCallback` promises of an attempt that has ended: one callback,
and that with `AckTimedOut` if its three publications went unacknowledged. -/
def CalledBackOnce (s : State) (a : Nat) : Prop :=
  ∃ b, s.callbacksOf (s.attempt a).call = [b] ∧
    ((s.attempt a).pc = .ended .unanswered → b.error = some .ackTimedOut)

/-- In every run an attempt of `CreateRExecAsyncWithCallback` that has ended has called back
exactly once, exactly when its third wait for the acknowledgement did not time out. -/
theorem async_called_back_iff {appId : String} {funcs : List String} {eid : Nat} {fresh : Ptr}
    {ls : List Label} (hr : run step (init appId funcs eid fresh) ls = some s)
    (ha : a < s.nAttempts) (hk : (s.attempt a).kind = .async)
    (hend : (s.attempt a).pc.isEnded = true) :
    CalledBackOnce s a ↔
      Along step (fun s l => ¬ ThirdTimeout a s l) (init appId funcs eid fresh) ls := by
  rw [← lost_run hr a]
  obtain ⟨hsane, hvoiced⟩ : Sane s ∧ Voiced s :=
    run_invariant (I := fun s => Sane s ∧ Voiced s)
      (fun s l t h hst => ⟨sane_step h.1 hst, voiced_step h.1 h.2 hst⟩)
      ⟨sane_init appId funcs eid fresh, by simp [Voiced, init]⟩ hr
  have hlen := hvoiced a ha hk
  have hfits := hsane.fits a ha
  cases hpc : (s.attempt a).pc with
  | ended o =>
    rw [hpc] at hlen
    constructor
    · rintro ⟨b, hb, -⟩
      rw [hb] at hlen
      cases o <;> simp [Pc.voice] at hlen <;> simp [Attempt.lost, hpc]
    · intro hlost
      cases o with
      | unanswered => simp [Attempt.lost, hpc, hk, Kind.isSync] at hlost
      | returned => simp [hpc, hk, Pc.fits] at hfits
      | succeeded =>
        obtain ⟨b, hb⟩ := List.length_eq_one_iff.mp hlen
        exact ⟨b, hb, by simp [hpc]⟩
      | failed e =>
        obtain ⟨b, hb⟩ := List.length_eq_one_iff.mp hlen
        exact ⟨b, hb, by simp [hpc]⟩
  | _ => simp [hpc, Pc.isEnded] at hend

theorem async_called_back_acknowledged :
    ∃ s, run step (init "app" [] 7 0) acknowledgedRun = some s ∧
      (s.attempt 0).pc = .ended .succeeded ∧ CalledBackOnce s 0 := by
  have hr : run step (init "app" [] 7 0) acknowledgedRun = some _ := rfl
  refine ⟨_, hr, by decide, ?_⟩
  exact (async_called_back_iff hr (by decide) (by decide) (by decide)).mpr (by decide)

/-- Three publications without an acknowledgement end without a callback. -/
theorem unanswered_call_silent :
    ∃ s, run step (init "app" [] 7 0)
        [.arrived 0 "/app/announce/down" registerAckMsg 0 1, .call .async, .attempt 0, .attempt 0,
          .attempt 0, .attempt 0, .attempt 0, .attempt 0, .attempt 0, .attempt 0] = some s ∧
      (s.attempt 0).kind = .async ∧ (s.attempt 0).pc.isEnded = true ∧ s.callbacks = [] ∧
      ¬ CalledBackOnce s 0 := by
  refine ⟨_, rfl, by decide, by decide, by decide, ?_⟩
  rintro ⟨b, hb, -⟩
  have hlen := congrArg List.length hb
  rw [List.length_singleton] at hlen
  revert hlen
  decide

end Single

end JamSched.Remote
