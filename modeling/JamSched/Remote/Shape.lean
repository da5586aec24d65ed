import JamSched.Remote.Frame

/-!
# Attempts and calls along a run

What holds of every attempt and every call in every run: which program counters an attempt of
each kind can have, and that the attempts of a call are its members and nobody else's. The
bound on `retryNum` in `fits` is what makes the second test of the retry loop superfluous.
-/
namespace JamSched.Remote

open Machine

/-- What a step of an attempt leaves alone in its own record: its promises are completed by
others. -/
def Attempt.Moved (t t' : Attempt) : Prop :=
  t' = { t with
    pc := t'.pc, tempEID := t'.tempEID, returned := t'.returned, registered := t'.registered,
    serial := t'.serial, counts := t'.counts }

/-- What a step of attempt `a` leaves alone. -/
structure Own (s t : State) (a : Nat) : Prop where
  attempt : ∀ b ≠ a, t.attempt b = s.attempt b
  self : (s.attempt a).Moved (t.attempt a)
  call : ∀ k ≠ (s.attempt a).call, t.call k = s.call k
  entry : ∀ k, (t.call k).entry = (s.call k).entry
  members : ∀ k, (t.call k).members = (s.call k).members
  countCommon : ∀ k, (t.call k).countCommon = (s.call k).countCommon
  callbacks : t.callbacks = s.callbacks ∨
    ∃ e held, t.callbacks = ⟨(s.attempt a).call, e, held⟩ :: s.callbacks
  nAttempts : t.nAttempts = s.nAttempts
  nCalls : t.nCalls = s.nCalls
  mainFogInfo : t.mainFogInfo = s.mainFogInfo
  cloudFogInfo : t.cloudFogInfo = s.cloudFogInfo
  isValidConnection : t.isValidConnection = s.isValidConnection

namespace Own

variable {s t u : State} {a : Nat}

theorem kind (h : Own s t a) : (t.attempt a).kind = (s.attempt a).kind := by rw [h.self]

theorem caller (h : Own s t a) : (t.attempt a).call = (s.attempt a).call := by rw [h.self]

theorem ack (h : Own s t a) : (t.attempt a).ack = (s.attempt a).ack := by rw [h.self]

theorem res (h : Own s t a) : (t.attempt a).res = (s.attempt a).res := by rw [h.self]

theorem acknowledged (h : Own s t a) :
    (t.attempt a).acknowledged = (s.attempt a).acknowledged := by rw [h.self]

theorem received (h : Own s t a) : (t.attempt a).received = (s.attempt a).received := by
  rw [h.self]

theorem refl (s : State) (a : Nat) : Own s s a :=
  ⟨fun _ _ => rfl, rfl, fun _ _ => rfl, fun _ => rfl, fun _ => rfl, fun _ => rfl, .inl rfl,
    rfl, rfl, rfl, rfl, rfl⟩

/-- The fields that `Own` speaks of are the same. -/
theorem congr (h : Own s t a) (ha : u.attempt = t.attempt) (hc : u.call = t.call)
    (hb : u.callbacks = t.callbacks) (hn : u.nAttempts = t.nAttempts) (hm : u.nCalls = t.nCalls)
    (hf : u.mainFogInfo = t.mainFogInfo) (hg : u.cloudFogInfo = t.cloudFogInfo)
    (hv : u.isValidConnection = t.isValidConnection) : Own s u a where
  attempt := by rw [ha]; exact h.attempt
  self := by rw [ha]; exact h.self
  call := by rw [hc]; exact h.call
  entry := by rw [hc]; exact h.entry
  members := by rw [hc]; exact h.members
  countCommon := by rw [hc]; exact h.countCommon
  callbacks := by rw [hb]; exact h.callbacks
  nAttempts := hn.trans h.nAttempts
  nCalls := hm.trans h.nCalls
  mainFogInfo := hf.trans h.mainFogInfo
  cloudFogInfo := hg.trans h.cloudFogInfo
  isValidConnection := hv.trans h.isValidConnection

theorem updAttempt (h : Own s t a) {f : Attempt → Attempt}
    (hf : (t.attempt a).Moved (f (t.attempt a))) : Own s (t.updAttempt a f) a :=
  { h with
    attempt := fun b hb => by
      simpa [State.updAttempt, Function.update_of_ne hb] using h.attempt b hb
    self := by
      rw [State.updAttempt_self, Attempt.Moved, hf, h.self] }

theorem setPc (h : Own s t a) (pc : Pc) : Own s (t.setPc a pc) a := h.updAttempt rfl

theorem updConn (h : Own s t a) (c : Ptr) (f : CloudFogInfo → CloudFogInfo) :
    Own s (t.updConn c f) a := h.congr rfl rfl rfl rfl rfl rfl rfl rfl

theorem updCall {f : Call → Call} (he : ∀ r, (f r).entry = r.entry)
    (hm : ∀ r, (f r).members = r.members) (hc : ∀ r, (f r).countCommon = r.countCommon) :
    Own s (s.updCall (s.attempt a).call f) a := by
  have hcall : ∀ k, (s.updCall (s.attempt a).call f).call k =
      if k = (s.attempt a).call then f (s.call k) else s.call k := by
    intro k
    by_cases hk : k = (s.attempt a).call
    · simp [State.updCall, hk]
    · simp [State.updCall, hk]
  refine { refl s a with call := ?_, entry := ?_, members := ?_, countCommon := ?_ }
  · intro k hk
    rw [hcall, if_neg hk]
  all_goals
    intro k
    rw [hcall]
    split
    · first | exact he _ | exact hm _ | exact hc _
    · rfl

/-- A callback of the attempt's own call. -/
theorem invoke (h : Own s t a) (hb : t.callbacks = s.callbacks) (e : Option Reason)
    (held : LockMode) : Own s (t.invoke (s.attempt a).call e held) a :=
  { h with callbacks := .inr ⟨e, held, by rw [← hb]; rfl⟩ }

theorem failWith (h : Own s t a) (e : Reason) (k : Cont) : Own s (t.failWith a e k) a := by
  unfold State.failWith
  split
  · exact h.setPc _
  · exact h.setPc _
  · exact h.setPc _
  · exact h.updAttempt rfl

end Own

section Advance

variable (s : State) (a : Nat)

theorem own_refuse : Own s (s.refuse a) a := by
  unfold State.refuse
  split
  · exact ((Own.refl s a).invoke rfl _ _).setPc _
  · exact (Own.refl s a).failWith _ _

theorem own_allocate (c : Ptr) : Own s (s.allocate a c) a := by
  unfold State.allocate
  apply Own.updConn
  refine Own.updAttempt ?_ rfl
  exact (Own.refl s a).congr rfl rfl rfl rfl rfl rfl rfl rfl

theorem own_register (c : Ptr) : Own s (s.register a c) a := by
  have h := own_allocate s a c
  unfold State.register State.enrol
  split
  · exact h
  · exact h
  · exact h.updConn _ _
  · exact h.updConn _ _
  · exact h.updConn _ _
  · split
    · exact h.updConn _ _
    · exact h.congr rfl rfl rfl rfl rfl rfl rfl rfl

theorem own_send (c : Ptr) (n : Nat) : Own s (s.send a c n) a :=
  (((Own.refl s a).congr (u := s.publish c (.rexec (s.attempt a).tempEID)) rfl rfl rfl rfl rfl rfl
    rfl rfl).updConn c fun i => { i with sent := a :: i.sent }).setPc _

theorem own_getResult : Own s (s.getResult a) a := by
  unfold State.getResult
  split
  · split <;> exact (Own.refl s a).failWith _ _
  · split
    · exact (Own.refl s a).updAttempt rfl
    · split
      · exact (Own.refl s a).setPc _
      · exact (Own.refl s a).failWith _ _

theorem own_announce : Own s (s.announce a) a := by
  unfold State.announce
  split
  · exact ((Own.refl s a).invoke rfl _ _).setPc _
  · split
    · exact (Own.refl s a).setPc _
    · apply Own.setPc
      refine Own.invoke (s := s) ?_ ?_ _ _
      · apply Own.updCall <;> exact fun _ => rfl
      · rfl
  · unfold State.announceValue
    split
    · exact (Own.refl s a).setPc _
    · split <;> apply Own.setPc <;> apply Own.updCall <;> exact fun _ => rfl
  · exact Own.refl s a

theorem own_countFailure (e : Reason) (k : Cont) : Own s (s.countFailure a e k) a := by
  refine Own.updAttempt ?_ rfl
  apply Own.updCall <;> exact fun _ => rfl

theorem own_reportFailure (e : Reason) (k : Cont) : Own s (s.reportFailure a e k) a := by
  unfold State.reportFailure
  split
  · exact ((Own.refl s a).invoke rfl _ _).setPc _
  · exact ((Own.refl s a).invoke rfl _ _).setPc _
  · unfold State.reportValue
    have h : Own s (s.updCall (s.attempt a).call
        fun r => { r with throws := r.throws + 1 }) a :=
      Own.updCall (fun _ => rfl) (fun _ => rfl) fun _ => rfl
    split
    · apply Own.setPc
      apply Own.updCall <;> exact fun _ => rfl
    · split
      · exact h.setPc _
      · exact h.congr rfl rfl rfl rfl rfl rfl rfl rfl
  · exact Own.refl s a

theorem own_advance : Own s (s.advance a) a := by
  unfold State.advance
  split
  · split
    · exact own_refuse s a
    · exact own_register s a _
  · split
    · split
      · exact (Own.refl s a).failWith _ _
      · exact own_send s a _ _
    · unfold State.leaveLoop
      split <;> exact (Own.refl s a).setPc _
  · split
    · split
      · exact (Own.refl s a).setPc _
      · have h : Own s (s.eraseEntries a) a :=
          (Own.refl s a).congr rfl rfl rfl rfl rfl rfl rfl rfl
        exact h.failWith _ _
    · unfold State.acked
      split <;> exact (Own.refl s a).setPc _
    · unfold State.nacked
      split <;> exact (Own.refl s a).failWith _ _
  · exact own_getResult s a
  · exact own_announce s a
  · exact own_countFailure s a _ _
  · exact own_reportFailure s a _ _
  · exact Own.refl s a

end Advance

/-- Where a failing exit goes. -/
def Kind.failing (e : Reason) (k : Cont) : Kind → Pc
  | .async => .report e k
  | .asyncNT _ | .syncTask _ => .count e k
  | .syncTimeout => .ended .returned

/-- Where a step goes. -/
def nextPc (s : State) (a : Nat) : Pc :=
  let t := s.attempt a
  match t.pc with
  | .start =>
    if s.up t.kind ≠ none then .publish 0
    else if t.kind = .async then .ended (.failed .heartbeatFailure)
    else t.kind.failing .heartbeatFailure .leave
  | .publish n =>
    if n < 3 then
      if s.up t.kind ≠ none then .waitAck n else t.kind.failing .heartbeatFailure .leave
    else if t.kind.isSync then .waitRes else .ended .unanswered
  | .waitAck n =>
    match t.ack with
    | none => if n < 3 then .publish (n + 1) else t.kind.failing .ackTimedOut .leave
    | some true => if t.kind.isSync then .waitRes else .succeed
    | some false =>
      match t.kind with
      | .syncTask (some _) => .count .heartbeatFailure .throughAck
      | kind => kind.failing .heartbeatFailure .leave
  | .waitRes =>
    match t.res with
    | none =>
      if t.kind = .syncTimeout then .ended .returned else t.kind.failing .executionTimeout .inTry
    | some valueResult =>
      if t.kind = .syncTimeout then .ended .returned
      else if valueResult.1 then .succeed else t.kind.failing .heartbeatFailure .inTry
  | .succeed =>
    match t.kind with
    | .syncTask _ =>
      if (s.call t.call).successCallOnceFlag ∨ (s.call t.call).prCommon.isNone then
        .ended .succeeded
      else .count .alreadySatisfied .leave
    | .syncTimeout => .succeed
    | _ => .ended .succeeded
  | .count e k =>
    if (s.call t.call).failureCountCommon = (s.call t.call).countCommon then .report e k
    else State.afterFailure e k
  | .report e k =>
    match t.kind with
    | .syncTask _ =>
      if (s.call t.call).prCommon.isNone then State.afterFailure e k
      else if k = .inTry then .count .alreadySatisfied .leave
      else .report e k
    | .syncTimeout => .report e k
    | _ => State.afterFailure e k
  | .ended o => .ended o

theorem failWith_pc (s : State) (a : Nat) (e : Reason) (k : Cont) :
    ((s.failWith a e k).attempt a).pc = (s.attempt a).kind.failing e k := by
  unfold State.failWith
  cases (s.attempt a).kind <;> simp [State.returnValue, Kind.failing]

section NextPc

variable {s : State} {a n : Nat} {e : Reason} {k : Cont}

theorem refuse_pc (hpc : (s.attempt a).pc = .start) (hup : s.up (s.attempt a).kind = none) :
    ((s.refuse a).attempt a).pc = nextPc s a := by
  unfold State.refuse
  cases hk : (s.attempt a).kind <;> simp_all [nextPc, failWith_pc]

theorem nacked_pc (hpc : (s.attempt a).pc = .waitAck n) (hack : (s.attempt a).ack = some false) :
    ((s.nacked a).attempt a).pc = nextPc s a := by
  unfold State.nacked
  cases hk : (s.attempt a).kind with
  | syncTask host => cases host <;> simp [nextPc, hpc, hack, hk, failWith_pc, Kind.failing]
  | _ => simp [nextPc, hpc, hack, hk, failWith_pc]

theorem getResult_pc (hpc : (s.attempt a).pc = .waitRes) :
    ((s.getResult a).attempt a).pc = nextPc s a := by
  unfold State.getResult
  cases hres : (s.attempt a).res with
  | none =>
    by_cases hk : (s.attempt a).kind = .syncTimeout <;>
      simp [nextPc, hpc, hres, hk, failWith_pc, Kind.failing]
  | some valueResult =>
    by_cases hk : (s.attempt a).kind = .syncTimeout
    · simp [nextPc, hpc, hres, hk, State.returnValue]
    · cases hv : valueResult.1 <;> simp [nextPc, hpc, hres, hk, hv, failWith_pc]

theorem announce_pc (hpc : (s.attempt a).pc = .succeed) :
    ((s.announce a).attempt a).pc = nextPc s a := by
  unfold State.announce
  cases hk : (s.attempt a).kind with
  | async => simp [nextPc, hpc, hk]
  | asyncNT host =>
    cases (s.call (s.attempt a).call).successCallOnceFlag <;> simp [nextPc, hpc, hk]
  | syncTask host =>
    unfold State.announceValue
    cases hflag : (s.call (s.attempt a).call).successCallOnceFlag with
    | true => simp [nextPc, hpc, hk, hflag]
    | false =>
      cases hpr : (s.call (s.attempt a).call).prCommon <;> simp [nextPc, hpc, hk, hflag, hpr]
  | syncTimeout => simp [nextPc, hpc, hk]

theorem reportFailure_pc (hpc : (s.attempt a).pc = .report e k) :
    ((s.reportFailure a e k).attempt a).pc = nextPc s a := by
  unfold State.reportFailure
  cases hk : (s.attempt a).kind with
  | syncTask host =>
    unfold State.reportValue
    cases hpr : (s.call (s.attempt a).call).prCommon with
    | none => simp [nextPc, hpc, hk, hpr]
    | some v => by_cases htry : k = .inTry <;> simp [nextPc, hpc, hk, hpr, htry]
  | _ => simp [nextPc, hpc, hk]

theorem advance_pc (s : State) (a : Nat) : ((s.advance a).attempt a).pc = nextPc s a := by
  unfold State.advance
  cases hpc : (s.attempt a).pc with
  | start =>
    cases hup : s.up (s.attempt a).kind with
    | none => exact refuse_pc hpc hup
    | some c => simp [nextPc, hpc, hup]
  | publish n =>
    by_cases hn : n < 3
    · cases hup : s.up (s.attempt a).kind <;> simp [nextPc, hpc, hup, hn, failWith_pc]
    · cases hk : (s.attempt a).kind.isSync <;> simp [nextPc, hpc, hn, State.leaveLoop, hk]
  | waitAck n =>
    cases hack : (s.attempt a).ack with
    | none =>
      by_cases hn : n < 3
      · simp [nextPc, hpc, hack, hn]
      · simp [nextPc, hpc, hack, hn, failWith_pc, State.eraseEntries]
    | some ok =>
      cases ok with
      | true =>
        cases hk : (s.attempt a).kind.isSync <;> simp [nextPc, hpc, hack, State.acked, hk]
      | false => exact nacked_pc hpc hack
  | waitRes => exact getResult_pc hpc
  | succeed => exact announce_pc hpc
  | count e k => simp [nextPc, hpc]
  | report e k => exact reportFailure_pc hpc
  | ended o => simp [nextPc, hpc]

end NextPc

/-- No attempt starts twice. -/
theorem nextPc_ne_start (s : State) (a : Nat) : nextPc s a ≠ .start := by
  have hfail : ∀ (kind : Kind) (e : Reason) (k : Cont), kind.failing e k ≠ .start := by
    intro kind e k
    cases kind <;> simp [Kind.failing]
  have hafter : ∀ (e : Reason) (k : Cont), State.afterFailure e k ≠ .start := by
    intro e k
    cases k <;> simp [State.afterFailure]
  dsimp only [nextPc]
  split
  · split_ifs <;> simp [hfail]
  · split_ifs <;> simp [hfail]
  · split
    · split <;> simp [hfail]
    · split <;> simp
    · split <;> simp [hfail]
  · split <;> split_ifs <;> simp [hfail]
  · split
    · split <;> simp
    · simp
    · simp
  · split <;> simp [hafter]
  · split
    · split_ifs <;> simp [hafter]
    · simp
    · simp [hafter]
  · simp

/-- What a step makes of the call it belongs to. -/
def nextCall (s : State) (a : Nat) : Call :=
  let t := s.attempt a
  let r := s.call t.call
  match t.pc with
  | .succeed =>
    match t.kind with
    | .asyncNT _ => { r with successCallOnceFlag := true }
    | .syncTask _ =>
      if r.successCallOnceFlag then r
      else if r.prCommon.isSome then { r with throws := r.throws + 1 }
      else { r with prCommon := t.res, successCallOnceFlag := true }
    | _ => r
  | .count _ _ => { r with failureCountCommon := r.failureCountCommon + 1 }
  | .report e _ =>
    match t.kind with
    | .syncTask _ =>
      if r.prCommon.isNone then { r with prCommon := some (false, .exception e.text) }
      else { r with throws := r.throws + 1 }
    | _ => r
  | _ => r

theorem failWith_call (s : State) (a : Nat) (e : Reason) (k : Cont) :
    (s.failWith a e k).call = s.call := by
  unfold State.failWith
  split <;> rfl

theorem advance_call (s : State) (a : Nat) :
    (s.advance a).call (s.attempt a).call = nextCall s a := by
  unfold State.advance nextCall
  split
  · next hpc =>
    simp only [hpc]
    split
    · unfold State.refuse
      split
      · rfl
      · rw [failWith_call]
    · unfold State.register State.enrol
      split <;> try rfl
      split <;> rfl
  · next hpc =>
    simp only [hpc]
    split
    · split
      · rw [failWith_call]
      · rfl
    · unfold State.leaveLoop
      split <;> rfl
  · next hpc =>
    simp only [hpc]
    split
    · split
      · rfl
      · rw [failWith_call]
        rfl
    · unfold State.acked
      split <;> rfl
    · unfold State.nacked
      split <;> rw [failWith_call]
  · next hpc =>
    simp only [hpc]
    unfold State.getResult
    split
    · split <;> rw [failWith_call]
    · split
      · rfl
      · split
        · rfl
        · rw [failWith_call]
  · next hpc =>
    simp only [hpc]
    unfold State.announce
    cases hk : (s.attempt a).kind with
    | async => rfl
    | asyncNT host =>
      dsimp only
      split
      · next hflag =>
        rw [State.setPc_call]
        generalize s.call (s.attempt a).call = r at hflag ⊢
        cases r
        simp_all
      · simp
    | syncTask host =>
      dsimp only [State.announceValue]
      split
      · rfl
      · split <;> simp
    | syncTimeout => rfl
  · next hpc =>
    simp [hpc, State.countFailure]
  · next hpc =>
    simp only [hpc]
    unfold State.reportFailure
    cases hk : (s.attempt a).kind with
    | async => rfl
    | asyncNT host => rfl
    | syncTask host =>
      dsimp only [State.reportValue]
      split
      · simp
      · split <;> simp
    | syncTimeout => rfl
  · next hpc => simp only [hpc]

/-- The program counters an attempt of each kind can have. -/
def Pc.fits : Kind → Pc → Bool
  | _, .start => true
  | _, .publish n => n ≤ 3
  | _, .waitAck n => n < 3
  | k, .waitRes => k.isSync
  | k, .succeed => k ≠ .syncTimeout
  | .asyncNT _, .count e k => e = .heartbeatFailure ∧ k = .leave
  | .syncTask host, .count _ k => k = .throughAck → host.isSome
  | _, .count _ _ => false
  | .async, .report e k | .asyncNT _, .report e k => e = .heartbeatFailure ∧ k = .leave
  | .syncTask host, .report _ k => k = .throughAck → host.isSome
  | .syncTimeout, .report _ _ => false
  | .syncTimeout, .ended o => o = .returned
  | .syncTask _, .ended o => o ≠ .unanswered ∧ o ≠ .returned
  | _, .ended o => o ≠ .returned

/-- The attempts that a call makes. -/
def Entry.makes : Entry → Kind → Bool
  | .async, .async | .asyncEach, .asyncNT _ | .sync, .syncTimeout | .syncEach, .syncTask _ => true
  | _, _ => false

/-- What holds of attempts and calls in every reachable state. -/
structure Sane (s : State) : Prop where
  fits : ∀ a < s.nAttempts, Pc.fits (s.attempt a).kind (s.attempt a).pc = true
  /-- An attempt that has not been made has not started. -/
  later : ∀ a, s.nAttempts ≤ a → (s.attempt a).pc = .start
  caller : ∀ a < s.nAttempts, (s.attempt a).call < s.nCalls ∧
    a ∈ (s.call (s.attempt a).call).members
  member : ∀ k < s.nCalls, ∀ a ∈ (s.call k).members, a < s.nAttempts ∧ (s.attempt a).call = k
  nodup : ∀ k < s.nCalls, (s.call k).members.Nodup
  size : ∀ k < s.nCalls, (s.call k).members.length = (s.call k).countCommon + 1
  makes : ∀ a < s.nAttempts, (s.call (s.attempt a).call).entry.makes (s.attempt a).kind = true
  single : ∀ k < s.nCalls, (s.call k).entry = .async → (s.call k).countCommon = 0
  callbacks : ∀ b ∈ s.callbacks, b.call < s.nCalls

section Sane

variable {s t : State} {a : Nat}

/-- Every failing exit stays among the program counters of its kind. -/
theorem failWith_fits {e : Reason} {k : Cont}
    (hasync : (s.attempt a).kind.isSync = false → e = .heartbeatFailure ∧ k = .leave)
    (hhost : k = .throughAck → ∃ host, (s.attempt a).kind = .syncTask (some host)) :
    Pc.fits (s.attempt a).kind ((s.failWith a e k).attempt a).pc = true := by
  unfold State.failWith
  cases hkind : (s.attempt a).kind with
  | async => simpa [Pc.fits, hkind, Kind.isSync] using hasync
  | asyncNT host => simpa [Pc.fits, hkind, Kind.isSync] using hasync
  | syncTask host =>
    simp only [State.setPc_self, Pc.fits, decide_eq_true_eq]
    intro hk
    obtain ⟨host', h'⟩ := hhost hk
    rw [hkind] at h'
    cases h'
    rfl
  | syncTimeout => simp [State.returnValue, Pc.fits]

theorem afterFailure_fits {kind : Kind} {e : Reason} {k : Cont}
    (h : Pc.fits kind (.count e k) = true ∨ Pc.fits kind (.report e k) = true) :
    Pc.fits kind (State.afterFailure e k) = true := by
  cases kind <;> cases k <;> simp [State.afterFailure, Pc.fits, Kind.isSync] at h ⊢

/-- A step keeps the program counter among those of its kind. -/
theorem advance_fits (h : Pc.fits (s.attempt a).kind (s.attempt a).pc = true) :
    Pc.fits (s.attempt a).kind ((s.advance a).attempt a).pc = true := by
  unfold State.advance
  split
  · split
    · unfold State.refuse
      split
      · next hk => simp [hk, Pc.fits]
      · exact failWith_fits (fun _ => ⟨rfl, rfl⟩) (by simp)
    · simp [Pc.fits]
  · next n hpc =>
    split
    · next hn =>
      split
      · exact failWith_fits (fun _ => ⟨rfl, rfl⟩) (by simp)
      · simpa [Pc.fits] using hn
    · unfold State.leaveLoop
      cases hk : (s.attempt a).kind <;> simp [Kind.isSync, Pc.fits]
  · next n hpc =>
    have hn : n < 3 := by simpa [hpc, Pc.fits] using h
    split
    · rw [if_pos hn]
      simp only [State.setPc_self, Pc.fits, decide_eq_true_eq]
      omega
    · unfold State.acked
      cases hk : (s.attempt a).kind <;> simp [Kind.isSync, Pc.fits]
    · unfold State.nacked
      split
      · next hk => exact failWith_fits (by simp [hk, Kind.isSync]) (fun _ => ⟨_, hk⟩)
      · exact failWith_fits (fun _ => ⟨rfl, rfl⟩) (by simp)
  · next hpc =>
    have hs : (s.attempt a).kind.isSync = true := by simpa [hpc, Pc.fits] using h
    unfold State.getResult
    split
    · split <;> exact failWith_fits (by simp [hs]) (by simp)
    · split
      · next hk => simp [hk, State.returnValue, Pc.fits]
      · next hk =>
        split
        · simpa [Pc.fits] using hk
        · exact failWith_fits (by simp [hs]) (by simp)
  · unfold State.announce
    split
    · next hk => simp [hk, Pc.fits]
    · next hk => split <;> simp [hk, Pc.fits]
    · next hk =>
      unfold State.announceValue
      split
      · simp [hk, Pc.fits]
      · split <;> simp [hk, Pc.fits]
    · exact h
  · next e k hpc =>
    rw [hpc] at h
    simp only [State.countFailure_self]
    split
    · cases hk : (s.attempt a).kind <;> simp [hk, Pc.fits] at h ⊢ <;> exact h
    · exact afterFailure_fits (.inl h)
  · next e k hpc =>
    rw [hpc] at h
    have hafter := afterFailure_fits (.inr h)
    unfold State.reportFailure
    split
    · next hk => simpa [hk] using hafter
    · next hk => simpa [hk] using hafter
    · next hk =>
      unfold State.reportValue
      split
      · simpa using hafter
      · split
        · simp [hk, Pc.fits]
        · simpa [hk, hpc] using h
    · next hk => simp [hk, Pc.fits] at h
  · exact h

theorem sane_init (appId : String) (funcs : List String) (eid : Nat) (fresh : Ptr) :
    Sane (init appId funcs eid fresh) := by
  constructor <;> simp [init]

/-- The kinds of a call are those its entry makes. -/
theorem kinds_makes {entry : Entry} {kind : Kind} (h : kind ∈ s.kinds entry) :
    entry.makes kind = true := by
  cases entry <;> simp [State.kinds] at h
  · simp [h, Entry.makes]
  · rcases h with ⟨_, _, _, rfl⟩ | rfl <;> rfl
  · simp [h, Entry.makes]
  · rcases h with rfl | ⟨_, _, _, rfl⟩ <;> rfl

theorem kinds_length_pos (s : State) (entry : Entry) : 0 < (s.kinds entry).length := by
  cases entry <;> simp [State.kinds]

/-- The attempts of a new call are new, and the old ones stay. -/
theorem create_attempt (s : State) (entry : Entry) (a : Nat) :
    (s.create entry).attempt a = s.attempt a ∧
        ¬ (s.nAttempts ≤ a ∧ a < s.nAttempts + (s.kinds entry).length) ∨
      s.nAttempts ≤ a ∧ a < s.nAttempts + (s.kinds entry).length ∧
        ∃ kind ∈ s.kinds entry,
          (s.create entry).attempt a = { kind := kind, call := s.nCalls } := by
  by_cases hlt : a < s.nAttempts
  · exact .inl ⟨by simp [State.create, hlt], by omega⟩
  · cases hk : (s.kinds entry)[a - s.nAttempts]? with
    | none =>
      have := List.getElem?_eq_none_iff.mp hk
      exact .inl ⟨by simp [State.create, hk], by omega⟩
    | some kind =>
      obtain ⟨hl, -⟩ := List.getElem?_eq_some_iff.mp hk
      refine .inr ⟨by omega, by omega, kind, List.mem_of_getElem? hk, ?_⟩
      simp [State.create, hlt, hk]

theorem sane_create (h : Sane s) (entry : Entry) : Sane (s.create entry) := by
  have hcall : ∀ k, k ≠ s.nCalls → (s.create entry).call k = s.call k := by
    intro k hk
    simp [State.create, hk]
  have hnew : (s.create entry).call s.nCalls =
      { entry := entry
        countCommon := (s.kinds entry).length - 1
        members := List.range' s.nAttempts (s.kinds entry).length } := by
    simp [State.create]
  have hpos := kinds_length_pos s entry
  have hold : ∀ a < s.nAttempts, (s.create entry).attempt a = s.attempt a := by
    intro a ha
    simp [State.create, ha]
  refine ⟨?_, ?_, ?_, ?_, ?_, ?_, ?_, ?_, ?_⟩
  · intro a ha
    rcases create_attempt s entry a with ⟨heq, hn⟩ | ⟨-, -, kind, -, heq⟩
    · have ha : a < s.nAttempts := by
        simp only [State.create] at ha
        omega
      rw [heq]
      exact h.fits a ha
    · rw [heq]
      simp [Pc.fits]
  · intro a ha
    rcases create_attempt s entry a with ⟨heq, hn⟩ | ⟨-, -, kind, -, heq⟩
    · rw [heq]
      apply h.later
      simp only [State.create] at ha
      omega
    · rw [heq]
  · intro a ha
    rcases create_attempt s entry a with ⟨heq, hn⟩ | ⟨hge, hlt, kind, -, heq⟩
    · have ha : a < s.nAttempts := by
        simp only [State.create] at ha
        omega
      obtain ⟨hc, hm⟩ := h.caller a ha
      rw [heq, hcall _ (by omega)]
      exact ⟨Nat.lt_succ_of_lt hc, hm⟩
    · rw [heq, hnew]
      exact ⟨Nat.lt_succ_self _, List.mem_range'_1.mpr ⟨hge, hlt⟩⟩
  · intro k hk a hm
    by_cases hk' : k = s.nCalls
    · subst hk'
      rw [hnew] at hm
      obtain ⟨hge, hlt⟩ := List.mem_range'_1.mp hm
      rcases create_attempt s entry a with ⟨-, hn⟩ | ⟨-, -, kind, -, heq⟩
      · exact absurd ⟨hge, hlt⟩ hn
      · exact ⟨hlt, by rw [heq]⟩
    · rw [hcall k hk'] at hm
      have hk : k < s.nCalls := by
        simp only [State.create] at hk
        omega
      obtain ⟨ha, hc⟩ := h.member k hk a hm
      rw [hold a ha]
      exact ⟨Nat.lt_of_lt_of_le ha (Nat.le_add_right _ _), hc⟩
  · intro k hk
    by_cases hk' : k = s.nCalls
    · rw [hk', hnew]
      exact List.nodup_range'
    · rw [hcall k hk']
      exact h.nodup k (by simp only [State.create] at hk; omega)
  · intro k hk
    by_cases hk' : k = s.nCalls
    · rw [hk', hnew]
      simp only [List.length_range']
      omega
    · rw [hcall k hk']
      exact h.size k (by simp only [State.create] at hk; omega)
  · intro a ha
    rcases create_attempt s entry a with ⟨heq, hn⟩ | ⟨hge, hlt, kind, hkind, heq⟩
    · have ha : a < s.nAttempts := by
        simp only [State.create] at ha
        omega
      have hc := (h.caller a ha).1
      rw [heq, hcall _ (by omega)]
      exact h.makes a ha
    · rw [heq, hnew]
      exact kinds_makes hkind
  · intro k hk hentry
    by_cases hk' : k = s.nCalls
    · subst hk'
      rw [hnew] at hentry ⊢
      obtain rfl : entry = .async := hentry
      rfl
    · rw [hcall k hk'] at hentry ⊢
      exact h.single k (by simp only [State.create] at hk; omega) hentry
  · intro b hb
    exact Nat.lt_succ_of_lt (h.callbacks b hb)

theorem sane_advance (h : Sane s) (ha : a < s.nAttempts) : Sane (s.advance a) := by
  have hown := own_advance s a
  have hcaller : ∀ b, ((s.advance a).attempt b).call = (s.attempt b).call := by
    intro b
    by_cases hb : b = a
    · rw [hb, hown.caller]
    · rw [hown.attempt b hb]
  have hkind : ∀ b, ((s.advance a).attempt b).kind = (s.attempt b).kind := by
    intro b
    by_cases hb : b = a
    · rw [hb, hown.kind]
    · rw [hown.attempt b hb]
  refine ⟨?_, ?_, ?_, ?_, ?_, ?_, ?_, ?_, ?_⟩
  · intro b hb
    rw [hown.nAttempts] at hb
    by_cases hba : b = a
    · rw [hba, hown.kind]
      exact advance_fits (h.fits a ha)
    · rw [hown.attempt b hba]
      exact h.fits b hb
  · intro b hb
    rw [hown.nAttempts] at hb
    rw [hown.attempt b (by omega)]
    exact h.later b hb
  · intro b hb
    rw [hown.nAttempts] at hb
    rw [hcaller, hown.nCalls, hown.members]
    exact h.caller b hb
  · intro k hk b hb
    rw [hown.nCalls] at hk
    rw [hown.members] at hb
    rw [hcaller, hown.nAttempts]
    exact h.member k hk b hb
  · intro k hk
    rw [hown.members]
    exact h.nodup k (hown.nCalls ▸ hk)
  · intro k hk
    rw [hown.members, hown.countCommon]
    exact h.size k (hown.nCalls ▸ hk)
  · intro b hb
    rw [hown.nAttempts] at hb
    rw [hcaller, hkind, hown.entry]
    exact h.makes b hb
  · intro k hk hentry
    rw [hown.entry] at hentry
    rw [hown.countCommon]
    exact h.single k (hown.nCalls ▸ hk) hentry
  · intro b hb
    rw [hown.nCalls]
    rcases hown.callbacks with heq | ⟨e, held, heq⟩
    · exact h.callbacks b (heq ▸ hb)
    · rw [heq] at hb
      rcases List.mem_cons.mp hb with rfl | hb
      · exact (h.caller a ha).1
      · exact h.callbacks b hb

theorem sane_env (h : Sane s) (he : Env s t) : Sane t := by
  refine ⟨?_, ?_, ?_, ?_, ?_, ?_, ?_, ?_, ?_⟩
  · intro b hb
    rw [(he.attempt b).kind, (he.attempt b).pc]
    exact h.fits b (he.nAttempts ▸ hb)
  · intro b hb
    rw [(he.attempt b).pc]
    exact h.later b (he.nAttempts ▸ hb)
  · intro b hb
    rw [(he.attempt b).call, he.call, he.nCalls]
    exact h.caller b (he.nAttempts ▸ hb)
  · intro k hk b hb
    rw [he.call] at hb
    rw [(he.attempt b).call, he.nAttempts]
    exact h.member k (he.nCalls ▸ hk) b hb
  · intro k hk
    rw [he.call]
    exact h.nodup k (he.nCalls ▸ hk)
  · intro k hk
    rw [he.call]
    exact h.size k (he.nCalls ▸ hk)
  · intro b hb
    rw [(he.attempt b).call, (he.attempt b).kind, he.call]
    exact h.makes b (he.nAttempts ▸ hb)
  · intro k hk
    rw [he.call]
    exact h.single k (he.nCalls ▸ hk)
  · intro b hb
    rw [he.callbacks] at hb
    rw [he.nCalls]
    exact h.callbacks b hb

theorem sane_step {l : Label} (h : Sane s) (hst : step s l = some t) : Sane t := by
  obtain ⟨-, ⟨entry, -, rfl⟩ | ⟨a, -, ha, -, rfl⟩ | ⟨he, -⟩⟩ := step_cases hst
  · exact sane_create h entry
  · exact sane_advance h ha
  · exact sane_env h he

end Sane

end JamSched.Remote
