import JamSched.Remote.Pending

/-!
# What ended executions leave behind

Entries of the tables are removed by the handlers of REXEC-ACK and REXEC-RES alone, and pending
identifiers by the latter alone: the `erase` calls of the attempts themselves stand behind the
second test of the retry loop, which is never true, and `Clear` completes promises without
removing them. So an execution cleans up after itself only if all of its answers came before it
left, and its result through the connection where it is pending.
-/
namespace JamSched.Remote

open Machine

section Tidy

/-- `CreateRExecAsyncWithCallbackNT` for a host: nobody removes its pending identifier. -/
def Kind.isHostCallback : Kind → Bool
  | .asyncNT (some _) => true
  | _ => false

/-- The acknowledgement was received, and the result if the attempt waits for one. -/
def Attempt.answered (t : Attempt) : Bool :=
  t.ack = some true && (!t.kind.isSync || t.res.any (·.1))

/-- The attempt was registered and has not ended. -/
def Attempt.unfinished (t : Attempt) : Bool := t.registered && !t.pc.isEnded

/-- The next step of attempt `a` does not leave the retry loop or the wait for the result without
all of the answers. -/
def stays (s : State) (a : Nat) : Bool :=
  match (s.attempt a).pc with
  | .publish n =>
    if n < 3 then (s.up (s.attempt a).kind).isSome || (s.attempt a).answered
    else (s.attempt a).kind.isSync || (s.attempt a).answered
  | .waitAck _ => (s.attempt a).ack ≠ some false
  | .waitRes => (s.attempt a).answered
  | _ => true

/-- The step leaves nothing behind. -/
structure Tidy (s : State) (l : Label) : Prop where
  /-- A registration gets no identifier of an unfinished attempt. -/
  register : Registers s l →
    ∀ b < s.nAttempts, (s.attempt b).unfinished = true → (s.attempt b).tempEID ≠ s.eIdFactory
  callback : ∀ a, l = .attempt a → Registers s l → (s.attempt a).kind.isHostCallback = false
  leave : ∀ a, l = .attempt a → stays s a = true
  /-- A result comes through the connection where its identifier is pending. -/
  result : ∀ m ∈ handledRes s l, s.rLookup m.2.1 ≠ none → m.2.1 ∈ (s.conn m.1).rExecPending
  /-- A connection that is cleared has no outstanding requests. -/
  clear : ∀ c, s.Owned c → Clears s l c → ∀ id ∈ (s.conn c).rExecPending,
    s.ackLookup id = none ∧ s.rLookup id = none

instance (s : State) (l : Label) : Decidable (Tidy s l) :=
  decidable_of_iff
    ((Registers s l → ∀ b < s.nAttempts, (s.attempt b).unfinished = true →
        (s.attempt b).tempEID ≠ s.eIdFactory) ∧
      (∀ a, l = .attempt a → Registers s l → (s.attempt a).kind.isHostCallback = false) ∧
      (∀ a, l = .attempt a → stays s a = true) ∧
      (∀ m ∈ handledRes s l, s.rLookup m.2.1 ≠ none → m.2.1 ∈ (s.conn m.1).rExecPending) ∧
      ∀ c, s.Owned c → Clears s l c → ∀ id ∈ (s.conn c).rExecPending,
        s.ackLookup id = none ∧ s.rLookup id = none)
    ⟨fun h => ⟨h.1, h.2.1, h.2.2.1, h.2.2.2.1, h.2.2.2.2⟩,
      fun h => ⟨h.register, h.callback, h.leave, h.result, h.clear⟩⟩

/-- Entries belong to attempts that are in the retry loop or wait for the result, and their
promises are open; pending identifiers have an entry. -/
structure Live (s : State) : Prop where
  ack : ∀ id a, s.ackLookup id = some a → (s.attempt a).pc.inWait = true ∧ (s.attempt a).ack = none
  res : ∀ id a, s.rLookup id = some a → (s.attempt a).pc.inWait = true ∧ (s.attempt a).res = none
  pending : ∀ c id, s.Owned c → id ∈ (s.conn c).rExecPending → s.rLookup id ≠ none

variable {s t : State} {a : Nat} {c : Ptr} {l : Label}

theorem live_init (appId : String) (funcs : List String) (eid : Nat) (fresh : Ptr) :
    Live (init appId funcs eid fresh) := by
  constructor <;> simp [init]

theorem inWait_unfinished {t : Attempt} (hr : t.registered = true) (hin : t.pc.inWait = true) :
    t.unfinished = true := by
  cases hpc : t.pc <;> simp [hpc, Pc.inWait, Attempt.unfinished, Pc.isEnded, hr] at hin ⊢

/-- An identifier in use belongs to an unfinished attempt. -/
theorem Live.fresh (h : Live s) (hk : Kept s) (ht : Tidy s l) : FreshId s l := by
  intro hreg
  have hno := ht.register hreg
  have hres : ∀ b, s.rLookup s.eIdFactory ≠ some b := by
    intro b hb
    obtain ⟨hlt, hr, heid, -⟩ := hk.tabled.res _ b hb
    exact hno b hlt (inWait_unfinished hr (h.res _ b hb).1) heid
  have hack : ∀ b, s.ackLookup s.eIdFactory ≠ some b := by
    intro b hb
    obtain ⟨hlt, hr, heid⟩ := hk.tabled.ack _ b hb
    exact hno b hlt (inWait_unfinished hr (h.ack _ b hb).1) heid
  have hnone := Option.eq_none_iff_forall_ne_some.mpr hres
  exact ⟨Option.eq_none_iff_forall_ne_some.mpr hack, hnone,
    fun c hc hmem => h.pending c _ hc hmem hnone⟩

/-- An attempt without all of its answers stays in the retry loop or the wait for the result. -/
theorem nextPc_inWait (hfits : Pc.fits (s.attempt a).kind (s.attempt a).pc = true)
    (hstay : stays s a = true) (hin : (s.attempt a).pc.inWait = true)
    (hno : (s.attempt a).answered = false) : (nextPc s a).inWait = true := by
  cases hpc : (s.attempt a).pc with
  | publish n =>
    by_cases hn : n < 3
    · have hup : s.up (s.attempt a).kind ≠ none := by
        simpa [stays, hpc, hn, hno, Option.isSome_iff_ne_none] using hstay
      simp [nextPc, hpc, hn, hup, Pc.inWait]
    · have hs : (s.attempt a).kind.isSync = true := by simpa [stays, hpc, hn, hno] using hstay
      simp [nextPc, hpc, hn, hs, Pc.inWait]
  | waitAck n =>
    have hn : n < 3 := by simpa [hpc, Pc.fits] using hfits
    cases hack : (s.attempt a).ack with
    | none => simp [nextPc, hpc, hack, hn, Pc.inWait]
    | some ok =>
      cases ok with
      | false => simp [stays, hpc, hack] at hstay
      | true =>
        have hs : (s.attempt a).kind.isSync = true := by
          cases hs : (s.attempt a).kind.isSync with
          | true => rfl
          | false => simp [Attempt.answered, hack, hs] at hno
        simp [nextPc, hpc, hack, hs, Pc.inWait]
  | waitRes => simp [stays, hpc, hno] at hstay
  | _ => simp [hpc, Pc.inWait] at hin

theorem live_create (hk : Kept s) (h : Live s) (entry : Entry) : Live (s.create entry) := by
  have hold : ∀ a < s.nAttempts, (s.create entry).attempt a = s.attempt a := by
    intro a ha
    simp [State.create, ha]
  refine ⟨?_, ?_, h.pending⟩
  · intro id a ha
    rw [hold a (hk.tabled.ack id a ha).1]
    exact h.ack id a ha
  · intro id a ha
    rw [hold a (hk.tabled.res id a ha).1]
    exact h.res id a ha

theorem live_register (hk : Kept s) (h : Live s) (hpc : (s.attempt a).pc = .start)
    (hown : Own s (s.register a c) a) (hkind : (s.attempt a).kind.isHostCallback = false) :
    Live (s.register a c) := by
  obtain ⟨hack, hres, -⟩ := register_tables s a c
  obtain ⟨hno, hno', -⟩ := hk.tabled.fresh a (hk.tabled.start a hpc)
  have hself : ((s.register a c).attempt a).pc.inWait = true ∧
      ((s.register a c).attempt a).ack = none ∧ ((s.register a c).attempt a).res = none := by
    simp [hno, hno', Pc.inWait]
  have hother : ∀ b, b = a ∨ (s.register a c).attempt b = s.attempt b := by
    intro b
    by_cases hba : b = a
    · exact .inl hba
    · exact .inr (hown.attempt b hba)
  refine ⟨?_, ?_, ?_⟩
  · intro id b hb
    rcases hother b with rfl | heq
    · exact ⟨hself.1, hself.2.1⟩
    · rw [heq]
      by_cases hid : id = s.eIdFactory
      · obtain rfl : a = b := by simpa [hack, hid] using hb
        rw [← heq]
        exact ⟨hself.1, hself.2.1⟩
      · rw [hack, Function.update_of_ne hid] at hb
        exact h.ack id b hb
  · intro id b hb
    rcases hother b with rfl | heq
    · exact ⟨hself.1, hself.2.2⟩
    · rw [heq]
      by_cases hid : (s.attempt a).kind.isSync = true ∧ id = s.eIdFactory
      · obtain rfl : a = b := by simpa [hres, hid] using hb
        rw [← heq]
        exact ⟨hself.1, hself.2.2⟩
      · refine h.res id b ?_
        rw [hres] at hb
        split at hb
        · next hs => rwa [Function.update_of_ne fun heq => hid ⟨hs, heq⟩] at hb
        · exact hb
  · intro d id hd hid
    rw [State.Owned, hown.mainFogInfo, hown.cloudFogInfo] at hd
    rw [hres]
    rw [register_pending] at hid
    -- only the synchronous variants are enrolled
    have hsync : enrolled s (s.attempt a).kind c = some d → (s.attempt a).kind.isSync = true := by
      rcases hk' : (s.attempt a).kind with _ | (_ | host) | (_ | host) | _ <;>
        simp [hk', enrolled, Kind.isSync, Kind.isHostCallback] at hkind ⊢
    have hold : id ∈ (s.conn d).rExecPending → (if (s.attempt a).kind.isSync = true then
        Function.update s.rLookup s.eIdFactory (some a) else s.rLookup) id ≠ none := by
      intro hid
      have := h.pending d id hd hid
      split
      · by_cases heq : id = s.eIdFactory
        · simp [heq]
        · rwa [Function.update_of_ne heq]
      · exact this
    split at hid
    · next hen =>
      rcases List.mem_cons.mp hid with rfl | hid
      · rw [if_pos (hsync hen.1), Function.update_self]
        simp
      · exact hold hid
    · exact hold hid

theorem live_advance (hk : Kept s) (h : Live s) (ha : a < s.nAttempts) (ht : Tidy s (.attempt a)) :
    Live (s.advance a) := by
  have hown := own_advance s a
  rcases advance_cases (hk.sane.fits a ha) with ⟨c, hpc, hup, heq⟩ | ⟨-, hq⟩
  · rw [heq] at hown ⊢
    exact live_register hk h hpc hown (ht.callback a rfl (.of_up ha hpc hup))
  · have hstay : (s.attempt a).pc.inWait = true → (s.attempt a).answered = false →
        ((s.advance a).attempt a).pc.inWait = true := by
      intro hin hno
      rw [advance_pc]
      exact nextPc_inWait (hk.sane.fits a ha) (ht.leave a rfl) hin hno
    refine ⟨?_, ?_, ?_⟩
    · intro id b hb
      rw [hq.ackLookup] at hb
      obtain ⟨hin, hnone⟩ := h.ack id b hb
      by_cases hba : b = a
      · subst hba
        exact ⟨hstay hin (by simp [Attempt.answered, hnone]), hown.ack.trans hnone⟩
      · rw [hown.attempt b hba]
        exact ⟨hin, hnone⟩
    · intro id b hb
      rw [hq.rLookup] at hb
      obtain ⟨hin, hnone⟩ := h.res id b hb
      by_cases hba : b = a
      · subst hba
        have hs := (hk.tabled.res id b hb).2.2.2
        exact ⟨hstay hin (by simp [Attempt.answered, hnone, hs]), hown.res.trans hnone⟩
      · rw [hown.attempt b hba]
        exact ⟨hin, hnone⟩
    · intro d id hd hid
      rw [State.Owned, hown.mainFogInfo, hown.cloudFogInfo] at hd
      rw [hq.conn] at hid
      rw [hq.rLookup]
      exact h.pending d id hd hid

theorem live_event (hk : Kept s) (h : Live s) (he : Env s t) (hev : Event s l t) (ht : Tidy s l) :
    Live t := by
  have hpc : ∀ a, (t.attempt a).pc = (s.attempt a).pc := fun a => (he.attempt a).pc
  cases hev with
  | @ack id a hl hack =>
    refine ⟨?_, ?_, ?_⟩
    · intro id' b hb
      obtain ⟨hb, hsame⟩ := hack.of_ackLookup hk.tabled hb
      rw [hsame]
      exact h.ack id' b hb
    · intro id' b hb
      rw [hack.rLookup] at hb
      rw [hpc, hack.attempt_res]
      exact h.res id' b hb
    · intro d id' hd hid
      rw [hack.conn] at hid
      rw [hack.rLookup]
      exact h.pending d id' ((hack.hosts.owned d).mp hd) hid
  | @res c id a args hl hres =>
    have hmem := ht.result _ hl (by simp [hres.key])
    have hvalid : s.Owned c := by
      rw [← hk.linked.valid]
      exact handledRes_valid hl
    refine ⟨?_, ?_, ?_⟩
    · intro id' b hb
      rw [hres.ackLookup] at hb
      rw [hpc, hres.attempt_ack]
      exact h.ack id' b hb
    · intro id' b hb
      obtain ⟨hb, hsame⟩ := hres.of_rLookup hk.tabled hb
      rw [hsame]
      exact h.res id' b hb
    · intro d id' hd hid
      have hd := (hres.hosts.owned d).mp hd
      rw [hres.pending] at hid
      have hold : id' ∈ (s.conn d).rExecPending := by
        split at hid
        · exact (List.mem_filter.mp hid).1
        · exact hid
      have hne : id' ≠ id := by
        rintro rfl
        obtain rfl := hk.intact.single d c id' hd hvalid hold hmem
        simp at hid
      rw [hres.rLookup, Function.update_of_ne hne]
      exact h.pending d id' hd hold
  | turned hturn =>
    refine ⟨?_, ?_, ?_⟩
    · intro id a ha
      rw [hturn.swept.ackLookup] at ha
      rw [hpc, hturn.swept.ackKept a]
      · exact h.ack id a ha
      · rintro d hd ⟨i, hi, hia⟩
        rw [(ht.clear d hd.1 hd i hi).1] at hia
        cases hia
    · intro id a ha
      rw [hturn.swept.rLookup] at ha
      rw [hpc, hturn.swept.resKept a]
      · exact h.res id a ha
      · rintro d hd ⟨i, hi, hia⟩
        rw [(ht.clear d hd.1 hd i hi).2] at hia
        cases hia
    · intro d id hd hid
      rw [hturn.swept.rLookup]
      rcases hturn.owned d hd with ⟨hold, -⟩ | ⟨-, hnil, -⟩
      · rw [hturn.swept.pending d hold] at hid
        exact h.pending d id hold hid
      · simp [hnil] at hid

theorem live_step (hk : Kept s) (h : Live s) (ht : Tidy s l) (hst : step s l = some t) :
    Live t := by
  obtain ⟨-, ⟨entry, rfl, rfl⟩ | ⟨a, rfl, ha, -, rfl⟩ | ⟨he, hna, hnc⟩⟩ := step_cases hst
  · exact live_create hk h entry
  · exact live_advance hk h ha ht
  · exact live_event hk h he (step_event hk.linked hk.tabled hk.intact hna hnc hst) ht

end Tidy

section Clean

/-- Ended executions have left nothing behind, unless their identifier was given out again. -/
structure Clean (s : State) : Prop where
  ended : ∀ a < s.nAttempts, (s.attempt a).registered = true → (s.attempt a).pc.isEnded = true →
    (∀ b < s.nAttempts, (s.attempt b).unfinished = true →
      (s.attempt b).tempEID ≠ (s.attempt a).tempEID) →
    s.ackLookup (s.attempt a).tempEID = none ∧ s.rLookup (s.attempt a).tempEID = none ∧
      ∀ c, s.Owned c → (s.attempt a).tempEID ∉ (s.conn c).rExecPending
  /-- The tables hold live requests with unsatisfied promises. -/
  ack : ∀ id a, s.ackLookup id = some a →
    (s.attempt a).unfinished = true ∧ (s.attempt a).ack = none
  res : ∀ id a, s.rLookup id = some a →
    (s.attempt a).unfinished = true ∧ (s.attempt a).res = none

variable {s : State}

theorem Live.clean (h : Live s) (hk : Kept s) : Clean s := by
  have hack : ∀ id a, s.ackLookup id = some a →
      (s.attempt a).unfinished = true ∧ (s.attempt a).ack = none := by
    intro id a ha
    obtain ⟨hin, hnone⟩ := h.ack id a ha
    exact ⟨inWait_unfinished (hk.tabled.ack id a ha).2.1 hin, hnone⟩
  have hres : ∀ id a, s.rLookup id = some a →
      (s.attempt a).unfinished = true ∧ (s.attempt a).res = none := by
    intro id a ha
    obtain ⟨hin, hnone⟩ := h.res id a ha
    exact ⟨inWait_unfinished (hk.tabled.res id a ha).2.1 hin, hnone⟩
  refine ⟨?_, hack, hres⟩
  intro a ha hreg hend hunique
  have hres' : s.rLookup (s.attempt a).tempEID = none := by
    apply Option.eq_none_iff_forall_ne_some.mpr
    intro b hb
    obtain ⟨hlt, -, heid, -⟩ := hk.tabled.res _ b hb
    exact hunique b hlt (hres _ b hb).1 heid
  refine ⟨?_, hres', fun c hc hmem => h.pending c _ hc hmem hres'⟩
  apply Option.eq_none_iff_forall_ne_some.mpr
  intro b hb
  obtain ⟨hlt, -, heid⟩ := hk.tabled.ack _ b hb
  exact hunique b hlt (hack _ b hb).1 heid

/-- In every run whose steps are all tidy, no execution that has ended is left in a table or in a
connection's `rExecPending`, and every promise in the tables is unsatisfied. -/
theorem ended_leave_nothing (appId : String) (funcs : List String) (eid : Nat) (fresh : Ptr)
    (ls : List Label) (h : Along step Tidy (init appId funcs eid fresh) ls) :
    Always step Clean (init appId funcs eid fresh) ls := by
  refine always_invariant_along (I := fun s => Kept s ∧ Live s) ?_ (fun s hs => hs.2.clean hs.1)
    ⟨kept_init .., live_init ..⟩ h
  rintro s l t ⟨hk, hlive⟩ ht hst
  exact ⟨kept_step hk (hlive.fresh hk ht) hst, live_step hk hlive ht hst⟩

/-- `CreateRExecSync` through the main connection, up to the wait for the result. -/
def acknowledgedSync : List Label :=
  [.arrived 0 "/app/announce/down" registerAckMsg 0 1, .call .sync, .attempt 0, .attempt 0,
    .arrived 0 "/app/replies/down" (rexecAckMsg 7) 0 1, .attempt 0]

theorem ended_leave_nothing_answered :
    (∃ s, run step (init "app" [] 7 0)
        (acknowledgedSync ++ [.arrived 0 "/app/replies/down" (rexecResMsg 7 (.str "done")) 0 1,
          .attempt 0, .checkExpire 1, .checkExpire 1]) = some s ∧
      (s.attempt 0).pc = .ended .returned ∧ (s.attempt 0).tempEID = 7 ∧ s.ackLookup 7 = none ∧
      s.rLookup 7 = none) ∧
    Always step Clean (init "app" [] 7 0)
      (acknowledgedSync ++ [.arrived 0 "/app/replies/down" (rexecResMsg 7 (.str "done")) 0 1,
        .attempt 0, .checkExpire 1, .checkExpire 1]) :=
  ⟨run_reaches (by decide), ended_leave_nothing "app" [] 7 0 _ (by decide)⟩

/-- After a value timeout the entry of `rLookup` and the pending identifier stay, and after the
connection has expired the entry holds a promise that was completed. -/
theorem value_timeout_left_behind :
    (∃ s, run step (init "app" [] 7 0) (acknowledgedSync ++ [.attempt 0]) = some s ∧
      (s.attempt 0).pc = .ended .returned ∧ s.rLookup 7 = some 0 ∧
      (s.conn 0).rExecPending = [7] ∧ ¬ Clean s) ∧
    ∃ s, run step (init "app" [] 7 0)
        (acknowledgedSync ++ [.attempt 0, .checkExpire 1, .checkExpire 1]) = some s ∧
      s.rLookup 7 = some 0 ∧ (s.attempt 0).res.map Prod.fst = some false := by
  constructor
  · obtain ⟨s, hr, hpc, hkey, hpend⟩ : ∃ s, run step (init "app" [] 7 0)
        (acknowledgedSync ++ [.attempt 0]) = some s ∧ (s.attempt 0).pc = .ended .returned ∧
        s.rLookup 7 = some 0 ∧ (s.conn 0).rExecPending = [7] :=
      run_reaches (by decide)
    refine ⟨s, hr, hpc, hkey, hpend, fun h => ?_⟩
    have := (h.res 7 0 hkey).1
    simp [Attempt.unfinished, hpc, Pc.isEnded] at this
  · exact run_reaches (by decide)

end Clean

end JamSched.Remote
