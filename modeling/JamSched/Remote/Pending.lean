import JamSched.Remote.Connections

/-!
# Pending identifiers

`rExecPending` of a connection is to hold the requests that were sent through it and are still
outstanding, so that clearing the connection fails exactly these. Each entry point does its own
registration: two of them put the identifier nowhere, and the host variant of
`CreateRetryTaskSync` puts it to the main connection. A request can also be published through
another object than the one it was registered with, when the connection was renewed in between,
and a result that comes before its acknowledgement takes the identifier out too early.
-/
namespace JamSched.Remote

open Machine

section Sent

variable {s : State} {a : Nat} {c d : Ptr}

/-- The connection that the next step of attempt `a` uses. -/
def uses (s : State) (a : Nat) : Option Ptr :=
  match (s.attempt a).pc with
  | .start => s.up (s.attempt a).kind
  | .publish n => if n < 3 then s.up (s.attempt a).kind else none
  | _ => none

theorem failWith_conn (e : Reason) (k : Cont) : (s.failWith a e k).conn = s.conn := by
  unfold State.failWith
  split <;> rfl

theorem updConn_sent (x : Nat) :
    ((s.updConn c fun i => { i with sent := x :: i.sent }).conn d).sent =
    if c = d then x :: (s.conn d).sent else (s.conn d).sent := by
  by_cases hd : d = c
  · subst hd
    simp [State.updConn]
  · simp [State.updConn, Function.update_of_ne hd, Ne.symm hd]

theorem register_sent : ((s.register a c).conn d).sent =
    if c = d then a :: (s.conn d).sent else (s.conn d).sent := by
  have hinsert : ∀ (u : State) (m : Ptr) (id : Nat),
      ((u.insertPending m id).conn d).sent = (u.conn d).sent := by
    intro u m id
    by_cases hd : d = m
    · simp [State.insertPending, State.updConn, hd]
    · simp [State.insertPending, State.updConn, Function.update_of_ne hd]
  have hallocate : ((s.allocate a c).conn d).sent =
      if c = d then a :: (s.conn d).sent else (s.conn d).sent := updConn_sent a
  unfold State.register State.enrol
  split
  · exact hallocate
  · exact hallocate
  · rw [hinsert, hallocate]
  · rw [hinsert, hallocate]
  · rw [hinsert, hallocate]
  · split
    · rw [hinsert, hallocate]
    · exact hallocate

theorem advance_sent : ((s.advance a).conn d).sent =
    if uses s a = some d then a :: (s.conn d).sent else (s.conn d).sent := by
  cases hpc : (s.attempt a).pc with
  | start =>
    cases hup : s.up (s.attempt a).kind with
    | none =>
      have hconn : (s.refuse a).conn = s.conn := by
        unfold State.refuse
        split
        · rfl
        · exact failWith_conn ..
      simp [State.advance, uses, hpc, hup, hconn]
    | some c => simp [State.advance, uses, hpc, hup, register_sent]
  | publish n =>
    by_cases hn : n < 3
    · cases hup : s.up (s.attempt a).kind with
      | none => simp [State.advance, uses, hpc, hn, hup, failWith_conn]
      | some c =>
        have hsend : ((s.send a c n).conn d).sent =
            if c = d then a :: (s.conn d).sent else (s.conn d).sent := updConn_sent a
        simp [State.advance, uses, hpc, hn, hup, hsend]
    · have hconn : (s.leaveLoop a).conn = s.conn := by
        unfold State.leaveLoop
        split <;> rfl
      simp [State.advance, uses, hpc, hn, hconn]
  | waitAck n =>
    simp only [State.advance, uses, hpc]
    split
    · split
      · rfl
      · rw [failWith_conn]
        rfl
    · unfold State.acked
      split <;> rfl
    · unfold State.nacked
      split <;> rw [failWith_conn] <;> rfl
  | waitRes =>
    simp only [State.advance, uses, hpc, State.getResult]
    split
    · split <;> rw [failWith_conn] <;> rfl
    · split
      · rfl
      · split
        · rfl
        · rw [failWith_conn]
          rfl
  | succeed =>
    simp only [State.advance, uses, hpc, State.announce, State.announceValue]
    split
    · rfl
    · split <;> rfl
    · split
      · rfl
      · split <;> rfl
    · rfl
  | count e k =>
    simp [State.advance, uses, hpc, State.countFailure, State.updCall, State.updAttempt]
  | report e k =>
    simp only [State.advance, uses, hpc, State.reportFailure, State.reportValue]
    split
    · rfl
    · rfl
    · split
      · rfl
      · split <;> rfl
    · rfl
  | ended o => simp [State.advance, uses, hpc]

end Sent

section Enrolled

/-- The entry points that put the identifier to the connection they send through. -/
def Kind.enrols : Kind → Bool
  | .asyncNT (some _) | .syncTask none | .syncTimeout => true
  | .async | .asyncNT none | .syncTask (some _) => false

/-- The next step of attempt `a` is in order: a registration is one of those, and an outstanding
request is published through the object it was registered with. -/
def InOrder (s : State) (a : Nat) : Prop :=
  ∀ c ∈ uses s a, if (s.attempt a).pc = .start then (s.attempt a).kind.enrols = true
    else Stored s a → a ∈ (s.conn c).sent

/-- The step is in order: steps of attempts are, registrations get a free identifier, and a result
that finds its identifier pending comes after the acknowledgement. -/
structure Orderly (s : State) (l : Label) : Prop where
  fresh : FreshId s l
  attempt : ∀ a, l = .attempt a → InOrder s a
  acknowledged : ∀ m ∈ handledRes s l, s.rLookup m.2.1 ≠ none →
    m.2.1 ∈ (s.conn m.1).rExecPending → s.ackLookup m.2.1 = none

instance (s : State) (a : Nat) : Decidable (Stored s a) := inferInstanceAs (Decidable (_ ∨ _))

instance (s : State) (a : Nat) : Decidable (InOrder s a) :=
  inferInstanceAs (Decidable (∀ c ∈ uses s a, _))

instance (l : Label) (P : Nat → Prop) [DecidablePred P] : Decidable (∀ a, l = .attempt a → P a) :=
  match l with
  | .attempt a => decidable_of_iff (P a) (by simp)
  | .call _ | .arrived .. | .reply _ | .checkExpire _ | .cancelAllRExecRequests | .shutDown =>
    isTrue (by simp)

instance (s : State) (l : Label) : Decidable (Orderly s l) :=
  decidable_of_iff (FreshId s l ∧ (∀ a, l = .attempt a → InOrder s a) ∧
      ∀ m ∈ handledRes s l, s.rLookup m.2.1 ≠ none → m.2.1 ∈ (s.conn m.1).rExecPending →
        s.ackLookup m.2.1 = none)
    ⟨fun h => ⟨h.1, h.2.1, h.2.2⟩, fun h => ⟨h.fresh, h.attempt, h.acknowledged⟩⟩

/-- What is sent through a live connection and outstanding is pending there, and what is pending
there and outstanding was sent through it. -/
structure Enrolled (s : State) : Prop where
  known : ∀ c a, s.Owned c → a ∈ (s.conn c).sent → a < s.nAttempts ∧ (s.attempt a).pc ≠ .start
  sent : ∀ c a, s.Owned c → a ∈ (s.conn c).sent → Stored s a →
    (s.attempt a).tempEID ∈ (s.conn c).rExecPending
  pending : ∀ c a, s.Owned c → (s.attempt a).tempEID ∈ (s.conn c).rExecPending → Stored s a →
    a ∈ (s.conn c).sent

variable {s t : State} {a : Nat} {c : Ptr} {l : Label}

theorem enrolled_init (appId : String) (funcs : List String) (eid : Nat) (fresh : Ptr) :
    Enrolled (init appId funcs eid fresh) := by
  constructor <;> simp [init]

theorem enrolled_of_enrols {k : Kind} (h : k.enrols = true) (c : Ptr) :
    enrolled s k c = some c := by
  rcases k with _ | (_ | host) | (_ | host) | _ <;> simp [Kind.enrols, enrolled] at h ⊢

/-- Steps that leave connections and promises' places alone, apart from what is in the tables. -/
theorem Enrolled.shrink (h : Enrolled s) (hown : ∀ c, t.Owned c → s.Owned c)
    (hn : s.nAttempts ≤ t.nAttempts)
    (hpc : ∀ a < s.nAttempts, (t.attempt a).pc = (s.attempt a).pc)
    (hid : ∀ a, Stored t a → (t.attempt a).tempEID = (s.attempt a).tempEID)
    (hst : ∀ a, Stored t a → Stored s a)
    (hsent : ∀ c, t.Owned c → (t.conn c).sent = (s.conn c).sent)
    (hpend : ∀ c, t.Owned c → (t.conn c).rExecPending = (s.conn c).rExecPending) : Enrolled t := by
  refine ⟨?_, ?_, ?_⟩
  · intro c a hc ha
    rw [hsent c hc] at ha
    obtain ⟨hlt, hne⟩ := h.known c a (hown c hc) ha
    exact ⟨Nat.lt_of_lt_of_le hlt hn, by rwa [hpc a hlt]⟩
  · intro c a hc ha hs
    rw [hsent c hc] at ha
    rw [hpend c hc, hid a hs]
    exact h.sent c a (hown c hc) ha (hst a hs)
  · intro c a hc ha hs
    rw [hpend c hc, hid a hs] at ha
    rw [hsent c hc]
    exact h.pending c a (hown c hc) ha (hst a hs)

theorem Stored.mono (hk : ∀ id, t.ackLookup id = some a → s.ackLookup id = some a)
    (hr : ∀ id, t.rLookup id = some a → s.rLookup id = some a)
    (hid : (t.attempt a).tempEID = (s.attempt a).tempEID) (h : Stored t a) : Stored s a := by
  rw [Stored, hid] at h
  exact h.imp (hk _) (hr _)

theorem enrolled_create (hk : Kept s) (h : Enrolled s) (entry : Entry) :
    Enrolled (s.create entry) := by
  have hold : ∀ a < s.nAttempts, (s.create entry).attempt a = s.attempt a := by
    intro a ha
    simp [State.create, ha]
  have hlt : ∀ a, Stored (s.create entry) a → a < s.nAttempts := by
    rintro a (ha | ha)
    · exact (hk.tabled.ack _ a ha).1
    · exact (hk.tabled.res _ a ha).1
  refine h.shrink (fun _ hc => hc) (Nat.le_add_right _ _) (fun a ha => by rw [hold a ha])
    (fun a ha => by rw [hold a (hlt a ha)]) (fun a ha => ?_) (fun _ _ => rfl) fun _ _ => rfl
  rw [Stored, hold a (hlt a ha)] at ha
  exact ha

theorem enrolled_event (h : Enrolled s) (he : Env s t) (hev : Event s l t)
    (hres : ∀ m ∈ handledRes s l, s.rLookup m.2.1 ≠ none →
      m.2.1 ∈ (s.conn m.1).rExecPending → s.ackLookup m.2.1 = none) : Enrolled t := by
  have hpc : ∀ a, (t.attempt a).pc = (s.attempt a).pc := fun a => (he.attempt a).pc
  have hid : ∀ a, (t.attempt a).tempEID = (s.attempt a).tempEID := fun a => (he.attempt a).tempEID
  have hst : ∀ a, Stored t a → Stored s a := fun a =>
    Stored.mono (fun id => he.ackLookup id a) (fun id => he.rLookup id a) (hid a)
  cases hev with
  | ack hl hack =>
    refine h.shrink (fun c hc => (hack.hosts.owned c).mp hc) (Nat.le_of_eq he.nAttempts.symm)
      (fun a _ => hpc a) (fun a _ => hid a) hst ?_ ?_ <;> simp [hack.conn]
  | @res c id a args hl hhandled =>
    have hown : ∀ d, t.Owned d → s.Owned d := fun d hd => (hhandled.hosts.owned d).mp hd
    refine ⟨?_, ?_, ?_⟩
    · intro d b hd hb
      rw [hhandled.sent] at hb
      rw [he.nAttempts, hpc]
      exact h.known d b (hown d hd) hb
    · intro d b hd hb hs
      rw [hhandled.sent] at hb
      have hmem := h.sent d b (hown d hd) hb (hst b hs)
      rw [hhandled.pending, hid b]
      split
      · next hdc =>
        subst hdc
        refine List.mem_filter.mpr ⟨hmem, ?_⟩
        -- the identifier is taken out, and it is a key no more
        rw [decide_eq_true_eq]
        intro heq
        have hnone := hres _ hl (by simp [hhandled.key]) (heq ▸ hmem)
        rcases hs with hs | hs
        · rw [hid b, heq, hhandled.ackLookup, hnone] at hs
          cases hs
        · rw [hid b, heq, hhandled.rLookup, Function.update_self] at hs
          cases hs
      · exact hmem
    · intro d b hd hb hs
      rw [hhandled.sent]
      refine h.pending d b (hown d hd) ?_ (hst b hs)
      rw [hhandled.pending, hid b] at hb
      split at hb
      · exact (List.mem_filter.mp hb).1
      · exact hb
  | turned hturn =>
    have hcase : ∀ d, t.Owned d → s.Owned d ∧ (t.conn d).sent = (s.conn d).sent ∧
        (t.conn d).rExecPending = (s.conn d).rExecPending ∨
        (t.conn d).sent = [] ∧ (t.conn d).rExecPending = [] := by
      intro d hd
      rcases hturn.owned d hd with ⟨hold, -⟩ | ⟨-, hnil, hnil'⟩
      · exact .inl ⟨hold, hturn.swept.sent d hold, hturn.swept.pending d hold⟩
      · exact .inr ⟨hnil', hnil⟩
    refine ⟨?_, ?_, ?_⟩
    · intro d b hd hb
      rw [he.nAttempts, hpc]
      rcases hcase d hd with ⟨hold, hsent, -⟩ | ⟨hnil, -⟩
      · exact h.known d b hold (hsent ▸ hb)
      · simp [hnil] at hb
    · intro d b hd hb hs
      rcases hcase d hd with ⟨hold, hsent, hpend⟩ | ⟨hnil, -⟩
      · rw [hpend, hid b]
        exact h.sent d b hold (hsent ▸ hb) (hst b hs)
      · simp [hnil] at hb
    · intro d b hd hb hs
      rcases hcase d hd with ⟨hold, hsent, hpend⟩ | ⟨-, hnil⟩
      · rw [hpend, hid b] at hb
        rw [hsent]
        exact h.pending d b hold hb (hst b hs)
      · simp [hnil] at hb

theorem enrolled_register (h : Enrolled s) (ha : a < s.nAttempts)
    (hpc : (s.attempt a).pc = .start)
    (hown : Own s (s.register a c) a) (hkind : (s.attempt a).kind.enrols = true)
    (hfresh : s.rLookup s.eIdFactory = none ∧
      ∀ d, s.Owned d → s.eIdFactory ∉ (s.conn d).rExecPending) : Enrolled (s.register a c) := by
  obtain ⟨hack, hres, -⟩ := register_tables s a c
  have howned : ∀ d, (s.register a c).Owned d → s.Owned d := by
    intro d hd
    rwa [State.Owned, hown.mainFogInfo, hown.cloudFogInfo] at hd
  have hnew : ∀ d, s.Owned d → a ∉ (s.conn d).sent := fun d hd hmem => (h.known d a hd hmem).2 hpc
  have hself : ((s.register a c).attempt a).tempEID = s.eIdFactory := by simp
  have hsent : ∀ d b, b ∈ ((s.register a c).conn d).sent ↔ b = a ∧ c = d ∨ b ∈ (s.conn d).sent := by
    intro d b
    rw [register_sent]
    by_cases hcd : c = d <;> simp [hcd]
  have hpend : ∀ d id, s.Owned d → (id ∈ ((s.register a c).conn d).rExecPending ↔
      id = s.eIdFactory ∧ c = d ∨ id ∈ (s.conn d).rExecPending) := by
    intro d id hd
    rw [register_pending, enrolled_of_enrols hkind]
    by_cases hcd : c = d
    · simp [hcd, hfresh.2 d hd]
    · simp [hcd]
  refine ⟨?_, ?_, ?_⟩
  · intro d b hd hb
    rw [hown.nAttempts]
    rcases (hsent d b).mp hb with ⟨rfl, -⟩ | hb
    · exact ⟨ha, by simp⟩
    · have hba : b ≠ a := fun heq => hnew d (howned d hd) (heq ▸ hb)
      rw [hown.attempt b hba]
      exact h.known d b (howned d hd) hb
  · intro d b hd hb hs
    rw [hpend d _ (howned d hd)]
    rcases (hsent d b).mp hb with ⟨rfl, hcd⟩ | hb
    · exact .inl ⟨hself, hcd⟩
    · have hba : b ≠ a := fun heq => hnew d (howned d hd) (heq ▸ hb)
      rw [hown.attempt b hba]
      exact .inr (h.sent d b (howned d hd) hb (stored_of_register hown hba hs))
  · intro d b hd hb hs
    rw [hpend d _ (howned d hd)] at hb
    rw [hsent]
    by_cases hba : b = a
    · subst hba
      rw [hself] at hb
      rcases hb with hb | hb
      · exact .inl ⟨rfl, hb.2⟩
      · exact absurd hb (hfresh.2 d (howned d hd))
    · rw [hown.attempt b hba] at hb
      rcases hb with ⟨heq, -⟩ | hb
      · -- the new identifier belongs to `a` alone
        rw [Stored, hown.attempt b hba, heq, hack, hres, Function.update_self] at hs
        rcases hs with hs | hs
        · exact absurd (Option.some.inj hs).symm hba
        · split at hs
          · rw [Function.update_self] at hs
            exact absurd (Option.some.inj hs).symm hba
          · rw [hfresh.1] at hs
            cases hs
      · exact .inr (h.pending d b (howned d hd) hb (stored_of_register hown hba hs))

theorem enrolled_advance (hk : Kept s) (h : Enrolled s) (ha : a < s.nAttempts)
    (ho : Orderly s (.attempt a)) : Enrolled (s.advance a) := by
  have hown := own_advance s a
  rcases advance_cases (hk.sane.fits a ha) with ⟨c, hpc, hup, heq⟩ | ⟨hnot, hq⟩
  · rw [heq] at hown ⊢
    have hreg := Registers.of_up ha hpc hup
    obtain ⟨-, hkey, hpend⟩ := ho.fresh hreg
    have hkind := ho.attempt a rfl c (by simp [uses, hpc, hup])
    rw [if_pos hpc] at hkind
    exact enrolled_register h ha hpc hown hkind ⟨hkey, hpend⟩
  · have howned : ∀ d, (s.advance a).Owned d → s.Owned d := by
      intro d hd
      rwa [State.Owned, hown.mainFogInfo, hown.cloudFogInfo] at hd
    have hid : ∀ b, ((s.advance a).attempt b).tempEID = (s.attempt b).tempEID := by
      intro b
      by_cases hba : b = a
      · rw [hba, hq.tempEID]
      · rw [hown.attempt b hba]
    have hst : ∀ b, Stored (s.advance a) b ↔ Stored s b := by
      intro b
      rw [Stored, Stored, hid, hq.ackLookup, hq.rLookup]
    have hpend : ∀ d, ((s.advance a).conn d).rExecPending = (s.conn d).rExecPending := by
      intro d
      rw [hq.conn]
    -- a publication of an outstanding request adds nothing new
    have hsent : ∀ d b, b ∈ ((s.advance a).conn d).sent →
        b ∈ (s.conn d).sent ∨ b = a ∧ (Stored s a → a ∈ (s.conn d).sent) := by
      intro d b hb
      rw [advance_sent] at hb
      split at hb
      · next huse =>
        rcases List.mem_cons.mp hb with rfl | hb
        · refine .inr ⟨rfl, fun hs => ?_⟩
          have hpc : (s.attempt b).pc ≠ .start := by
            intro hpc
            simp [uses, hpc, hnot hpc] at huse
          have hsame := ho.attempt b rfl d huse
          rw [if_neg hpc] at hsame
          exact hsame hs
        · exact .inl hb
      · exact .inl hb
    refine ⟨?_, ?_, ?_⟩
    · intro d b hd hb
      rw [hown.nAttempts]
      by_cases hba : b = a
      · subst hba
        rw [advance_pc]
        exact ⟨ha, nextPc_ne_start s b⟩
      · rw [hown.attempt b hba]
        rcases hsent d b hb with hb | ⟨hb, -⟩
        · exact h.known d b (howned d hd) hb
        · exact absurd hb hba
    · intro d b hd hb hs
      rw [hpend, hid]
      have hold := (hst b).mp hs
      rcases hsent d b hb with hb | ⟨rfl, hb⟩
      · exact h.sent d b (howned d hd) hb hold
      · exact h.sent d b (howned d hd) (hb hold) hold
    · intro d b hd hb hs
      rw [hpend, hid] at hb
      have hmem := h.pending d b (howned d hd) hb ((hst b).mp hs)
      rw [advance_sent]
      split
      · exact List.mem_cons_of_mem _ hmem
      · exact hmem

theorem enrolled_step (hk : Kept s) (h : Enrolled s) (ho : Orderly s l) (hst : step s l = some t) :
    Enrolled t := by
  obtain ⟨-, ⟨entry, rfl, rfl⟩ | ⟨a, rfl, ha, -, rfl⟩ | ⟨he, hna, hnc⟩⟩ := step_cases hst
  · exact enrolled_create hk h entry
  · exact enrolled_advance hk h ha ho
  · exact enrolled_event h he (step_event hk.linked hk.tabled hk.intact hna hnc hst)
      ho.acknowledged

end Enrolled

section Tracked

/-- Each request sent through a live connection and still outstanding is pending there and at no
other one. -/
def Tracked (s : State) : Prop :=
  ∀ c a, s.Owned c → a ∈ (s.conn c).sent → Stored s a →
    (s.attempt a).tempEID ∈ (s.conn c).rExecPending ∧
      ∀ d, s.Owned d → d ≠ c → (s.attempt a).tempEID ∉ (s.conn d).rExecPending

/-- The step fails the promises of the outstanding requests that were sent through the
connections it clears, and no others; a registration does not crash. -/
def FailsExactly (s : State) (l : Label) : Prop :=
  ∀ t, step s l = some t → (Registers s l → t.crashed = false) ∧ ∀ a,
    ((t.attempt a).ack = some false ∧ (s.attempt a).ack ≠ some false ↔
      ∃ c, Clears s l c ∧ a ∈ (s.conn c).sent ∧ s.ackLookup (s.attempt a).tempEID = some a) ∧
    ((t.attempt a).res = some (false, .obj []) ∧ (s.attempt a).res ≠ some (false, .obj []) ↔
      ∃ c, Clears s l c ∧ a ∈ (s.conn c).sent ∧ s.rLookup (s.attempt a).tempEID = some a)

variable {s t : State} {a : Nat} {c : Ptr} {l : Label}

theorem Enrolled.tracked (h : Enrolled s) (hk : Kept s) : Tracked s := by
  intro c a hc ha hs
  have hmem := h.sent c a hc ha hs
  refine ⟨hmem, fun d hd hne hmem' => ?_⟩
  exact hne (hk.intact.single d c _ hd hc hmem' hmem)

theorem Enrolled.awaitsAck_iff (h : Enrolled s) (ht : Tabled s) (hc : s.Owned c) :
    s.AwaitsAck c a ↔ a ∈ (s.conn c).sent ∧ s.ackLookup (s.attempt a).tempEID = some a := by
  constructor
  · rintro ⟨id, hid, ha⟩
    obtain rfl := (ht.ack id a ha).2.2
    exact ⟨h.pending c a hc hid (.inl ha), ha⟩
  · rintro ⟨hsent, ha⟩
    exact ⟨_, h.sent c a hc hsent (.inl ha), ha⟩

theorem Enrolled.awaitsRes_iff (h : Enrolled s) (ht : Tabled s) (hc : s.Owned c) :
    s.AwaitsRes c a ↔ a ∈ (s.conn c).sent ∧ s.rLookup (s.attempt a).tempEID = some a := by
  constructor
  · rintro ⟨id, hid, ha⟩
    obtain rfl := (ht.res id a ha).2.2.1
    exact ⟨h.pending c a hc hid (.inr ha), ha⟩
  · rintro ⟨hsent, ha⟩
    exact ⟨_, h.sent c a hc hsent (.inr ha), ha⟩

/-- A step that clears nothing fails nothing. -/
theorem fails_none (hno : ∀ c, ¬ Clears s l c)
    (hack : ∀ a, (t.attempt a).ack = some false → (s.attempt a).ack = some false)
    (hres : ∀ a, (t.attempt a).res = some (false, .obj []) →
      (s.attempt a).res = some (false, .obj [])) (a : Nat) :
    ((t.attempt a).ack = some false ∧ (s.attempt a).ack ≠ some false ↔
      ∃ c, Clears s l c ∧ a ∈ (s.conn c).sent ∧ s.ackLookup (s.attempt a).tempEID = some a) ∧
    ((t.attempt a).res = some (false, .obj []) ∧ (s.attempt a).res ≠ some (false, .obj []) ↔
      ∃ c, Clears s l c ∧ a ∈ (s.conn c).sent ∧ s.rLookup (s.attempt a).tempEID = some a) := by
  refine ⟨⟨?_, ?_⟩, ?_, ?_⟩
  · rintro ⟨h, hne⟩
    exact absurd (hack a h) hne
  · rintro ⟨c, hc, -⟩
    exact absurd hc (hno c)
  · rintro ⟨h, hne⟩
    exact absurd (hres a h) hne
  · rintro ⟨c, hc, -⟩
    exact absurd hc (hno c)

theorem fails_turned (hk : Kept s) (h : Enrolled s) (hturn : Turned s t (Clears s l)) (a : Nat) :
    ((t.attempt a).ack = some false ∧ (s.attempt a).ack ≠ some false ↔
      ∃ c, Clears s l c ∧ a ∈ (s.conn c).sent ∧ s.ackLookup (s.attempt a).tempEID = some a) ∧
    ((t.attempt a).res = some (false, .obj []) ∧ (s.attempt a).res ≠ some (false, .obj []) ↔
      ∃ c, Clears s l c ∧ a ∈ (s.conn c).sent ∧ s.rLookup (s.attempt a).tempEID = some a) := by
  refine ⟨⟨?_, ?_⟩, ?_, ?_⟩
  · rintro ⟨hfail, hne⟩
    by_contra hno
    refine hne (hturn.swept.ackKept a (fun c hc hw => hno ⟨c, hc, ?_⟩) ▸ hfail)
    exact (h.awaitsAck_iff hk.tabled hc.1).mp hw
  · rintro ⟨c, hc, hsent, ha⟩
    have hw := (h.awaitsAck_iff hk.tabled hc.1).mpr ⟨hsent, ha⟩
    refine ⟨hturn.swept.ackFailed c a hc hw, ?_⟩
    obtain ⟨id, hid, ha⟩ := hw
    simp [hk.intact.ack c id a hc.1 hid ha]
  · rintro ⟨hfail, hne⟩
    by_contra hno
    refine hne (hturn.swept.resKept a (fun c hc hw => hno ⟨c, hc, ?_⟩) ▸ hfail)
    exact (h.awaitsRes_iff hk.tabled hc.1).mp hw
  · rintro ⟨c, hc, hsent, ha⟩
    have hw := (h.awaitsRes_iff hk.tabled hc.1).mpr ⟨hsent, ha⟩
    refine ⟨hturn.swept.resFailed c a hc hw, ?_⟩
    obtain ⟨id, hid, ha⟩ := hw
    simp [hk.intact.res c id a hc.1 hid ha]

/-- The registration of an entry point that enrols at the connection it uses. -/
theorem register_crashed (hkind : (s.attempt a).kind.enrols = true) :
    (s.register a c).crashed = s.crashed := by
  unfold State.register State.enrol
  cases hk : (s.attempt a).kind with
  | async => simp [hk, Kind.enrols] at hkind
  | asyncNT host => cases host <;> simp [hk, Kind.enrols] at hkind ⊢; rfl
  | syncTask host => cases host <;> simp [hk, Kind.enrols] at hkind ⊢; rfl
  | syncTimeout => rfl

theorem failsExactly (hk : Kept s) (h : Enrolled s) (ho : Orderly s l) : FailsExactly s l := by
  intro t hst
  obtain ⟨hrun, ⟨entry, rfl, rfl⟩ | ⟨b, rfl, hb, -, rfl⟩ | ⟨he, hna, hnc⟩⟩ := step_cases hst
  · refine ⟨fun hreg => hreg.elim, fails_none (by simp [Clears]) (fun a => ?_) fun a => ?_⟩
    all_goals
      rcases create_attempt s entry a with ⟨heq, -⟩ | ⟨-, -, kind, -, heq⟩ <;> simp [heq]
  · have hown := own_advance s b
    refine ⟨fun hreg => ?_, fails_none (by simp [Clears]) (fun a => ?_) fun a => ?_⟩
    · obtain ⟨-, hpc, hup⟩ := id hreg
      obtain ⟨c, hc⟩ := Option.ne_none_iff_exists'.mp hup
      have hadv : s.advance b = s.register b c := by simp [State.advance, hpc, hc]
      have hkind := ho.attempt b rfl c (by simp [uses, hpc, hc])
      rw [if_pos hpc] at hkind
      rw [hadv, register_crashed hkind, hrun]
    · by_cases hab : a = b
      · rw [hab, hown.ack]
        exact id
      · rw [hown.attempt a hab]
        exact id
    · by_cases hab : a = b
      · rw [hab, hown.res]
        exact id
      · rw [hown.attempt a hab]
        exact id
  · have hnot : ¬ Registers s l := by
      cases l with
      | attempt a => exact absurd rfl (hna a)
      | _ => exact id
    refine ⟨fun hreg => absurd hreg hnot, ?_⟩
    cases step_event hk.linked hk.tabled hk.intact hna hnc hst with
    | @ack id b hl hack =>
      refine fails_none hl (fun a => ?_) fun a => ?_
      · by_cases hab : a = b
        · simp [hab, hack.ack]
        · rw [hack.other a hab]
          exact fun h => h
      · by_cases hab : a = b
        · rw [hab, hack.res]
          exact fun h => h
        · rw [hack.other a hab]
          exact fun h => h
    | @res c id b args hl hres =>
      refine fails_none (not_clears_of_handledRes hl) (fun a => ?_) fun a => ?_
      · by_cases hab : a = b
        · rw [hab, hres.ack]
          exact fun h => h
        · rw [hres.other a hab]
          exact fun h => h
      · by_cases hab : a = b
        · simp [hab, hres.res]
        · rw [hres.other a hab]
          exact fun h => h
    | turned hturn => exact fails_turned hk h hturn

/-- In every run whose steps are in order, every outstanding request sent through a connection is
pending there and nowhere else, every step that clears connections fails exactly the outstanding
requests sent through them, and no registration crashes. -/
theorem requests_tracked (appId : String) (funcs : List String) (eid : Nat) (fresh : Ptr)
    (ls : List Label) (h : Along step Orderly (init appId funcs eid fresh) ls) :
    Always step Tracked (init appId funcs eid fresh) ls ∧
      Along step FailsExactly (init appId funcs eid fresh) ls := by
  have hstep : ∀ s l t, Kept s ∧ Enrolled s → Orderly s l → step s l = some t →
      Kept t ∧ Enrolled t := by
    rintro s l t ⟨hk, he⟩ ho hst
    exact ⟨kept_step hk ho.fresh hst, enrolled_step hk he ho hst⟩
  have hinit : Kept (init appId funcs eid fresh) ∧ Enrolled (init appId funcs eid fresh) :=
    ⟨kept_init .., enrolled_init ..⟩
  exact ⟨always_invariant_along hstep (fun s hs => hs.2.tracked hs.1) hinit h,
    along_invariant_along hstep (fun s l hs ho => failsExactly hs.1 hs.2 ho) hinit h⟩

/-- A request through the main connection, which expires while a host stays. -/
def requestExpires : List Label :=
  [.arrived 0 "/app/announce/down" registerAckMsg 0 1,
    .arrived 0 "/app/announce/down" (putCFInfoMsg "ADD" 3 "fog") 0 1, .call .sync, .attempt 0,
    .attempt 0, .checkExpire 2,
    .arrived 1 "/app/announce/down" (.obj [("cmd", .str "PING")]) 0 2, .checkExpire 2]

theorem requests_tracked_request_expires :
    (∃ s, run step (init "app" [] 7 0) requestExpires = some s ∧ s.isValidConnection = [1] ∧
      (s.attempt 0).ack = some false ∧ (s.attempt 0).res.map Prod.fst = some false) ∧
    Always step Tracked (init "app" [] 7 0) requestExpires ∧
      Along step FailsExactly (init "app" [] 7 0) requestExpires :=
  ⟨run_reaches (by decide),
    requests_tracked "app" [] 7 0 requestExpires (by decide)⟩

/-- A host's synchronous attempt behind an expired main connection. -/
def hostWithoutMain : List Label :=
  [.arrived 0 "/app/announce/down" (putCFInfoMsg "ADD" 3 "fog") 0 1, .call .syncEach,
    .checkExpire 2, .arrived 1 "/app/announce/down" (.obj [("cmd", .str "PING")]) 0 2,
    .checkExpire 2, .attempt 1]

/-- `CreateRExecAsyncWithCallback` registers a request that is pending nowhere, and the host variant
of `CreateRetryTaskSync` dereferences the main connection that is not there. -/
theorem requests_not_tracked :
    (∃ s, run step (init "app" [] 7 0)
      [.arrived 0 "/app/announce/down" registerAckMsg 0 1, .call .async, .attempt 0] = some s ∧
        (s.conn 0).sent = [0] ∧ s.ackLookup 7 = some 0 ∧ (s.conn 0).rExecPending = [] ∧
        ¬ Tracked s) ∧
      ∃ s, run step (init "app" [] 7 0) hostWithoutMain = some s ∧ s.mainFogInfo = none ∧
        s.crashed = true := by
  constructor
  · obtain ⟨s, hr, hown, hid, hsent, hkey, hnil⟩ : ∃ s, run step (init "app" [] 7 0)
        [.arrived 0 "/app/announce/down" registerAckMsg 0 1, .call .async, .attempt 0] = some s ∧
        s.mainFogInfo = some 0 ∧ (s.attempt 0).tempEID = 7 ∧ (s.conn 0).sent = [0] ∧
        s.ackLookup 7 = some 0 ∧ (s.conn 0).rExecPending = [] :=
      run_reaches (by decide)
    refine ⟨s, hr, hsent, hkey, hnil, fun h => ?_⟩
    have := (h 0 0 (.inl hown) (by simp [hsent]) (.inl (by rw [hid, hkey]))).1
    simp [hnil] at this
  · exact run_reaches (by decide)

end Tracked

end JamSched.Remote
