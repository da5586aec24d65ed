import JamSched.Remote.Tables
import Mathlib.Data.List.Nodup

/-!
# Clearing connections

`CloudFogInfo::Clear` fails the promises under the pending identifiers of a connection and stops
with an exception at the first promise that is satisfied already. `Intact` is the condition
under which a set of connections can be cleared one after the other: no identifier is pending
at two of them and the promises under pending identifiers are open. `Swept` says what is then
left: exactly those promises have failed.
-/
namespace JamSched.Remote

open Machine

section Clear

/-- A loop of `Clear` over open promises completes exactly these. -/
theorem failEach_ok (lookup : State → Nat → Option Nat) (complete : State → Nat → Result)
    (isOpen : Attempt → Prop) (done : Attempt → Attempt)
    (hcomplete : ∀ s a, isOpen (s.attempt a) → complete s a = .ok (s.updAttempt a done))
    (hlookup : ∀ s a, lookup (s.updAttempt a done) = lookup s) {s : State} {ids : List Nat}
    (hn : ids.Nodup) (hinj : ∀ id id' a, lookup s id = some a → lookup s id' = some a → id = id')
    (hopen : ∀ id ∈ ids, ∀ a, lookup s id = some a → isOpen (s.attempt a)) :
    ∃ f, failEach lookup complete s ids = .ok { s with attempt := f } ∧
      ∀ a, f a = if ∃ id ∈ ids, lookup s id = some a then done (s.attempt a) else s.attempt a := by
  induction ids generalizing s with
  | nil => exact ⟨s.attempt, rfl, by simp⟩
  | cons id ids ih =>
    obtain ⟨hid, hn⟩ := List.nodup_cons.mp hn
    cases hb : lookup s id with
    | none =>
      obtain ⟨f, hf, hattempt⟩ := ih hn hinj fun i hi => hopen i (List.mem_cons_of_mem _ hi)
      exact ⟨f, by simpa [failEach, hb] using hf, by simpa [hb] using hattempt⟩
    | some b =>
      have hother : ∀ i ∈ ids, lookup s i ≠ some b := by
        intro i hi hib
        exact hid (hinj i id b hib hb ▸ hi)
      obtain ⟨f, hf, hattempt⟩ := ih (s := s.updAttempt b done) hn (by rwa [hlookup]) (by
        intro i hi a ha
        rw [hlookup] at ha
        have hab : a ≠ b := fun hab => hother i hi (hab ▸ ha)
        simpa [State.updAttempt, Function.update_of_ne hab] using
          hopen i (List.mem_cons_of_mem _ hi) a ha)
      refine ⟨f, ?_, ?_⟩
      · simp only [failEach, hb, hcomplete s b (hopen id (List.mem_cons_self ..) b hb)]
        exact hf
      · intro a
        rw [hattempt a, hlookup]
        by_cases hab : a = b
        · subst hab
          have hnone : ¬ ∃ i ∈ ids, lookup s i = some a := by
            rintro ⟨i, hi, hia⟩
            exact hother i hi hia
          simp [hnone, hb]
        · have hne : lookup s id ≠ some a := by
            rw [hb]
            exact fun h => hab (Option.some.inj h).symm
          simp [State.updAttempt, Function.update_of_ne hab, hne]

/-- Attempt `a` has its promise in `ackLookup` under an identifier that is pending at `c`. -/
def State.AwaitsAck (s : State) (c : Ptr) (a : Nat) : Prop :=
  ∃ id ∈ (s.conn c).rExecPending, s.ackLookup id = some a

/-- Attempt `a` has its promise in `rLookup` under an identifier that is pending at `c`. -/
def State.AwaitsRes (s : State) (c : Ptr) (a : Nat) : Prop :=
  ∃ id ∈ (s.conn c).rExecPending, s.rLookup id = some a

instance (s : State) (c : Ptr) (a : Nat) : Decidable (s.AwaitsAck c a) :=
  inferInstanceAs (Decidable (∃ id ∈ (s.conn c).rExecPending, s.ackLookup id = some a))

instance (s : State) (c : Ptr) (a : Nat) : Decidable (s.AwaitsRes c a) :=
  inferInstanceAs (Decidable (∃ id ∈ (s.conn c).rExecPending, s.rLookup id = some a))

/-- The connections of `A` can be cleared: no identifier is pending at two of them, and the
promises under their pending identifiers are open. -/
structure Intact (s : State) (A : Ptr → Prop) : Prop where
  nodup : ∀ c, A c → (s.conn c).rExecPending.Nodup
  single : ∀ c d id, A c → A d → id ∈ (s.conn c).rExecPending → id ∈ (s.conn d).rExecPending → c = d
  ack : ∀ c id a, A c → id ∈ (s.conn c).rExecPending → s.ackLookup id = some a →
    (s.attempt a).ack = none
  res : ∀ c id a, A c → id ∈ (s.conn c).rExecPending → s.rLookup id = some a →
    (s.attempt a).res = none

theorem Intact.mono {s : State} {A B : Ptr → Prop} (h : Intact s A) (hAB : ∀ c, B c → A c) :
    Intact s B :=
  ⟨fun c hc => h.nodup c (hAB c hc), fun c d id hc hd => h.single c d id (hAB c hc) (hAB d hd),
    fun c id a hc => h.ack c id a (hAB c hc), fun c id a hc => h.res c id a (hAB c hc)⟩

/-- What `Clear` does to open promises: those under the pending identifiers fail. -/
structure Cleared (s t : State) (c : Ptr) : Prop where
  same : t = { s with conn := t.conn, attempt := t.attempt }
  conn : t.conn = Function.update s.conn c { s.conn c with isRegistered := false }
  attempt : ∀ a, t.attempt a = { s.attempt a with
    ack := if s.AwaitsAck c a then some false else (s.attempt a).ack
    res := if s.AwaitsRes c a then some (false, .obj []) else (s.attempt a).res }

variable {s t : State} {A : Ptr → Prop} {c : Ptr}

theorem failAcks_ok (ht : Tabled s) {ids : List Nat} (hn : ids.Nodup)
    (hopen : ∀ id ∈ ids, ∀ a, s.ackLookup id = some a → (s.attempt a).ack = none) :
    ∃ f, failAcks s ids = .ok { s with attempt := f } ∧
      ∀ a, f a = if ∃ id ∈ ids, s.ackLookup id = some a then { s.attempt a with ack := some false }
        else s.attempt a := by
  refine failEach_ok State.ackLookup (fun s a => setAck s a false) (fun t => t.ack = none)
    (fun t => { t with ack := some false }) ?_ (fun _ _ => rfl) hn ?_ hopen
  · intro s a ha
    simp [setAck, ha]
  · intro id id' a hi hi'
    exact (ht.ack id a hi).2.2.symm.trans (ht.ack id' a hi').2.2

theorem failResults_ok (ht : Tabled s) {ids : List Nat} (hn : ids.Nodup)
    (hopen : ∀ id ∈ ids, ∀ a, s.rLookup id = some a → (s.attempt a).res = none) :
    ∃ f, failResults s ids = .ok { s with attempt := f } ∧
      ∀ a, f a = if ∃ id ∈ ids, s.rLookup id = some a then
          { s.attempt a with res := some (false, .obj []) }
        else s.attempt a := by
  refine failEach_ok State.rLookup (fun s a => setRes s a (false, .obj [])) (fun t => t.res = none)
    (fun t => { t with res := some (false, .obj []) }) ?_ (fun _ _ => rfl) hn ?_ hopen
  · intro s a ha
    simp [setRes, ha]
  · intro id id' a hi hi'
    exact (ht.res id a hi).2.2.1.symm.trans (ht.res id' a hi').2.2.1

theorem clear_ok (ht : Tabled s) (h : Intact s A) (hc : A c) :
    ∃ t, clear s c = .ok t ∧ Cleared s t c := by
  let s₁ := s.updConn c fun i => { i with isRegistered := false }
  have ht₁ : Tabled s₁ := tabled_env ht (.updConn _ _)
  obtain ⟨f, hf, hacks⟩ := failAcks_ok ht₁ (h.nodup c hc) fun id hid a ha => h.ack c id a hc hid ha
  have ht₂ : Tabled { s₁ with attempt := f } := by
    apply tabled_env ht₁
    have := env_failAcks s₁ (s.conn c).rExecPending
    rwa [hf] at this
  obtain ⟨g, hg, hress⟩ := failResults_ok ht₂ (h.nodup c hc) fun id hid a ha => by
    have := h.res c id a hc hid ha
    simp only [hacks]
    split <;> exact this
  refine ⟨{ s₁ with attempt := g }, ?_, rfl, rfl, ?_⟩
  · unfold clear
    rw [hf]
    exact hg
  · intro a
    by_cases hack : ∃ id ∈ (s.conn c).rExecPending, s.ackLookup id = some a <;>
      by_cases hres : ∃ id ∈ (s.conn c).rExecPending, s.rLookup id = some a <;>
      simp [hress, hacks, s₁, State.updConn, State.AwaitsAck, State.AwaitsRes, hack, hres]

end Clear

section Swept

/-- The connections of `D` were cleared; those of `A` keep what they have pending. -/
structure Swept (s t : State) (A D : Ptr → Prop) : Prop where
  ackLookup : t.ackLookup = s.ackLookup
  rLookup : t.rLookup = s.rLookup
  pending : ∀ c, A c → (t.conn c).rExecPending = (s.conn c).rExecPending
  sent : ∀ c, A c → (t.conn c).sent = (s.conn c).sent
  ackFailed : ∀ c a, D c → s.AwaitsAck c a → (t.attempt a).ack = some false
  ackKept : ∀ a, (∀ c, D c → ¬ s.AwaitsAck c a) → (t.attempt a).ack = (s.attempt a).ack
  resFailed : ∀ c a, D c → s.AwaitsRes c a → (t.attempt a).res = some (false, .obj [])
  resKept : ∀ a, (∀ c, D c → ¬ s.AwaitsRes c a) → (t.attempt a).res = (s.attempt a).res

variable {s t u : State} {A D E : Ptr → Prop} {c : Ptr}

/-- Nothing was cleared. -/
theorem Swept.of_eq (hk : t.ackLookup = s.ackLookup) (hr : t.rLookup = s.rLookup)
    (hp : ∀ c, A c → (t.conn c).rExecPending = (s.conn c).rExecPending)
    (hs : ∀ c, A c → (t.conn c).sent = (s.conn c).sent) (ha : t.attempt = s.attempt) :
    Swept s t A fun _ => False :=
  ⟨hk, hr, hp, hs, fun _ _ h => h.elim, fun _ _ => by rw [ha], fun _ _ h => h.elim,
    fun _ _ => by rw [ha]⟩

theorem Swept.awaitsAck_iff (h : Swept s t A D) (hc : A c) (a : Nat) :
    t.AwaitsAck c a ↔ s.AwaitsAck c a := by
  rw [State.AwaitsAck, State.AwaitsAck, h.pending c hc, h.ackLookup]

theorem Swept.awaitsRes_iff (h : Swept s t A D) (hc : A c) (a : Nat) :
    t.AwaitsRes c a ↔ s.AwaitsRes c a := by
  rw [State.AwaitsRes, State.AwaitsRes, h.pending c hc, h.rLookup]

theorem Swept.trans (h : Swept s t A D) (g : Swept t u A E) (hE : ∀ c, E c → A c) :
    Swept s u A fun c => D c ∨ E c where
  ackLookup := g.ackLookup.trans h.ackLookup
  rLookup := g.rLookup.trans h.rLookup
  pending c hc := (g.pending c hc).trans (h.pending c hc)
  sent c hc := (g.sent c hc).trans (h.sent c hc)
  ackFailed c a hc hw := by
    by_cases hlate : ∃ d, E d ∧ t.AwaitsAck d a
    · obtain ⟨d, hd, hdw⟩ := hlate
      exact g.ackFailed d a hd hdw
    · have hkept := g.ackKept a fun d hd hdw => hlate ⟨d, hd, hdw⟩
      rcases hc with hc | hc
      · exact hkept.trans (h.ackFailed c a hc hw)
      · exact absurd ⟨c, hc, (h.awaitsAck_iff (hE c hc) a).mpr hw⟩ hlate
  ackKept a hno := by
    rw [g.ackKept a fun d hd hdw => hno d (.inr hd) ((h.awaitsAck_iff (hE d hd) a).mp hdw)]
    exact h.ackKept a fun d hd => hno d (.inl hd)
  resFailed c a hc hw := by
    by_cases hlate : ∃ d, E d ∧ t.AwaitsRes d a
    · obtain ⟨d, hd, hdw⟩ := hlate
      exact g.resFailed d a hd hdw
    · have hkept := g.resKept a fun d hd hdw => hlate ⟨d, hd, hdw⟩
      rcases hc with hc | hc
      · exact hkept.trans (h.resFailed c a hc hw)
      · exact absurd ⟨c, hc, (h.awaitsRes_iff (hE c hc) a).mpr hw⟩ hlate
  resKept a hno := by
    rw [g.resKept a fun d hd hdw => hno d (.inr hd) ((h.awaitsRes_iff (hE d hd) a).mp hdw)]
    exact h.resKept a fun d hd => hno d (.inl hd)

theorem Swept.congr (h : Swept s t A D) (hDE : ∀ c, D c ↔ E c) : Swept s t A E := by
  have : D = E := funext fun c => propext (hDE c)
  rwa [← this]

/-- The fields that `Swept` speaks of are the same. -/
theorem Swept.keep (h : Swept s t A D) (hk : u.ackLookup = t.ackLookup)
    (hr : u.rLookup = t.rLookup) (hc : u.conn = t.conn) (ha : u.attempt = t.attempt) :
    Swept s u A D := by
  constructor
  · exact hk.trans h.ackLookup
  · exact hr.trans h.rLookup
  · rw [hc]
    exact h.pending
  · rw [hc]
    exact h.sent
  · rw [ha]
    exact h.ackFailed
  · rw [ha]
    exact h.ackKept
  · rw [ha]
    exact h.resFailed
  · rw [ha]
    exact h.resKept

theorem Swept.mono {B : Ptr → Prop} (h : Swept s t A D) (hBA : ∀ c, B c → A c) : Swept s t B D :=
  ⟨h.ackLookup, h.rLookup, fun c hc => h.pending c (hBA c hc), fun c hc => h.sent c (hBA c hc),
    h.ackFailed, h.ackKept, h.resFailed, h.resKept⟩

theorem Cleared.swept (h : Cleared s t c) : Swept s t A (· = c) := by
  have hsame := h.same
  have hconn : ∀ d, (t.conn d).rExecPending = (s.conn d).rExecPending ∧
      (t.conn d).sent = (s.conn d).sent := by
    intro d
    rw [h.conn]
    by_cases hd : d = c
    · simp [hd]
    · simp [Function.update_of_ne hd]
  refine ⟨by rw [hsame], by rw [hsame], fun d _ => (hconn d).1, fun d _ => (hconn d).2, ?_, ?_,
    ?_, ?_⟩
  · rintro d a rfl hw
    rw [h.attempt, if_pos hw]
  · intro a hno
    rw [h.attempt, if_neg (hno c rfl)]
  · rintro d a rfl hw
    rw [h.attempt, if_pos hw]
  · intro a hno
    rw [h.attempt, if_neg (hno c rfl)]

/-- Clearing some connections leaves the promises of the others open. -/
theorem Intact.swept {B : Ptr → Prop} (h : Intact s B) (ht : Tabled s) (hsw : Swept s t A D)
    (hB : ∀ c, B c → A c) (hD : ∀ c, D c → B c) : Intact t fun c => B c ∧ ¬ D c := by
  refine ⟨?_, ?_, ?_, ?_⟩
  · intro c hc
    rw [hsw.pending c (hB c hc.1)]
    exact h.nodup c hc.1
  · intro c d id hc hd
    rw [hsw.pending c (hB c hc.1), hsw.pending d (hB d hd.1)]
    exact h.single c d id hc.1 hd.1
  · intro c id a hc hid ha
    rw [hsw.pending c (hB c hc.1)] at hid
    rw [hsw.ackLookup] at ha
    rw [hsw.ackKept a]
    · exact h.ack c id a hc.1 hid ha
    · rintro d hd ⟨i, hi, hia⟩
      have hii : i = id := (ht.ack i a hia).2.2.symm.trans (ht.ack id a ha).2.2
      have hcd := h.single c d id hc.1 (hD d hd) hid (hii ▸ hi)
      exact hc.2 (hcd ▸ hd)
  · intro c id a hc hid ha
    rw [hsw.pending c (hB c hc.1)] at hid
    rw [hsw.rLookup] at ha
    rw [hsw.resKept a]
    · exact h.res c id a hc.1 hid ha
    · rintro d hd ⟨i, hi, hia⟩
      have hii : i = id := (ht.res i a hia).2.2.1.symm.trans (ht.res id a ha).2.2.1
      have hcd := h.single c d id hc.1 (hD d hd) hid (hii ▸ hi)
      exact hc.2 (hcd ▸ hd)

/-- Steps that take pending identifiers and table entries away, and complete no promise that
stays in the tables. -/
theorem Intact.congr (h : Intact s A)
    (hp : ∀ c, A c → ((t.conn c).rExecPending).Sublist (s.conn c).rExecPending)
    (hack : ∀ id a, t.ackLookup id = some a →
      s.ackLookup id = some a ∧ (t.attempt a).ack = (s.attempt a).ack)
    (hres : ∀ id a, t.rLookup id = some a →
      s.rLookup id = some a ∧ (t.attempt a).res = (s.attempt a).res) : Intact t A := by
  refine ⟨?_, ?_, ?_, ?_⟩
  · intro c hc
    exact (hp c hc).nodup (h.nodup c hc)
  · intro c d id hc hd hi hi'
    exact h.single c d id hc hd ((hp c hc).subset hi) ((hp d hd).subset hi')
  · intro c id a hc hi ha
    obtain ⟨ha, heq⟩ := hack id a ha
    rw [heq]
    exact h.ack c id a hc ((hp c hc).subset hi) ha
  · intro c id a hc hi ha
    obtain ⟨ha, heq⟩ := hres id a ha
    rw [heq]
    exact h.res c id a hc ((hp c hc).subset hi) ha

/-- Connections with nothing pending can be added. -/
theorem Intact.extend (h : Intact s A) (hE : ∀ c, E c → A c ∨ (s.conn c).rExecPending = []) :
    Intact s E := by
  have hA : ∀ c id, E c → id ∈ (s.conn c).rExecPending → A c := by
    intro c id hc hid
    rcases hE c hc with hA | hnil
    · exact hA
    · simp [hnil] at hid
  refine ⟨?_, ?_, ?_, ?_⟩
  · intro c hc
    rcases hE c hc with hA | hnil
    · exact h.nodup c hA
    · simp [hnil]
  · intro c d id hc hd hi hi'
    exact h.single c d id (hA c id hc hi) (hA d id hd hi') hi hi'
  · intro c id a hc hi
    exact h.ack c id a (hA c id hc hi) hi
  · intro c id a hc hi
    exact h.res c id a (hA c id hc hi) hi

end Swept

section Loops

variable {s t : State} {A B : Ptr → Prop}

/-- Clearing connections leaves it alone which there are. -/
structure SameHosts (s t : State) : Prop where
  main : t.mainFogInfo = s.mainFogInfo
  hosts : t.cloudFogInfo = s.cloudFogInfo
  valid : t.isValidConnection = s.isValidConnection

theorem SameHosts.refl (s : State) : SameHosts s s := ⟨rfl, rfl, rfl⟩

theorem SameHosts.trans {u : State} (h : SameHosts s t) (g : SameHosts t u) : SameHosts s u :=
  ⟨g.main.trans h.main, g.hosts.trans h.hosts, g.valid.trans h.valid⟩

theorem SameHosts.owned (h : SameHosts s t) (c : Ptr) : t.Owned c ↔ s.Owned c := by
  rw [State.Owned, State.Owned, h.main, h.hosts]

theorem Cleared.sameHosts {c : Ptr} (h : Cleared s t c) : SameHosts s t := by
  have hsame := h.same
  exact ⟨by rw [hsame], by rw [hsame], by rw [hsame]⟩

theorem clear_tabled {c : Ptr} (ht : Tabled s) (h : clear s c = .ok t) : Tabled t := by
  have := framed_env.clear s c
  rw [h] at this
  exact tabled_env ht this

/-- The loop of `CancelAllRExecRequests` gets through. -/
theorem clearAll_ok (ht : Tabled s) (hosts : List (String × Ptr))
    (hn : (hosts.map Prod.snd).Nodup) (h : Intact s B) (hB : ∀ c, B c → A c)
    (hmem : ∀ p ∈ hosts, B p.2) :
    ∃ t, clearAll s hosts = .ok t ∧ Swept s t A (fun c => c ∈ hosts.map Prod.snd) ∧
      SameHosts s t := by
  induction hosts generalizing s B with
  | nil =>
    refine ⟨s, rfl, ?_, .refl s⟩
    exact (Swept.of_eq rfl rfl (fun _ _ => rfl) (fun _ _ => rfl) rfl).congr (by simp)
  | cons p hosts ih =>
    obtain ⟨hp, hn⟩ := List.nodup_cons.mp hn
    have hpB := hmem p (List.mem_cons_self ..)
    have hrest : ∀ q ∈ hosts, B q.2 ∧ ¬ q.2 = p.2 := by
      intro q hq
      exact ⟨hmem q (List.mem_cons_of_mem _ hq), fun heq => hp (heq ▸ List.mem_map_of_mem hq)⟩
    obtain ⟨u, hu, hcl⟩ := clear_ok ht h hpB
    have hint := h.swept ht (hcl.swept (A := A)) hB fun d hd => hd ▸ hpB
    obtain ⟨t, ht', hsw, hsame⟩ := ih (clear_tabled ht hu) hn hint (fun c hc => hB c hc.1) hrest
    refine ⟨t, ?_, ?_, hcl.sameHosts.trans hsame⟩
    · simp only [clearAll, hu]
      exact ht'
    · refine (hcl.swept.trans hsw ?_).congr fun c => ?_
      · intro d hd
        obtain ⟨q, hq, rfl⟩ := List.mem_map.mp hd
        exact hB _ (hmem q (List.mem_cons_of_mem _ hq))
      · rw [List.map_cons, List.mem_cons]

/-- The loop of `CheckExpire` gets through; it clears the expired hosts and names them. -/
theorem expireLoop_ok (ht : Tabled s) (expired : List String) (hosts : List (String × Ptr))
    (hn : (hosts.map Prod.snd).Nodup) (h : Intact s B) (hB : ∀ c, B c → A c)
    (hmem : ∀ p ∈ hosts, B p.2) :
    ∃ t, expireLoop s expired hosts =
        .ok (t, expired ++ (hosts.filter fun p => (s.conn p.2).isExpired).map Prod.fst) ∧
      Swept s t A (fun c => c ∈ hosts.map Prod.snd ∧ (s.conn c).isExpired = true) ∧
      SameHosts s t := by
  induction hosts generalizing s B expired with
  | nil =>
    refine ⟨s, by simp [expireLoop], ?_, .refl s⟩
    exact (Swept.of_eq rfl rfl (fun _ _ => rfl) (fun _ _ => rfl) rfl).congr (by simp)
  | cons p hosts ih =>
    obtain ⟨hp, hn⟩ := List.nodup_cons.mp hn
    have hpB := hmem p (List.mem_cons_self ..)
    have hne : ∀ c ∈ hosts.map Prod.snd, c ≠ p.2 := fun c hc heq => hp (heq ▸ hc)
    have hsub : ∀ c ∈ hosts.map Prod.snd, B c := by
      intro c hc
      obtain ⟨q, hq, rfl⟩ := List.mem_map.mp hc
      exact hmem q (List.mem_cons_of_mem _ hq)
    -- the hosts behind `p` are judged in a state with their old flags
    have hfilter : ∀ u : State, (∀ c ≠ p.2, (u.conn c).isExpired = (s.conn c).isExpired) →
        (hosts.filter fun q => (u.conn q.2).isExpired) =
          hosts.filter fun q => (s.conn q.2).isExpired := by
      intro u hu
      apply List.filter_congr
      intro q hq
      rw [hu q.2 (hne q.2 (List.mem_map_of_mem hq))]
    by_cases hexp : (s.conn p.2).isExpired = true
    · obtain ⟨u, hu, hcl⟩ := clear_ok ht h hpB
      have hflag : ∀ c ≠ p.2, (u.conn c).isExpired = (s.conn c).isExpired := by
        intro c hc
        rw [hcl.conn, Function.update_of_ne hc]
      have hint := h.swept ht (hcl.swept (A := A)) hB fun d hd => hd ▸ hpB
      obtain ⟨t, ht', hsw, hsame⟩ := ih (clear_tabled ht hu) (expired ++ [p.1]) hn hint
        (fun c hc => hB c hc.1) fun q hq =>
          ⟨hsub _ (List.mem_map_of_mem hq), hne _ (List.mem_map_of_mem hq)⟩
      refine ⟨t, ?_, ?_, hcl.sameHosts.trans hsame⟩
      · rw [hfilter u hflag, List.append_assoc] at ht'
        simp only [expireLoop, hexp, if_true, hu, List.filter_cons_of_pos, List.map_cons]
        exact ht'
      · refine (hcl.swept.trans hsw fun d hd => hB d (hsub d hd.1)).congr fun c => ?_
        rw [List.map_cons, List.mem_cons]
        constructor
        · rintro (rfl | ⟨hc, hexp'⟩)
          · exact ⟨.inl rfl, hexp⟩
          · exact ⟨.inr hc, by rwa [hflag c (hne c hc)] at hexp'⟩
        · rintro ⟨rfl | hc, hexp'⟩
          · exact .inl rfl
          · exact .inr ⟨hc, by rwa [hflag c (hne c hc)]⟩
    · have hflag : ∀ c ≠ p.2, ((s.updConn p.2 fun i => { i with isExpired := true }).conn
          c).isExpired = (s.conn c).isExpired := by
        intro c hc
        simp [State.updConn, Function.update_of_ne hc]
      have hmark : Swept s (s.updConn p.2 fun i => { i with isExpired := true }) A
          fun _ => False := by
        refine .of_eq rfl rfl (fun c _ => ?_) (fun c _ => ?_) rfl
        all_goals
          by_cases hc : c = p.2
          · simp [State.updConn, hc]
          · simp [State.updConn, Function.update_of_ne hc]
      have hint := (h.swept ht hmark hB fun d hd => hd.elim).mono fun c (hc : B c) =>
        ⟨hc, fun h => h⟩
      obtain ⟨t, ht', hsw, hsame⟩ := ih (tabled_env ht (.updConn p.2 _)) expired hn hint hB
        fun q hq => hsub _ (List.mem_map_of_mem hq)
      refine ⟨t, ?_, ?_, hsame.main, hsame.hosts, hsame.valid⟩
      · rw [hfilter _ hflag] at ht'
        have hskip : ((p :: hosts).filter fun q => (s.conn q.2).isExpired) =
            hosts.filter fun q => (s.conn q.2).isExpired := List.filter_cons_of_neg hexp
        rw [hskip, expireLoop, if_neg hexp]
        exact ht'
      · refine (hmark.trans hsw fun d hd => hB d (hsub d hd.1)).congr fun c => ?_
        rw [List.map_cons, List.mem_cons]
        constructor
        · rintro (hc | ⟨hc, hexp'⟩)
          · exact hc.elim
          · exact ⟨.inr hc, by rwa [hflag c (hne c hc)] at hexp'⟩
        · rintro ⟨rfl | hc, hexp'⟩
          · exact absurd hexp' hexp
          · exact .inr ⟨hc, by rwa [hflag c (hne c hc)]⟩

end Loops

end JamSched.Remote
