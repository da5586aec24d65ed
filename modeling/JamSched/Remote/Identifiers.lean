import JamSched.Remote.Tables

/-!
# Identifiers of executions

`eIdFactory` is a 32-bit counter, so an identifier comes back after `2 ^ 32` registrations. A
registration overwrites the promises of another attempt exactly when an entry has stayed in the
tables for that long, and entries do stay: nothing removes that of an attempt that timed out.
-/
namespace JamSched.Remote

open Machine

/-- The step is a registration. -/
def Registers (s : State) : Label → Prop
  | .attempt a => a < s.nAttempts ∧ (s.attempt a).pc = .start ∧ s.up (s.attempt a).kind ≠ none
  | _ => False

/-- A registration is given an identifier that is a key of one of the tables. -/
def Collides (s : State) (l : Label) : Prop :=
  Registers s l ∧ (s.ackLookup s.eIdFactory ≠ none ∨ s.rLookup s.eIdFactory ≠ none)

/-- One of the tables holds a promise of attempt `b`. -/
def Stored (s : State) (b : Nat) : Prop :=
  s.ackLookup (s.attempt b).tempEID = some b ∨ s.rLookup (s.attempt b).tempEID = some b

/-- At a registration, every attempt in the tables was registered less than `2 ^ 32`
registrations ago. -/
def YoungEntries (s : State) (l : Label) : Prop :=
  Registers s l → ∀ b, Stored s b → s.allocs < (s.attempt b).serial + 2 ^ 32

/-- Identifiers count the registrations, from the initial value of `eIdFactory`. -/
structure Numbered (eid : Nat) (s : State) : Prop where
  sane : Sane s
  tabled : Tabled s
  factory : s.eIdFactory = (eid + s.allocs) % 2 ^ 32
  number : ∀ a, (s.attempt a).registered = true →
    (s.attempt a).tempEID = (eid + (s.attempt a).serial) % 2 ^ 32 ∧
      (s.attempt a).serial < s.allocs
  age : ∀ b, Stored s b → s.allocs ≤ (s.attempt b).serial + 2 ^ 32

section Numbered

variable {eid : Nat} {s t : State} {l : Label}

theorem Stored.registered (h : Tabled s) {b : Nat} (hb : Stored s b) :
    (s.attempt b).registered = true := by
  rcases hb with hb | hb
  · exact (h.ack _ _ hb).2.1
  · exact (h.res _ _ hb).2.1

/-- A key of the tables is the identifier of an attempt that is stored there. -/
theorem stored_of_key (h : Tabled s) {id : Nat}
    (hk : s.ackLookup id ≠ none ∨ s.rLookup id ≠ none) :
    ∃ b, Stored s b ∧ (s.attempt b).tempEID = id := by
  rcases hk with hk | hk
  · obtain ⟨b, hb⟩ := Option.ne_none_iff_exists'.mp hk
    have heid := (h.ack id b hb).2.2
    exact ⟨b, .inl (by rw [heid, hb]), heid⟩
  · obtain ⟨b, hb⟩ := Option.ne_none_iff_exists'.mp hk
    have heid := (h.res id b hb).2.2.1
    exact ⟨b, .inr (by rw [heid, hb]), heid⟩

/-- A stored attempt has the next identifier exactly when it is `2 ^ 32` registrations old. -/
theorem Numbered.reused_iff (h : Numbered eid s) {b : Nat} (hb : Stored s b) :
    (s.attempt b).tempEID = s.eIdFactory ↔ ¬ s.allocs < (s.attempt b).serial + 2 ^ 32 := by
  obtain ⟨heid, hlt⟩ := h.number b (hb.registered h.tabled)
  have hage := h.age b hb
  rw [heid, h.factory]
  omega

theorem collides_iff (h : Numbered eid s) : ¬ Collides s l ↔ YoungEntries s l := by
  constructor
  · intro hno hreg b hb
    by_contra hold
    have heq := (h.reused_iff hb).mpr hold
    refine hno ⟨hreg, ?_⟩
    rw [Stored, heq] at hb
    rcases hb with hb | hb
    · exact .inl (by simp [hb])
    · exact .inr (by simp [hb])
  · rintro hyoung ⟨hreg, hk⟩
    obtain ⟨b, hb, heid⟩ := stored_of_key h.tabled hk
    exact (h.reused_iff hb).mp heid (hyoung hreg b hb)

theorem numbered_init (appId : String) (funcs : List String) (eid : Nat) (fresh : Ptr) :
    Numbered eid (init appId funcs eid fresh) := by
  refine ⟨sane_init .., tabled_init .., by simp [init], by simp [init], ?_⟩
  rintro b (hb | hb) <;> simp [init] at hb

/-- Steps that register nothing and give no attempt a new identifier. -/
theorem numbered_keep (h : Numbered eid s) (hs : Sane t) (ht : Tabled t)
    (hfac : t.eIdFactory = s.eIdFactory) (hall : t.allocs = s.allocs)
    (hack : ∀ id a, t.ackLookup id = some a → s.ackLookup id = some a)
    (hres : ∀ id a, t.rLookup id = some a → s.rLookup id = some a)
    (hattempt : ∀ a, (t.attempt a).registered = true → (s.attempt a).registered = true ∧
      (t.attempt a).tempEID = (s.attempt a).tempEID ∧ (t.attempt a).serial = (s.attempt a).serial) :
    Numbered eid t := by
  refine ⟨hs, ht, by rw [hfac, hall, h.factory], ?_, ?_⟩
  · intro a ha
    obtain ⟨hreg, heid, hser⟩ := hattempt a ha
    rw [heid, hser, hall]
    exact h.number a hreg
  · intro b hb
    obtain ⟨-, heid, hser⟩ := hattempt b (hb.registered ht)
    rw [hser, hall]
    apply h.age b
    rw [Stored, heid] at hb
    exact hb.imp (hack _ b) (hres _ b)

/-- An older entry, which the new one has not replaced. -/
theorem stored_of_register {a b : Nat} {c : Ptr} (hown : Own s (s.register a c) a) (hba : b ≠ a)
    (hb : Stored (s.register a c) b) : Stored s b := by
  obtain ⟨hack, hres, -⟩ := register_tables s a c
  rw [Stored, hack, hres, hown.attempt b hba] at hb
  have hne : ∀ {f : Nat → Option Nat} {id : Nat},
      Function.update f s.eIdFactory (some a) id = some b → f id = some b := by
    intro f id hf
    by_cases hid : id = s.eIdFactory
    · rw [hid, Function.update_self] at hf
      exact absurd (Option.some.inj hf).symm hba
    · rwa [Function.update_of_ne hid] at hf
  rcases hb with hb | hb
  · exact .inl (hne hb)
  · split at hb
    · exact .inr (hne hb)
    · exact .inr hb

theorem numbered_register {a : Nat} {c : Ptr} (h : Numbered eid s)
    (hown : Own s (s.register a c) a) (hs : Sane (s.register a c)) (ht : Tabled (s.register a c))
    (hpc : (s.attempt a).pc = .start)
    (hyoung : ∀ b, Stored s b → s.allocs < (s.attempt b).serial + 2 ^ 32) :
    Numbered eid (s.register a c) := by
  obtain ⟨-, -, hfac, hall, -⟩ := register_tables s a c
  refine ⟨hs, ht, ?_, ?_, ?_⟩
  · rw [hfac, hall, h.factory]
    omega
  · intro b hb
    rw [hall]
    by_cases hba : b = a
    · subst hba
      rw [State.register_self]
      exact ⟨h.factory, Nat.lt_succ_self _⟩
    · rw [hown.attempt b hba] at hb ⊢
      exact ⟨(h.number b hb).1, Nat.lt_succ_of_lt (h.number b hb).2⟩
  · intro b hb
    rw [hall]
    by_cases hba : b = a
    · subst hba
      rw [State.register_self]
      dsimp only
      omega
    · rw [hown.attempt b hba]
      have := hyoung b (stored_of_register hown hba hb)
      omega

theorem numbered_step (h : Numbered eid s) (hno : ¬ Collides s l) (hst : step s l = some t) :
    Numbered eid t := by
  have hs := sane_step h.sane hst
  have ht := tabled_step h.sane h.tabled hst
  obtain ⟨-, ⟨entry, rfl, rfl⟩ | ⟨a, rfl, ha, -, rfl⟩ | ⟨he, -, -⟩⟩ := step_cases hst
  · refine numbered_keep h hs ht rfl rfl (fun _ _ => id) (fun _ _ => id) ?_
    intro a hreg
    rcases create_attempt s entry a with ⟨heq, -⟩ | ⟨-, -, kind, -, heq⟩
    · rw [heq] at hreg ⊢
      exact ⟨hreg, rfl, rfl⟩
    · rw [heq] at hreg
      simp at hreg
  · have hown := own_advance s a
    rcases advance_cases (h.sane.fits a ha) with ⟨c, hpc, hup, heq⟩ | ⟨-, hq⟩
    · rw [heq] at hs ht hown ⊢
      exact numbered_register h hown hs ht hpc
        (((collides_iff h).mp hno) ⟨ha, hpc, by simp [hup]⟩)
    · refine numbered_keep h hs ht hq.eIdFactory hq.allocs ?_ ?_ ?_
      · rw [hq.ackLookup]
        exact fun _ _ => id
      · rw [hq.rLookup]
        exact fun _ _ => id
      · intro b hreg
        by_cases hba : b = a
        · subst hba
          exact ⟨hq.registered ▸ hreg, hq.tempEID, hq.serial⟩
        · rw [hown.attempt b hba] at hreg ⊢
          exact ⟨hreg, rfl, rfl⟩
  · refine numbered_keep h hs ht he.eIdFactory he.allocs he.ackLookup he.rLookup ?_
    intro a hreg
    exact ⟨(he.attempt a).registered ▸ hreg, (he.attempt a).tempEID, (he.attempt a).serial⟩

/-- In every run, no registration is given an identifier that is a key of `ackLookup` or
`rLookup`, exactly when at every registration each entry of the tables is less than `2 ^ 32`
registrations old. -/
theorem identifiers_fresh_iff (appId : String) (funcs : List String) (eid : Nat) (fresh : Ptr)
    (ls : List Label) :
    Along step (fun s l => ¬ Collides s l) (init appId funcs eid fresh) ls ↔
      Along step YoungEntries (init appId funcs eid fresh) ls :=
  along_congr_of_invariant (I := Numbered eid) (fun _ _ h => collides_iff h)
    (fun _ _ _ h hno hst => numbered_step h hno hst) (numbered_init appId funcs eid fresh)

end Numbered

section Wrap

/-- Calls of `CreateRExecAsyncWithCallback` that are registered and never acknowledged. -/
def unansweredCalls (n : Nat) : List Label :=
  (List.range n).flatMap fun a => [.call .async, .attempt a]

/-- The state after `n` such calls. -/
structure Outstanding (n : Nat) (s : State) : Prop where
  running : s.crashed = false
  attempts : s.nAttempts = n
  main : s.mainFogInfo = some 0
  registered : (s.conn 0).isRegistered = true
  factory : s.eIdFactory = n % 2 ^ 32
  key : 0 < n → s.ackLookup 0 ≠ none

variable {n : Nat} {s : State}

/-- The next call finds its connection. -/
theorem Outstanding.next (h : Outstanding n s) :
    n < (s.create .async).nAttempts ∧
      (s.create .async).attempt n = { kind := .async, call := s.nCalls } ∧
      (s.create .async).up .async = some 0 := by
  refine ⟨?_, ?_, ?_⟩
  · simp [State.create, State.kinds, h.attempts]
  · simp [State.create, State.kinds, h.attempts]
  · simp [State.up, State.target, State.create, h.main, h.registered]

theorem outstanding_call (h : Outstanding n s) :
    ∃ t, run step s [.call .async, .attempt n] = some t ∧ Outstanding (n + 1) t := by
  obtain ⟨hlt, hnew, hup⟩ := h.next
  have hadvance : (s.create .async).advance n = (s.create .async).allocate n 0 := by
    simp [State.advance, hnew, hup, State.register, State.enrol]
  refine ⟨(s.create .async).allocate n 0, ?_, ?_⟩
  · have hrun : (s.create .async).crashed = false := h.running
    simp [run, step, h.running, hrun, hlt, hnew, hadvance, Pc.isEnded]
  · refine ⟨h.running, by simp [State.allocate, State.updAttempt, State.updConn, State.create,
      State.kinds, h.attempts], h.main, ?_, ?_, ?_⟩
    · simp [State.allocate, State.updAttempt, State.updConn, State.create, h.registered]
    · simp [State.allocate, State.updAttempt, State.updConn, State.create, h.factory]
    · intro _
      simp only [State.allocate, State.updAttempt, State.updConn, State.create]
      by_cases h0 : 0 = s.eIdFactory
      · simp [← h0]
      · rw [Function.update_of_ne h0]
        apply h.key
        by_contra hn
        have := h.factory
        simp_all

theorem outstanding_calls (n : Nat) (h : Outstanding 0 s) :
    ∃ t, run step s (unansweredCalls n) = some t ∧ Outstanding n t := by
  induction n with
  | zero => exact ⟨s, rfl, h⟩
  | succ n ih =>
    obtain ⟨u, hu, hn⟩ := ih
    obtain ⟨t, ht, hn'⟩ := outstanding_call hn
    refine ⟨t, ?_, hn'⟩
    rw [unansweredCalls, List.range_succ, List.flatMap_append]
    exact run_append.mpr ⟨u, hu, by simpa using ht⟩

/-- After `2 ^ 32` unanswered calls the next registration overwrites the promise of the first. -/
theorem identifier_reused :
    ¬ ∀ ls, Along step (fun s l => ¬ Collides s l) (init "app" [] 0 0) ls := by
  intro hall
  obtain ⟨s, hs, hzero⟩ : ∃ s, run step (init "app" [] 0 0)
      [.arrived 0 "/app/announce/down" registerAckMsg 0 1] = some s ∧ s.crashed = false ∧
        s.nAttempts = 0 ∧ s.mainFogInfo = some 0 ∧ (s.conn 0).isRegistered = true ∧
        s.eIdFactory = 0 :=
    run_reaches (by decide)
  have h₀ : Outstanding 0 s :=
    ⟨hzero.1, hzero.2.1, hzero.2.2.1, hzero.2.2.2.1, hzero.2.2.2.2, by simp⟩
  obtain ⟨u, hu, hn⟩ := outstanding_calls (2 ^ 32) h₀
  have hlast := ((hall (_ ++ (unansweredCalls (2 ^ 32) ++ [.call .async, .attempt (2 ^ 32)]))
    ).of_append hs).of_append hu
  have hcreate : step u (.call .async) = some (u.create .async) := by
    simp [step, hn.running]
  obtain ⟨hlt, hnew, hup⟩ := hn.next
  refine (hlast.2 _ hcreate).1 ⟨⟨hlt, ?_, ?_⟩, .inl ?_⟩
  · rw [hnew]
  · rw [hnew, hup]
    simp
  · have hfac : (u.create .async).eIdFactory = 0 := hn.factory.trans (Nat.mod_self _)
    rw [hfac]
    exact hn.key (Nat.two_pow_pos 32)

end Wrap

end JamSched.Remote
