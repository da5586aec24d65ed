import JamSched.Remote.Callbacks

/-!
# The promise tables

An entry of `ackLookup` or `rLookup` belongs to a registered attempt, under the identifier that
the attempt was given. The registration is the only step of an attempt that writes the tables,
the counter or a connection's `rExecPending`.
-/
namespace JamSched.Remote

open Machine

/-- A step of attempt `a` that registers nothing. -/
structure Quiet (s t : State) (a : Nat) : Prop where
  ackLookup : t.ackLookup = s.ackLookup
  rLookup : t.rLookup = s.rLookup
  eIdFactory : t.eIdFactory = s.eIdFactory
  allocs : t.allocs = s.allocs
  answers : t.answers = s.answers
  registered : (t.attempt a).registered = (s.attempt a).registered
  tempEID : (t.attempt a).tempEID = (s.attempt a).tempEID
  serial : (t.attempt a).serial = (s.attempt a).serial
  conn : ∀ c, t.conn c = { s.conn c with sent := (t.conn c).sent }

namespace Quiet

variable {s : State} {a : Nat}

theorem refl (s : State) (a : Nat) : Quiet s s a :=
  ⟨rfl, rfl, rfl, rfl, rfl, rfl, rfl, rfl, fun _ => rfl⟩

theorem setPc (s : State) (a : Nat) (pc : Pc) : Quiet s (s.setPc a pc) a := by
  refine ⟨rfl, rfl, rfl, rfl, rfl, ?_, ?_, ?_, fun _ => rfl⟩ <;> simp

theorem failWith (s : State) (a : Nat) (e : Reason) (k : Cont) : Quiet s (s.failWith a e k) a := by
  unfold State.failWith
  split
  · exact setPc s a _
  · exact setPc s a _
  · exact setPc s a _
  · refine ⟨rfl, rfl, rfl, rfl, rfl, ?_, ?_, ?_, fun _ => rfl⟩ <;> simp [State.returnValue]

theorem invoke (s : State) (a k : Nat) (e : Option Reason) (held : LockMode) (pc : Pc) :
    Quiet s ((s.invoke k e held).setPc a pc) a := by
  refine ⟨rfl, rfl, rfl, rfl, rfl, ?_, ?_, ?_, fun _ => rfl⟩ <;> simp

theorem updCall (s : State) (a k : Nat) (f : Call → Call) (pc : Pc) :
    Quiet s ((s.updCall k f).setPc a pc) a := by
  refine ⟨rfl, rfl, rfl, rfl, rfl, ?_, ?_, ?_, fun _ => rfl⟩ <;> simp

theorem send (s : State) (a : Nat) (c : Ptr) (n : Nat) : Quiet s (s.send a c n) a := by
  refine ⟨rfl, rfl, rfl, rfl, rfl, ?_, ?_, ?_, fun d => ?_⟩
  · simp
  · simp
  · simp
  · by_cases hd : d = c
    · simp [hd, State.send, State.setPc, State.updAttempt, State.updConn, State.publish]
    · simp [State.send, State.setPc, State.updAttempt, State.updConn, State.publish,
        Function.update_of_ne hd]

end Quiet

/-- A step of an attempt is a registration or registers nothing. -/
theorem advance_cases {s : State} {a : Nat}
    (hfits : Pc.fits (s.attempt a).kind (s.attempt a).pc = true) :
    (∃ c, (s.attempt a).pc = .start ∧ s.up (s.attempt a).kind = some c ∧
        s.advance a = s.register a c) ∨
      ((s.attempt a).pc = .start → s.up (s.attempt a).kind = none) ∧ Quiet s (s.advance a) a := by
  unfold State.advance
  split
  · next hpc =>
    split
    · next hup =>
      refine .inr ⟨fun _ => hup, ?_⟩
      unfold State.refuse
      split
      · exact Quiet.invoke s a _ _ _ _
      · exact Quiet.failWith s a _ _
    · next c hup => exact .inl ⟨c, hpc, hup, rfl⟩
  · next n hpc =>
    refine .inr ⟨by simp [hpc], ?_⟩
    split
    · split
      · exact Quiet.failWith s a _ _
      · exact Quiet.send s a _ _
    · unfold State.leaveLoop
      split <;> exact Quiet.setPc s a _
  · next n hpc =>
    have hn : n < 3 := by simpa [hpc, Pc.fits] using hfits
    refine .inr ⟨by simp [hpc], ?_⟩
    split
    · rw [if_pos hn]
      exact Quiet.setPc s a _
    · unfold State.acked
      split <;> exact Quiet.setPc s a _
    · unfold State.nacked
      split <;> exact Quiet.failWith s a _ _
  · next hpc =>
    refine .inr ⟨by simp [hpc], ?_⟩
    unfold State.getResult
    split
    · split <;> exact Quiet.failWith s a _ _
    · split
      · refine ⟨rfl, rfl, rfl, rfl, rfl, ?_, ?_, ?_, fun _ => rfl⟩ <;> simp [State.returnValue]
      · split
        · exact Quiet.setPc s a _
        · exact Quiet.failWith s a _ _
  · next hpc =>
    refine .inr ⟨by simp [hpc], ?_⟩
    unfold State.announce
    split
    · exact Quiet.invoke s a _ _ _ _
    · split
      · exact Quiet.setPc s a _
      · refine ⟨rfl, rfl, rfl, rfl, rfl, ?_, ?_, ?_, fun _ => rfl⟩ <;> simp
    · unfold State.announceValue
      split
      · exact Quiet.setPc s a _
      · split <;> exact Quiet.updCall s a _ _ _
    · exact Quiet.refl s a
  · next hpc =>
    refine .inr ⟨by simp [hpc], ?_⟩
    refine ⟨rfl, rfl, rfl, rfl, rfl, ?_, ?_, ?_, fun _ => rfl⟩ <;> simp
  · next hpc =>
    refine .inr ⟨by simp [hpc], ?_⟩
    unfold State.reportFailure
    split
    · exact Quiet.invoke s a _ _ _ _
    · exact Quiet.invoke s a _ _ _ _
    · unfold State.reportValue
      split
      · exact Quiet.updCall s a _ _ _
      · split
        · exact Quiet.updCall s a _ _ _
        · exact ⟨rfl, rfl, rfl, rfl, rfl, rfl, rfl, rfl, fun _ => rfl⟩
    · exact Quiet.refl s a
  · next hpc => exact .inr ⟨by simp [hpc], Quiet.refl s a⟩

section Register

variable (s : State) (a : Nat) (c : Ptr)

theorem enrol_eq (k : Kind) (id : Nat) : ∃ conn crashed,
    s.enrol k c id = { s with conn := conn, crashed := crashed } := by
  unfold State.enrol
  split
  · exact ⟨_, _, rfl⟩
  · exact ⟨_, _, rfl⟩
  · exact ⟨_, _, rfl⟩
  · exact ⟨_, _, rfl⟩
  · exact ⟨_, _, rfl⟩
  · split <;> exact ⟨_, _, rfl⟩

/-- What a registration writes, apart from the connections. -/
theorem register_tables :
    (s.register a c).ackLookup = Function.update s.ackLookup s.eIdFactory (some a) ∧
      (s.register a c).rLookup = (if (s.attempt a).kind.isSync then
        Function.update s.rLookup s.eIdFactory (some a) else s.rLookup) ∧
      (s.register a c).eIdFactory = (s.eIdFactory + 1) % 2 ^ 32 ∧
      (s.register a c).allocs = s.allocs + 1 ∧ (s.register a c).answers = s.answers := by
  obtain ⟨conn, crashed, heq⟩ := enrol_eq (s.allocate a c) c (s.attempt a).kind s.eIdFactory
  rw [State.register, heq]
  exact ⟨rfl, rfl, rfl, rfl, rfl⟩

end Register

/-- What holds of the tables in every reachable state. -/
structure Tabled (s : State) : Prop where
  ack : ∀ id a, s.ackLookup id = some a →
    a < s.nAttempts ∧ (s.attempt a).registered = true ∧ (s.attempt a).tempEID = id
  res : ∀ id a, s.rLookup id = some a → a < s.nAttempts ∧ (s.attempt a).registered = true ∧
    (s.attempt a).tempEID = id ∧ (s.attempt a).kind.isSync = true
  /-- The promises of an attempt without an identifier are its own. -/
  fresh : ∀ a, (s.attempt a).registered = false → (s.attempt a).ack = none ∧
    (s.attempt a).res = none ∧ (s.attempt a).acknowledged = false ∧
    (s.attempt a).received = false
  start : ∀ a, (s.attempt a).pc = .start → (s.attempt a).registered = false

section Tabled

variable {s t : State} {a : Nat} {l : Label}

theorem tabled_init (appId : String) (funcs : List String) (eid : Nat) (fresh : Ptr) :
    Tabled (init appId funcs eid fresh) := by
  constructor <;> simp [init]

theorem tabled_create (h : Tabled s) (entry : Entry) : Tabled (s.create entry) := by
  have hold : ∀ a < s.nAttempts, (s.create entry).attempt a = s.attempt a := by
    intro a ha
    simp [State.create, ha]
  refine ⟨?_, ?_, ?_, ?_⟩
  · intro id a ha
    obtain ⟨hlt, hrest⟩ := h.ack id a ha
    rw [hold a hlt]
    exact ⟨Nat.lt_of_lt_of_le hlt (Nat.le_add_right _ _), hrest⟩
  · intro id a ha
    obtain ⟨hlt, hrest⟩ := h.res id a ha
    rw [hold a hlt]
    exact ⟨Nat.lt_of_lt_of_le hlt (Nat.le_add_right _ _), hrest⟩
  · intro a
    rcases create_attempt s entry a with ⟨heq, -⟩ | ⟨-, -, kind, -, heq⟩
    · rw [heq]
      exact h.fresh a
    · rw [heq]
      simp
  · intro a
    rcases create_attempt s entry a with ⟨heq, -⟩ | ⟨-, -, kind, -, heq⟩
    · rw [heq]
      exact h.start a
    · rw [heq]
      simp

theorem tabled_env (h : Tabled s) (he : Env s t) : Tabled t := by
  refine ⟨?_, ?_, ?_, ?_⟩
  · intro id a ha
    rw [he.nAttempts, (he.attempt a).registered, (he.attempt a).tempEID]
    exact h.ack id a (he.ackLookup id a ha)
  · intro id a ha
    rw [he.nAttempts, (he.attempt a).registered, (he.attempt a).tempEID, (he.attempt a).kind]
    exact h.res id a (he.rLookup id a ha)
  · intro a hreg
    rw [(he.attempt a).registered] at hreg
    obtain ⟨hack, hres, hk, hr⟩ := h.fresh a hreg
    have hack' : (t.attempt a).ack = (s.attempt a).ack := by
      by_contra hne
      obtain ⟨id, hid⟩ := he.ack a hne
      rw [(h.ack id a hid).2.1] at hreg
      cases hreg
    have hres' : (t.attempt a).res = (s.attempt a).res := by
      by_contra hne
      obtain ⟨id, hid, -⟩ := he.res a hne
      rw [(h.res id a hid).2.1] at hreg
      cases hreg
    refine ⟨hack'.trans hack, hres'.trans hres, ?_, ?_⟩
    · rw [(he.attempt a).acknowledged, hk, hack', hack]
      rfl
    · rw [(he.attempt a).received, hr, hres', hres]
      rfl
  · intro a hpc
    rw [(he.attempt a).pc] at hpc
    rw [(he.attempt a).registered]
    exact h.start a hpc

theorem tabled_register {c : Ptr} (h : Tabled s) (ha : a < s.nAttempts)
    (hpc : (s.attempt a).pc = .start) (hown : Own s (s.register a c) a) :
    Tabled (s.register a c) := by
  obtain ⟨hack, hres, -⟩ := register_tables s a c
  have hreg := h.start a hpc
  -- entries of other identifiers are old ones, and those are not about `a`
  have hold : ∀ b, (s.attempt b).registered = true → (s.register a c).attempt b = s.attempt b := by
    intro b hb
    apply hown.attempt
    rintro rfl
    rw [hreg] at hb
    cases hb
  refine ⟨?_, ?_, ?_, ?_⟩
  · intro id b hb
    rw [hack] at hb
    rw [hown.nAttempts]
    by_cases hid : id = s.eIdFactory
    · obtain rfl : a = b := by simpa [hid] using hb
      simp [ha, hid]
    · rw [Function.update_of_ne hid] at hb
      obtain ⟨hlt, hr, heid⟩ := h.ack id b hb
      rw [hold b hr]
      exact ⟨hlt, hr, heid⟩
  · intro id b hb
    rw [hres] at hb
    rw [hown.nAttempts]
    by_cases hs : (s.attempt a).kind.isSync = true
    · rw [if_pos hs] at hb
      by_cases hid : id = s.eIdFactory
      · obtain rfl : a = b := by simpa [hid] using hb
        simp [ha, hid, hs]
      · rw [Function.update_of_ne hid] at hb
        obtain ⟨hlt, hr, heid⟩ := h.res id b hb
        rw [hold b hr]
        exact ⟨hlt, hr, heid⟩
    · rw [if_neg hs] at hb
      obtain ⟨hlt, hr, heid⟩ := h.res id b hb
      rw [hold b hr]
      exact ⟨hlt, hr, heid⟩
  · intro b hb
    by_cases hba : b = a
    · subst hba
      simp at hb
    · rw [hown.attempt b hba] at hb ⊢
      exact h.fresh b hb
  · intro b hb
    by_cases hba : b = a
    · subst hba
      simp at hb
    · rw [hown.attempt b hba] at hb ⊢
      exact h.start b hb

theorem tabled_advance (hs : Sane s) (h : Tabled s) (ha : a < s.nAttempts) :
    Tabled (s.advance a) := by
  have hown := own_advance s a
  rcases advance_cases (hs.fits a ha) with ⟨c, hpc, -, heq⟩ | ⟨-, hq⟩
  · rw [heq] at hown ⊢
    exact tabled_register h ha hpc hown
  · have hattempt : ∀ b, ((s.advance a).attempt b).registered = (s.attempt b).registered ∧
        ((s.advance a).attempt b).tempEID = (s.attempt b).tempEID ∧
        ((s.advance a).attempt b).kind = (s.attempt b).kind := by
      intro b
      by_cases hb : b = a
      · subst hb
        exact ⟨hq.registered, hq.tempEID, hown.kind⟩
      · simp [hown.attempt b hb]
    refine ⟨?_, ?_, ?_, ?_⟩
    · intro id b hb
      rw [hq.ackLookup] at hb
      rw [hown.nAttempts, (hattempt b).1, (hattempt b).2.1]
      exact h.ack id b hb
    · intro id b hb
      rw [hq.rLookup] at hb
      rw [hown.nAttempts, (hattempt b).1, (hattempt b).2.1, (hattempt b).2.2]
      exact h.res id b hb
    · intro b hb
      rw [(hattempt b).1] at hb
      by_cases hba : b = a
      · subst hba
        rw [hown.ack, hown.res, hown.acknowledged, hown.received]
        exact h.fresh b hb
      · rw [hown.attempt b hba]
        exact h.fresh b hb
    · intro b hb
      by_cases hba : b = a
      · subst hba
        rw [advance_pc] at hb
        exact absurd hb (nextPc_ne_start s b)
      · rw [hown.attempt b hba] at hb ⊢
        exact h.start b hb

theorem tabled_step (hs : Sane s) (h : Tabled s) (hst : step s l = some t) : Tabled t := by
  obtain ⟨-, ⟨entry, -, rfl⟩ | ⟨a, -, ha, -, rfl⟩ | ⟨he, -⟩⟩ := step_cases hst
  · exact tabled_create h entry
  · exact tabled_advance hs h ha
  · exact tabled_env h he

end Tabled

end JamSched.Remote
