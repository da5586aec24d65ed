import JamSched.Exec.Future

/-!
# Callbacks on several futures

`when_all` and `when_any` go through `n` futures, leave a callback in each and count in a context
that the callbacks share. Here are the futures and the loop, with what is done to the context as a
parameter; the callbacks come at any time from the moment at which they are set, in the loop itself
if the future is satisfied already.
-/
namespace JamSched.Exec

open Machine

/-- What is done to the context. The callbacks do it under its mutex. -/
structure Combinator (ε V C : Type) where
  /-- In front of `then`. -/
  before : Nat → C → C
  /-- The function given to `then`, called with a future that has this outcome. -/
  callback : Nat → Outcome ε V → C → C
  /-- Behind `then`. -/
  after : C → C
  /-- Behind the loop. -/
  last : C → C

/-- Where the loop stands. -/
inductive LoopPc where
  | head (i : Nat)
  /-- Behind `set_callback`, in the callback or on the way out of `then`. -/
  | within (i : Nat) (calling : Bool)
  | returned
  deriving DecidableEq, Repr

/-- How many futures have their callback. -/
def LoopPc.attached (n : Nat) : LoopPc → Nat
  | .head i => i
  | .within i _ => i + 1
  | .returned => n

structure Gather (ε V C : Type) where
  future : Nat → Continued ε V Unit := fun _ => {}
  pc : LoopPc := .head 0
  context : C
  /-- History: the callbacks called, with the outcomes that they were given. -/
  arrived : List (Nat × Outcome ε V) := []

namespace Gather

variable {ε V C : Type} (k : Combinator ε V C) (n : Nat) (s : Gather ε V C)

def setFuture (i : Nat) (x : Continued ε V Unit) : Gather ε V C :=
  { s with future := Function.update s.future i x }

/-- `then` up to the end of `set_callback`. -/
def attach : Option (Gather ε V C) :=
  match s.pc with
  | .head i =>
    if i < n then
      let x := s.future i
      some { s.setFuture i (x.setCallback ()) with
        context := k.before i s.context
        pc := .within i (x.state.satisfied && !x.executed) }
    else none
  | _ => none

/-- The callback of future `i` is called. -/
def call (i : Nat) : Option (Gather ε V C) :=
  (s.future i).call.bind fun x =>
    x.2.state.getValue.map fun r => { s.setFuture i x.2 with
      context := k.callback i r s.context
      arrived := s.arrived ++ [(i, r)]
      pc := if s.pc = .within i true then .within i false else s.pc }

inductive Label (ε V : Type) where
  /-- `set_value` or `set_exception` of the promise behind future `i`. -/
  | settle (i : Nat) (r : Outcome ε V)
  | abandon (i : Nat)
  | attach
  | call (i : Nat)
  | after
  | last
  deriving DecidableEq, Repr

def step : Label ε V → Option (Gather ε V C)
  | .settle i r =>
    match (s.future i).settle r with
    | .ok x => some (s.setFuture i x)
    | .error _ => some s
  | .abandon i => some (s.setFuture i (s.future i).abandon)
  | .attach => s.attach k n
  | .call i => s.call k i
  | .after =>
    match s.pc with
    | .within i false => some { s with context := k.after s.context, pc := .head (i + 1) }
    | _ => none
  | .last =>
    if s.pc = .head n then some { s with context := k.last s.context, pc := .returned } else none

/-- The callbacks that have been called are some of those that were set, each once. -/
structure Arrived (n : Nat) (pc : LoopPc) (arrived : List (Nat × Outcome ε V)) : Prop where
  nodup : (arrived.map Prod.fst).Nodup
  lt : ∀ i ∈ arrived.map Prod.fst, i < pc.attached n
  le : pc.attached n ≤ n

structure Inv (s : Gather ε V C) : Prop where
  future : ∀ i, (s.future i).Inv
  attached : ∀ i, (s.future i).cb.isSome = true ↔ i < s.pc.attached n
  called : ∀ i, (s.future i).called = [] ↔ i ∉ s.arrived.map Prod.fst
  outcome : ∀ x ∈ s.arrived, (s.future x.1).state = .settled false x.2
  arrived : Arrived n s.pc s.arrived

/-- What a step keeps of a relation between loop, callbacks and context. -/
structure Keeps (J : LoopPc → List (Nat × Outcome ε V) → C → Prop) : Prop where
  before : ∀ {i arrived c}, Arrived n (.head i) arrived → i < n → J (.head i) arrived c →
    ∀ b, J (.within i b) arrived (k.before i c)
  callback : ∀ {pc arrived c i r}, Arrived n pc (arrived ++ [(i, r)]) → J pc arrived c →
    J pc (arrived ++ [(i, r)]) (k.callback i r c)
  resume : ∀ {i arrived c}, J (.within i true) arrived c → J (.within i false) arrived c
  after : ∀ {i arrived c}, Arrived n (.within i false) arrived → J (.within i false) arrived c →
    J (.head (i + 1)) arrived (k.after c)
  last : ∀ {arrived c}, Arrived n (.head n) arrived → J (.head n) arrived c →
    J .returned arrived (k.last c)

variable {k n s} {t : Gather ε V C} {i : Nat} {l : Label ε V}
  {J : LoopPc → List (Nat × Outcome ε V) → C → Prop}

theorem forall_setFuture (P : Nat → Continued ε V Unit → Prop) {x : Continued ε V Unit}
    (hx : P i x) (h : ∀ j, P j (s.future j)) (j : Nat) : P j ((s.setFuture i x).future j) :=
  (Function.forall_update_iff s.future P).mpr ⟨hx, fun j _ => h j⟩ j

theorem inv_initial (c : C) : Inv n ({ context := c } : Gather ε V C) where
  future _ := Continued.inv_initial
  attached _ := by simp [LoopPc.attached]
  called _ := by simp
  outcome _ hx := by cases hx
  arrived := ⟨by simp, by simp, Nat.zero_le n⟩

/-- A future is satisfied. -/
theorem Inv.resolve (h : Inv n s) (hs : (s.future i).state.satisfied = false) (r : Outcome ε V) :
    Inv n (s.setFuture i ((s.future i).resolve r)) where
  future := forall_setFuture (fun _ y => y.Inv) ((h.future i).resolve hs r) h.future
  attached := forall_setFuture (fun j y => y.cb.isSome = true ↔ j < s.pc.attached n)
    (h.attached i) h.attached
  called := forall_setFuture (fun j y => y.called = [] ↔ j ∉ s.arrived.map Prod.fst)
    (h.called i) h.called
  outcome x hx := by
    have hne : x.1 ≠ i := by
      rintro rfl
      have hsettled := congrArg SharedState.satisfied (h.outcome x hx)
      simp [hs] at hsettled
    show (Function.update s.future i _ x.1).state = _
    rw [Function.update_of_ne hne]
    exact h.outcome x hx
  arrived := h.arrived

theorem Inv.settle (h : Inv n s) (r : Outcome ε V)
    (ht : step k n s (.settle i r) = some t) :
    Inv n t ∧ t.pc = s.pc ∧ t.arrived = s.arrived ∧ t.context = s.context := by
  simp only [step] at ht
  cases hs : (s.future i).state.satisfied with
  | false =>
    rw [Continued.settle_eq (h.future i) hs] at ht
    cases ht
    exact ⟨h.resolve hs r, rfl, rfl, rfl⟩
  | true =>
    rw [Continued.settle_satisfied hs] at ht
    cases ht
    exact ⟨h, rfl, rfl, rfl⟩

theorem Inv.abandon (h : Inv n s) : Inv n (s.setFuture i (s.future i).abandon) := by
  cases hs : (s.future i).state.satisfied with
  | false =>
    rw [Continued.abandon_eq (h.future i) hs]
    exact h.resolve hs _
  | true =>
    have hself : s.setFuture i (s.future i) = s := by simp [setFuture]
    rwa [Continued.abandon, if_pos hs, hself]

theorem Inv.attach (h : Inv n s) (ht : s.attach k n = some t) :
    Inv n t ∧ ∃ i < n, s.pc = .head i ∧ t.arrived = s.arrived ∧
      t.context = k.before i s.context ∧ ∃ b, t.pc = .within i b := by
  unfold Gather.attach at ht
  split at ht
  · next i hpc =>
    split at ht
    · next hlt =>
      cases ht
      refine ⟨?_, i, hlt, hpc, rfl, rfl, _, rfl⟩
      have harrived := h.arrived
      rw [hpc] at harrived
      refine ⟨forall_setFuture (fun _ y => y.Inv) ((h.future i).setCallback ()) h.future,
        fun j => ?_, forall_setFuture (fun j y => y.called = [] ↔ j ∉ s.arrived.map Prod.fst)
          (by rw [Continued.setCallback_called]; exact h.called i) h.called, fun x hx => ?_,
        ⟨harrived.nodup, fun j hj => Nat.lt_succ_of_lt (harrived.lt j hj), hlt⟩⟩
      · have hattached := h.attached j
        rw [hpc] at hattached
        show (Function.update s.future i _ j).cb.isSome = true ↔ j < i + 1
        simp only [LoopPc.attached] at hattached
        by_cases hj : j = i
        · subst hj
          simp [Continued.setCallback_cb]
        · rw [Function.update_of_ne hj, hattached]
          omega
      · have hstate : ((s.setFuture i ((s.future i).setCallback ())).future x.1).state =
            (s.future x.1).state :=
          forall_setFuture (fun j y => y.state = (s.future j).state)
            (Continued.setCallback_state ()) (fun _ => rfl) x.1
        exact hstate.trans (h.outcome x hx)
    · cases ht
  · cases ht

/-- The outcome that a callback finds. -/
theorem Inv.getValue_eq_some (h : Inv n s) {r : Outcome ε V} :
    (s.future i).state.getValue = some r ↔ (s.future i).state = .settled false r := by
  obtain hempty | ⟨r', hr'⟩ := (h.future i).state
  · rw [hempty]
    refine ⟨fun hr => by simp [SharedState.getValue] at hr, fun hr => ?_⟩
    have hsatisfied := congrArg SharedState.satisfied hr
    simp at hsatisfied
  · rw [hr', SharedState.settled_getValue]
    refine ⟨fun hr => Option.some.inj hr ▸ rfl, fun hr => ?_⟩
    have hvalue := congrArg SharedState.getValue hr
    simpa using hvalue

/-- One more callback is called. -/
theorem Arrived.append {pc : LoopPc} {arrived : List (Nat × Outcome ε V)}
    (h : Arrived n pc arrived) (hi : i < pc.attached n) (hnew : i ∉ arrived.map Prod.fst)
    (r : Outcome ε V) : Arrived n pc (arrived ++ [(i, r)]) := by
  refine ⟨?_, fun j hj => ?_, h.le⟩
  · rw [List.map_append, List.nodup_append]
    refine ⟨h.nodup, by simp, fun j hj j' hj' => ?_⟩
    rw [List.map_singleton, List.mem_singleton] at hj'
    exact fun heq => hnew (by rwa [heq, hj'] at hj)
  · rw [List.map_append, List.map_singleton, List.mem_append, List.mem_singleton] at hj
    exact hj.elim (h.lt j) fun hj => hj ▸ hi

theorem Inv.call (h : Inv n s) (ht : s.call k i = some t) :
    Inv n t ∧ ∃ r, Arrived n s.pc (s.arrived ++ [(i, r)]) ∧ t.arrived = s.arrived ++ [(i, r)] ∧
      t.context = k.callback i r s.context ∧
      (t.pc = s.pc ∨ s.pc = .within i true ∧ t.pc = .within i false) := by
  obtain ⟨x, hx, ht⟩ := Option.bind_eq_some_iff.mp ht
  obtain ⟨r, hr, rfl⟩ := Option.map_eq_some_iff.mp ht
  have hinv := (h.future i).call hx
  have honce := (h.future i).once
  simp only [Continued.call, Option.ite_none_right_eq_some, Option.map_eq_some_iff] at hx
  obtain ⟨hpos, f, hf, rfl⟩ := hx
  have hi : i < s.pc.attached n := (h.attached i).mp (by simp [hf])
  have hnew : i ∉ s.arrived.map Prod.fst := by
    refine (h.called i).mp (List.eq_nil_of_length_eq_zero ?_)
    have hle := Bool.toNat_le (s.future i).executed
    omega
  have harrived : Arrived n s.pc (s.arrived ++ [(i, r)]) := h.arrived.append hi hnew r
  have hpc : ∀ pc, pc = (if s.pc = .within i true then LoopPc.within i false else s.pc) →
      pc.attached n = s.pc.attached n ∧
        (pc = s.pc ∨ s.pc = .within i true ∧ pc = .within i false) := by
    rintro pc rfl
    split
    · next heq => exact ⟨by rw [heq]; rfl, .inr ⟨heq, rfl⟩⟩
    · exact ⟨rfl, .inl rfl⟩
  obtain ⟨hattached, hpc⟩ := hpc _ rfl
  have hstate : ∀ j, ((s.setFuture i { s.future i with
      calls := (s.future i).calls - 1, called := (s.future i).called ++ [f] }).future j).state =
      (s.future j).state :=
    forall_setFuture (fun j y => y.state = (s.future j).state) rfl fun _ => rfl
  refine ⟨⟨forall_setFuture (fun _ y => y.Inv) hinv h.future, fun j => ?_, fun j => ?_,
    fun y hy => ?_, ⟨harrived.nodup, fun j hj => hattached ▸ harrived.lt j hj,
      hattached ▸ h.arrived.le⟩⟩, r, harrived, rfl, rfl, hpc⟩
  · show _ ↔ j < LoopPc.attached n (if _ then _ else _)
    rw [hattached]
    refine forall_setFuture (fun j y => y.cb.isSome = true ↔ j < s.pc.attached n) ?_ h.attached j
    exact h.attached i
  · show (Function.update s.future i _ j).called = [] ↔ j ∉ (s.arrived ++ [(i, r)]).map Prod.fst
    by_cases hj : j = i
    · subst hj
      simp
    · rw [Function.update_of_ne hj, h.called j]
      simp [hj]
  · refine (hstate y.1).trans ?_
    obtain hy | hy := List.mem_append.mp hy
    · exact h.outcome y hy
    · rw [List.mem_singleton.mp hy]
      exact h.getValue_eq_some.mp hr

theorem Inv.after (h : Inv n s) (ht : step k n s .after = some t) :
    Inv n t ∧ ∃ i, s.pc = .within i false ∧ t.pc = .head (i + 1) ∧ t.arrived = s.arrived ∧
      t.context = k.after s.context := by
  simp only [step] at ht
  split at ht
  · next i hpc =>
    cases ht
    have hattached := h.attached
    have harrived := h.arrived
    rw [hpc] at hattached harrived
    exact ⟨⟨h.future, hattached, h.called, h.outcome,
      ⟨harrived.nodup, harrived.lt, harrived.le⟩⟩, i, hpc, rfl, rfl, rfl⟩
  · cases ht

theorem Inv.last (h : Inv n s) (ht : step k n s .last = some t) :
    Inv n t ∧ s.pc = .head n ∧ t.pc = .returned ∧ t.arrived = s.arrived ∧
      t.context = k.last s.context := by
  simp only [step, Option.ite_none_right_eq_some, Option.some.injEq] at ht
  obtain ⟨hpc, rfl⟩ := ht
  have hattached := h.attached
  have harrived := h.arrived
  rw [hpc] at hattached harrived
  exact ⟨⟨h.future, hattached, h.called, h.outcome,
    ⟨harrived.nodup, harrived.lt, harrived.le⟩⟩, hpc, rfl, rfl, rfl⟩

/-- A relation that holds at the start and is kept by what the loop and the callbacks do holds in
every order of these. -/
theorem Keeps.run (hJ : Keeps k n J) {c : C} (h0 : J (.head 0) [] c) {ls : List (Label ε V)}
    (hr : run (step k n) { context := c } ls = some s) : Inv n s ∧ J s.pc s.arrived s.context := by
  refine run_invariant (I := fun s => Inv n s ∧ J s.pc s.arrived s.context) ?_
    ⟨inv_initial c, h0⟩ hr
  rintro s l t ⟨h, hj⟩ ht
  cases l with
  | settle i r =>
    obtain ⟨hinv, hpc, harrived, hcontext⟩ := h.settle r ht
    exact ⟨hinv, by rwa [hpc, harrived, hcontext]⟩
  | abandon i =>
    cases ht
    exact ⟨h.abandon, hj⟩
  | attach =>
    obtain ⟨hinv, i, hlt, hpc, harrived, hcontext, b, hb⟩ := h.attach ht
    rw [hpc] at hj
    refine ⟨hinv, ?_⟩
    rw [hb, harrived, hcontext]
    exact hJ.before (hpc ▸ h.arrived) hlt hj b
  | call i =>
    obtain ⟨hinv, r, hnew, harrived, hcontext, hpc⟩ := h.call ht
    have hcalled := hJ.callback hnew hj
    refine ⟨hinv, ?_⟩
    rw [harrived, hcontext]
    obtain hpc | ⟨hpc, hpc'⟩ := hpc
    · rwa [hpc]
    · rw [hpc']
      exact hJ.resume (hpc ▸ hcalled)
  | after =>
    obtain ⟨hinv, i, hpc, hpc', harrived, hcontext⟩ := h.after ht
    refine ⟨hinv, ?_⟩
    rw [hpc', harrived, hcontext]
    exact hJ.after (hpc ▸ h.arrived) (hpc ▸ hj)
  | last =>
    obtain ⟨hinv, hpc, hpc', harrived, hcontext⟩ := h.last ht
    refine ⟨hinv, ?_⟩
    rw [hpc', harrived, hcontext]
    exact hJ.last (hpc ▸ h.arrived) (hpc ▸ hj)

/-- Every future is satisfied, and no callback is on its way. -/
def Quiet (n : Nat) (s : Gather ε V C) : Prop :=
  s.pc = .returned ∧ ∀ i < n, (s.future i).state.satisfied = true ∧ (s.future i).calls = 0

/-- Then all callbacks have been called. -/
theorem Inv.arrived_of_quiet (h : Inv n s) (hq : Quiet n s) (hi : i < n) :
    i ∈ s.arrived.map Prod.fst := by
  obtain ⟨hpc, hq⟩ := hq
  obtain ⟨hsatisfied, hcalls⟩ := hq i hi
  have honce := (h.future i).once
  have hattached := (h.attached i).mpr (by rw [hpc]; exact hi)
  rw [(h.future i).executed, hsatisfied, hattached, hcalls] at honce
  by_contra hnot
  rw [(h.called i).mpr hnot] at honce
  simp at honce

end Gather

end JamSched.Exec
