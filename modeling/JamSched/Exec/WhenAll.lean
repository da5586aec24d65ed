import JamSched.Exec.Gather
import Mathlib.Data.List.Perm.Subperm

/-!
# when_all and when_any

The context that the callbacks share, for the two functions on a range of futures. An element of the
vector in it is the future itself, written `none`, until its callback puts the future there that it
was given, which is ready. The vector is moved into the promise; an element that is used behind
that, or a promise that is satisfied a second time, is recorded as a failure. If there are no
futures, nobody but the function holds the context, and the promise is abandoned when it returns.
-/
namespace JamSched.Exec

open Machine

variable {ε V : Type} {n : Nat}

section Lookup

/-- The vector of the first `m` futures once these callbacks have come. -/
def filled (arrived : List (Nat × Outcome ε V)) (m : Nat) : List (Option (Outcome ε V)) :=
  (List.range m).map fun i => arrived.lookup i

variable {arrived : List (Nat × Outcome ε V)} {i : Nat} {r : Outcome ε V} {pc : LoopPc}

theorem lookup_eq_none_iff : arrived.lookup i = none ↔ i ∉ arrived.map Prod.fst := by
  induction arrived with
  | nil => simp
  | cons x arrived ih =>
    obtain ⟨j, r⟩ := x
    by_cases hj : i = j
    · simp [hj]
    · have hbeq : (i == j) = false := by simpa using hj
      simp [List.lookup_cons, hbeq, ih, hj]

theorem lookup_concat (hi : i ∉ arrived.map Prod.fst) (j : Nat) :
    (arrived ++ [(i, r)]).lookup j = if j = i then some r else arrived.lookup j := by
  induction arrived with
  | nil =>
    by_cases hj : j = i
    · simp [hj]
    · have hbeq : (j == i) = false := by simpa using hj
      simp [List.lookup_cons, hbeq, hj]
  | cons x arrived ih =>
    obtain ⟨i', r'⟩ := x
    simp only [List.map_cons, List.mem_cons, not_or] at hi
    by_cases hj : j = i'
    · simp [hj, Ne.symm hi.1]
    · have hbeq : (j == i') = false := by simpa using hj
      simp [List.lookup_cons, hbeq, ih hi.2]

@[simp] theorem length_filled (m : Nat) : (filled arrived m).length = m := by simp [filled]

theorem filled_succ (m : Nat) :
    filled arrived (m + 1) = filled arrived m ++ [arrived.lookup m] := by
  simp [filled, List.range_succ]

theorem set_filled (hi : i ∉ arrived.map Prod.fst) (m : Nat) :
    (filled arrived m).set i (some r) = filled (arrived ++ [(i, r)]) m := by
  refine List.ext_getElem (by simp) fun j hj hj' => ?_
  by_cases hji : i = j
  · subst hji
    simp [filled, lookup_concat hi]
  · rw [List.getElem_set_ne hji]
    simp [filled, lookup_concat hi, Ne.symm hji]

theorem Gather.Arrived.length_le (h : Gather.Arrived n pc arrived) :
    arrived.length ≤ pc.attached n := by
  have hsub : (arrived.map Prod.fst).Subperm (List.range (pc.attached n)) :=
    List.subperm_of_subset h.nodup fun i hi => List.mem_range.mpr (h.lt i hi)
  simpa using hsub.length_le

/-- If there are as many callbacks as futures, each future has had its own. -/
theorem Gather.Arrived.mem_of_length (h : Gather.Arrived n pc arrived) (hn : arrived.length = n)
    (hi : i < n) : i ∈ arrived.map Prod.fst := by
  have hsub : (arrived.map Prod.fst).Subperm (List.range n) :=
    List.subperm_of_subset h.nodup fun j hj =>
      List.mem_range.mpr (Nat.lt_of_lt_of_le (h.lt j hj) h.le)
  have hperm := hsub.perm_of_length_le (by simp [hn])
  exact hperm.mem_iff.mpr (List.mem_range.mpr hi)

theorem Gather.Arrived.new (h : Gather.Arrived n pc (arrived ++ [(i, r)])) :
    i ∉ arrived.map Prod.fst ∧ i < pc.attached n ∧ arrived.length < n := by
  have hnodup := h.nodup
  have hlength := h.length_le
  rw [List.map_append, List.nodup_append] at hnodup
  rw [List.length_append, List.length_singleton] at hlength
  exact ⟨fun hi => hnodup.2.2 i hi i (by simp) rfl, h.lt i (by simp),
    Nat.lt_of_lt_of_le hlength h.le⟩

/-- What the futures have, once all callbacks have come. -/
theorem filled_eq {C : Type} {s : Gather ε V C} (h : Gather.Inv n s)
    (hall : ∀ i < n, i ∈ s.arrived.map Prod.fst) :
    filled s.arrived n = (List.range n).map fun i => (s.future i).state.getValue := by
  refine List.map_congr_left fun i hi => ?_
  have hmem := hall i (List.mem_range.mp hi)
  cases hlookup : s.arrived.lookup i with
  | none => exact absurd hmem (lookup_eq_none_iff.mp hlookup)
  | some r =>
    have hpair : (i, r) ∈ s.arrived := by
      obtain ⟨l₁, l₂, heq, -⟩ := List.lookup_eq_some_iff.mp hlookup
      simp [heq]
    rw [h.outcome _ hpair, SharedState.settled_getValue]

end Lookup

/-! ## when_all -/

/-- A vector of futures. -/
abbrev Sequence (ε V : Type) := List (Option (Outcome ε V))

structure AllContext (ε V : Type) where
  totalFutures : Nat
  readyFutures : Nat := 0
  /-- `none` once it has been moved. -/
  result : Option (Sequence ε V) := some []
  p : SharedState ε (Sequence ε V) := {}
  /-- An element has been used that is not there, or `set_value` has thrown. -/
  failed : Bool := false

namespace AllContext

variable (c : AllContext ε V)

/-- `push_back`, and the element on which `then` is called. -/
def pushBack (index : Nat) : AllContext ε V :=
  match c.result with
  | some result =>
    if index = result.length then { c with result := some (result ++ [none]) }
    else { c with failed := true }
  | none => { c with failed := true }

def callback (index : Nat) (f : Outcome ε V) : AllContext ε V :=
  match c.result with
  | some result =>
    if index < result.length then
      let result := result.set index (some f)
      let readyFutures := c.readyFutures + 1
      if readyFutures = c.totalFutures then
        match c.p.setValue result with
        | .ok p => { c with readyFutures, result := none, p := p.unlock }
        | .error _ => { c with readyFutures, result := some result, failed := true }
      else { c with readyFutures, result := some result }
    else { c with failed := true }
  | none => { c with failed := true }

/-- The function drops its pointer to the context; a callback holds another. -/
def returns : AllContext ε V :=
  if c.totalFutures = 0 then { c with p := c.p.abandon } else c

end AllContext

def whenAll : Combinator ε V (AllContext ε V) where
  before index c := c.pushBack index
  callback index f c := c.callback index f
  after c := c
  last c := c.returns

variable {pc : LoopPc} {arrived : List (Nat × Outcome ε V)}

/-- The promise has its value when the last callback has come. -/
structure AllKept (n : Nat) (pc : LoopPc) (arrived : List (Nat × Outcome ε V))
    (c : AllContext ε V) : Prop where
  total : c.totalFutures = n
  ready : c.readyFutures = arrived.length
  failed : c.failed = false
  result : arrived.length < n ∨ n = 0 → c.result = some (filled arrived (pc.attached n))
  waiting : arrived.length < n → c.p = {}
  complete : 0 < n → arrived.length = n → c.p = .settled false (.returns (filled arrived n))
  empty : n = 0 →
    c.p = if pc = .returned then .settled false (.throws (futureError .brokenPromise)) else {}

theorem all_keeps : Gather.Keeps (whenAll : Combinator ε V _) n (AllKept n) where
  before {i arrived c} ha hi h b := by
    have hlength : arrived.length < n := Nat.lt_of_le_of_lt ha.length_le hi
    have hnew : arrived.lookup i = none :=
      lookup_eq_none_iff.mpr fun hmem => Nat.lt_irrefl i (ha.lt i hmem)
    have hresult : c.result = some (filled arrived i) := h.result (.inl hlength)
    have hpush : c.pushBack i = { c with result := some (filled arrived (i + 1)) } := by
      simp [AllContext.pushBack, hresult, filled_succ, hnew]
    show AllKept n _ arrived (c.pushBack i)
    rw [hpush]
    exact ⟨h.total, h.ready, h.failed, fun _ => rfl, h.waiting, h.complete, fun h0 => by omega⟩
  callback {pc arrived c i r} ha h := by
    obtain ⟨hnew, hi, hlength⟩ := ha.new
    have hattached := ha.length_le
    have hle := ha.le
    rw [List.length_append, List.length_singleton] at hattached
    have hresult : c.result = some (filled arrived (pc.attached n)) := h.result (.inl hlength)
    show AllKept n pc _ (c.callback i r)
    by_cases hfull : arrived.length + 1 = n
    · have hcall : c.callback i r = { c with
          readyFutures := n
          result := none
          p := .settled false (.returns (filled (arrived ++ [(i, r)]) n)) } := by
        have hn : pc.attached n = n := by omega
        rw [hn] at hi hresult
        have hset : c.p.setValue (filled (arrived ++ [(i, r)]) n) =
            .ok (.settled true (.returns (filled (arrived ++ [(i, r)]) n))) := by
          rw [h.waiting hlength]
          rfl
        simp only [AllContext.callback, hresult, length_filled, if_pos hi, set_filled hnew,
          h.ready, h.total, hfull, if_true, hset, SharedState.settled_unlock]
      rw [hcall]
      refine ⟨h.total, by simp [hfull], h.failed, fun hlt => ?_, fun hlt => ?_, fun _ _ => rfl,
        fun h0 => by omega⟩
      · simp only [List.length_append, List.length_singleton] at hlt
        omega
      · simp only [List.length_append, List.length_singleton] at hlt
        omega
    · have hcall : c.callback i r = { c with
          readyFutures := arrived.length + 1
          result := some (filled (arrived ++ [(i, r)]) (pc.attached n)) } := by
        simp only [AllContext.callback, hresult, length_filled, if_pos hi, set_filled hnew,
          h.ready, h.total, if_neg hfull]
      rw [hcall]
      refine ⟨h.total, by simp, h.failed, fun _ => rfl, fun _ => h.waiting hlength,
        fun _ heq => ?_, fun h0 => by omega⟩
      simp only [List.length_append, List.length_singleton] at heq
      exact absurd heq hfull
  resume h := ⟨h.total, h.ready, h.failed, h.result, h.waiting, h.complete, h.empty⟩
  after _ h := ⟨h.total, h.ready, h.failed, h.result, h.waiting, h.complete, h.empty⟩
  last {arrived c} ha h := by
    show AllKept n _ arrived c.returns
    by_cases h0 : n = 0
    · have hp : c.p = {} := by simpa using h.empty h0
      have hreturns : c.returns =
          { c with p := .settled false (.throws (futureError .brokenPromise)) } := by
        rw [AllContext.returns, if_pos (h.total.trans h0), hp, SharedState.abandon_unsatisfied]
      rw [hreturns]
      exact ⟨h.total, h.ready, h.failed, h.result, fun hlt => by omega, fun hpos => by omega,
        fun _ => rfl⟩
    · have hreturns : c.returns = c := if_neg fun hc => h0 (h.total.symm.trans hc)
      rw [hreturns]
      exact ⟨h.total, h.ready, h.failed, h.result, h.waiting, h.complete, fun hc => absurd hc h0⟩

/-! ## when_any -/

structure AnyContext (ε V : Type) where
  total : Nat
  processed : Nat := 0
  index : Nat := 0
  /-- `none` once it has been moved. -/
  sequence : Option (Sequence ε V)
  p : SharedState ε (Nat × Sequence ε V) := {}
  ready : Bool := false
  resultMoved : Bool := false
  /-- An element has been used that is not there, or `set_value` has thrown. -/
  failed : Bool := false

namespace AnyContext

variable (c : AnyContext ε V)

/-- The element on which `then` is called. -/
def element (index : Nat) : AnyContext ε V :=
  match c.sequence with
  | some sequence => if index < sequence.length then c else { c with failed := true }
  | none => { c with failed := true }

/-- `p.set_value(std::move(result))`. -/
def moveResult : AnyContext ε V :=
  match c.sequence with
  | some sequence =>
    match c.p.setValue (c.index, sequence) with
    | .ok p => { c with sequence := none, p := p.unlock, resultMoved := true }
    | .error _ => { c with failed := true }
  | none => { c with failed := true }

def callback (index : Nat) (f : Outcome ε V) : AnyContext ε V :=
  if c.ready then c
  else
    match c.sequence with
    | some sequence =>
      if index < sequence.length then
        let c := { c with index, ready := true, sequence := some (sequence.set index (some f)) }
        if c.processed = c.total ∧ c.resultMoved = false then c.moveResult else c
      else { c with failed := true }
    | none => { c with failed := true }

/-- Behind the loop, until the function has dropped its pointer to the context. -/
def returns : AnyContext ε V :=
  let c := if c.ready && !c.resultMoved then c.moveResult else c
  if c.total = 0 then { c with p := c.p.abandon } else c

end AnyContext

def whenAny : Combinator ε V (AnyContext ε V) where
  before index c := c.element index
  callback index f c := c.callback index f
  after c := { c with processed := c.processed + 1 }
  last c := c.returns

/-- How many futures the loop has behind it. -/
def LoopPc.processed (n : Nat) : LoopPc → Nat
  | .head i => i
  | .within i _ => i
  | .returned => n

/-- The result if this callback is the first. -/
def anyResult (n : Nat) (x : Nat × Outcome ε V) : Nat × Sequence ε V :=
  (x.1, (List.replicate n none).set x.1 (some x.2))

inductive AnyStage (n : Nat) (pc : LoopPc) (c : AnyContext ε V) :
    List (Nat × Outcome ε V) → Prop where
  | waiting : c.ready = false → c.resultMoved = false → c.sequence = some (List.replicate n none) →
      c.p = {} → (pc = .returned → 0 < n) → AnyStage n pc c []
  /-- The loop moves the result when it is through. -/
  | held (x arrived) : c.ready = true → c.resultMoved = false → c.index = (anyResult n x).1 →
      c.sequence = some (anyResult n x).2 → c.p = {} → pc ≠ .returned →
      AnyStage n pc c (x :: arrived)
  | moved (x arrived) : c.ready = true → c.resultMoved = true →
      c.p = .settled false (.returns (anyResult n x)) → pc.processed n = n → 0 < n →
      AnyStage n pc c (x :: arrived)
  | broken : c.ready = false → c.p = .settled false (.throws (futureError .brokenPromise)) →
      pc = .returned → n = 0 → AnyStage n pc c []

structure AnyKept (n : Nat) (pc : LoopPc) (arrived : List (Nat × Outcome ε V))
    (c : AnyContext ε V) : Prop where
  total : c.total = n
  processed : c.processed = pc.processed n
  failed : c.failed = false
  stage : AnyStage n pc c arrived

section Any

variable {c : AnyContext ε V} {x : Nat × Outcome ε V} {i : Nat} {r : Outcome ε V}

theorem moveResult_eq (hs : c.sequence = some (anyResult n x).2) (hi : c.index = (anyResult n x).1)
    (hp : c.p = {}) : c.moveResult = { c with
      sequence := none
      p := .settled false (.returns (anyResult n x))
      resultMoved := true } := by
  simp only [AnyContext.moveResult, hs, hi, hp]
  rfl

/-- The loop goes on. -/
theorem AnyStage.move (h : AnyStage n pc c arrived) (hpc : pc ≠ .returned) (pc' : LoopPc) (p : Nat)
    (hpc' : pc' ≠ .returned) (hprocessed : pc.processed n = n → pc'.processed n = n) :
    AnyStage n pc' { c with processed := p } arrived := by
  cases h with
  | waiting hready hmoved hsequence hp _ =>
    exact .waiting hready hmoved hsequence hp fun heq => absurd heq hpc'
  | held x arrived hready hmoved hindex hsequence hp _ =>
    exact .held x arrived hready hmoved hindex hsequence hp hpc'
  | moved x arrived hready hmoved hp hall hn =>
    exact .moved x arrived hready hmoved hp (hprocessed hall) hn
  | broken _ _ heq _ => exact absurd heq hpc

/-- The first callback. -/
theorem AnyKept.callback_first (h : AnyKept n pc [] c) (ha : Gather.Arrived n pc ([] ++ [(i, r)])) :
    AnyKept n pc [(i, r)] (c.callback i r) := by
  obtain ⟨-, hattached, hn⟩ := ha.new
  have hi : i < n := Nat.lt_of_lt_of_le hattached ha.le
  cases h.stage with
  | waiting hready hmoved hsequence hp _ =>
    obtain ⟨d, hd⟩ : ∃ d : AnyContext ε V, d =
        { c with index := i, ready := true, sequence := some (anyResult n (i, r)).2 } := ⟨_, rfl⟩
    have hcall : c.callback i r =
        if d.processed = d.total ∧ d.resultMoved = false then d.moveResult else d := by
      simp [AnyContext.callback, hready, hsequence, hi, anyResult, hd]
    rw [hcall]
    by_cases hprocessed : c.processed = c.total
    · have hmove : d.moveResult = { d with
          sequence := none
          p := .settled false (.returns (anyResult n (i, r)))
          resultMoved := true } := moveResult_eq (by rw [hd]) (by rw [hd]; rfl) (by rw [hd, hp])
      subst hd
      rw [if_pos ⟨hprocessed, hmoved⟩, hmove]
      exact ⟨h.total, h.processed, h.failed, .moved _ _ rfl rfl rfl
        (by rw [← h.processed, hprocessed, h.total]) hn⟩
    · subst hd
      rw [if_neg fun hc => hprocessed hc.1]
      refine ⟨h.total, h.processed, h.failed, .held _ _ rfl hmoved rfl rfl hp ?_⟩
      rintro rfl
      exact hprocessed (h.processed.trans h.total.symm)
  | broken _ _ _ h0 => omega

theorem any_keeps : Gather.Keeps (whenAny : Combinator ε V _) n (AnyKept n) where
  before {i arrived c} ha hi h b := by
    have helement : c.element i = c := by
      cases h.stage with
      | waiting _ _ hsequence _ _ => simp [AnyContext.element, hsequence, hi]
      | held x _ _ _ _ hsequence _ _ => simp [AnyContext.element, hsequence, hi, anyResult]
      | moved x _ _ _ _ hprocessed _ => exact absurd hprocessed (Nat.ne_of_lt hi)
      | broken _ _ hpc _ => cases hpc
    show AnyKept n _ arrived (c.element i)
    rw [helement]
    exact ⟨h.total, h.processed, h.failed,
      h.stage.move (by simp) (.within i b) c.processed (by simp) id⟩
  callback {pc arrived c i r} ha h := by
    cases arrived with
    | nil => exact h.callback_first ha
    | cons x arrived =>
      have hready : c.ready = true := by cases h.stage <;> assumption
      have hcall : c.callback i r = c := if_pos hready
      show AnyKept n pc _ (c.callback i r)
      rw [hcall]
      refine ⟨h.total, h.processed, h.failed, ?_⟩
      cases h.stage with
      | held _ _ hready hmoved hindex hsequence hp hpc =>
        exact .held x _ hready hmoved hindex hsequence hp hpc
      | moved _ _ hready hmoved hp hprocessed hn =>
        exact .moved x _ hready hmoved hp hprocessed hn
  resume {i arrived c} h := ⟨h.total, h.processed, h.failed,
    h.stage.move (by simp) (.within i false) c.processed (by simp) id⟩
  after {i arrived c} ha h := by
    have hi : i + 1 ≤ n := ha.le
    refine ⟨h.total, congrArg (· + 1) h.processed, h.failed,
      h.stage.move (by simp) (.head (i + 1)) _ (by simp) fun heq => ?_⟩
    have hin : i = n := heq
    omega
  last {arrived c} ha h := by
    show AnyKept n _ arrived c.returns
    cases h.stage with
    | waiting hready hmoved hsequence hp _ =>
      by_cases h0 : n = 0
      · have hreturns : c.returns =
            { c with p := .settled false (.throws (futureError .brokenPromise)) } := by
          simp [AnyContext.returns, hready, h.total, h0, hp, SharedState.abandon_unsatisfied]
        rw [hreturns]
        exact ⟨h.total, h.processed, h.failed, .broken hready rfl rfl h0⟩
      · have hreturns : c.returns = c := by simp [AnyContext.returns, hready, h.total, h0]
        rw [hreturns]
        exact ⟨h.total, h.processed, h.failed,
          .waiting hready hmoved hsequence hp fun _ => Nat.pos_of_ne_zero h0⟩
    | held x arrived hready hmoved hindex hsequence hp _ =>
      have hn : 0 < n := Nat.lt_of_lt_of_le (by simp) ha.length_le
      have hreturns : c.returns = c.moveResult := by
        simp only [AnyContext.returns, hready, hmoved, moveResult_eq hsequence hindex hp]
        simp [h.total, Nat.ne_of_gt hn]
      rw [hreturns, moveResult_eq hsequence hindex hp]
      exact ⟨h.total, h.processed, h.failed, .moved x _ hready rfl rfl rfl hn⟩
    | moved x arrived hready hmoved hp hprocessed hn =>
      have hreturns : c.returns = c := by
        simp [AnyContext.returns, hready, hmoved, h.total, Nat.ne_of_gt hn]
      rw [hreturns]
      exact ⟨h.total, h.processed, h.failed, .moved x _ hready hmoved hp rfl hn⟩
    | broken _ _ hpc _ => cases hpc

end Any

/-! ## Every order of the callbacks -/

/-- `when_all`: however the futures are satisfied while the loop is under way or behind it, the
promise is satisfied once, when all futures are, with what each of them has; it is by the time the
last callback is through. Without futures it is broken. -/
theorem when_all_run {ls : List (Gather.Label ε V)} {s : Gather ε V (AllContext ε V)}
    (hr : run (Gather.step whenAll n) { context := { totalFutures := n } } ls = some s) :
    s.context.failed = false ∧
      (∀ o, s.context.p.getValue = some o →
        if n = 0 then o = .throws (futureError .brokenPromise)
        else (∀ i < n, (s.future i).state.satisfied = true) ∧
          o = .returns ((List.range n).map fun i => (s.future i).state.getValue)) ∧
      (Gather.Quiet n s → s.context.p.satisfied = true) := by
  obtain ⟨hinv, h⟩ := all_keeps.run (J := AllKept n)
    ⟨rfl, rfl, rfl, fun _ => rfl, fun _ => rfl, fun hpos heq => absurd heq (Nat.ne_of_lt hpos),
      fun _ => rfl⟩ hr
  have hlength := Nat.le_trans hinv.arrived.length_le hinv.arrived.le
  refine ⟨h.failed, fun o ho => ?_, fun hq => ?_⟩
  · split
    · next h0 =>
      rw [h.empty h0] at ho
      split at ho
      · simpa using ho.symm
      · simp [SharedState.getValue] at ho
    · next h0 =>
      have hfull : s.arrived.length = n := by
        refine Nat.le_antisymm hlength (Nat.le_of_not_lt fun hlt => ?_)
        simp [h.waiting hlt, SharedState.getValue] at ho
      have hall : ∀ i < n, i ∈ s.arrived.map Prod.fst :=
        fun i hi => hinv.arrived.mem_of_length hfull hi
      rw [h.complete (Nat.pos_of_ne_zero h0) hfull, SharedState.settled_getValue,
        filled_eq hinv hall] at ho
      refine ⟨fun i hi => ?_, (Option.some.inj ho).symm⟩
      obtain ⟨x, hx, rfl⟩ := List.mem_map.mp (hall i hi)
      rw [hinv.outcome x hx, SharedState.settled_satisfied]
  · by_cases h0 : n = 0
    · rw [h.empty h0, if_pos hq.1, SharedState.settled_satisfied]
    · have hperm : (List.range n).Subperm (s.arrived.map Prod.fst) :=
        List.subperm_of_subset List.nodup_range fun i hi =>
          hinv.arrived_of_quiet hq (List.mem_range.mp hi)
      have hge : n ≤ s.arrived.length := by simpa using hperm.length_le
      rw [h.complete (Nat.pos_of_ne_zero h0) (Nat.le_antisymm hlength hge),
        SharedState.settled_satisfied]

/-- One future is satisfied in front of its `then`, the other behind it. -/
theorem when_all_run_twoRun : ∃ s : Gather Unit Nat (AllContext Unit Nat),
    run (Gather.step whenAll 2) { context := { totalFutures := 2 } }
      [.attach, .after, .settle 0 (.returns 5), .abandon 1, .call 0, .attach, .call 1, .after,
        .last] = some s ∧ s.context.p.satisfied = true := by
  have hrun : ∃ s : Gather Unit Nat (AllContext Unit Nat),
      run (Gather.step whenAll 2) { context := { totalFutures := 2 } }
        [.attach, .after, .settle 0 (.returns 5), .abandon 1, .call 0, .attach, .call 1, .after,
          .last] = some s ∧
        (s.pc = .returned ∧ ∀ i < 2, (s.future i).state.satisfied = true ∧
          (s.future i).calls = 0) := run_reaches (by decide)
  obtain ⟨s, hr, hq⟩ := hrun
  exact ⟨s, hr, (when_all_run hr).2.2 hq⟩

/-- `when_any`: the promise is satisfied once, with the index of the future whose callback came
first and with the other futures as they were given; it is once the loop is through and a callback
has come. Without futures it is broken. -/
theorem when_any_run {ls : List (Gather.Label ε V)} {s : Gather ε V (AnyContext ε V)}
    (hr : run (Gather.step whenAny n)
      { context := { total := n, sequence := some (List.replicate n none) } } ls = some s) :
    s.context.failed = false ∧
      (∀ o, s.context.p.getValue = some o →
        if n = 0 then o = .throws (futureError .brokenPromise)
        else ∃ i r, s.arrived.head? = some (i, r) ∧ i < n ∧
          (s.future i).state.getValue = some r ∧
          o = .returns (i, (List.replicate n none).set i (some r))) ∧
      (s.pc = .returned → (s.context.p.satisfied = true ↔ n = 0 ∨ s.arrived ≠ [])) := by
  obtain ⟨hinv, h⟩ := any_keeps.run (J := AnyKept n)
    ⟨rfl, rfl, rfl, .waiting rfl rfl rfl rfl fun hpc => by cases hpc⟩ hr
  obtain ⟨arrived, harrived⟩ : ∃ l, l = s.arrived := ⟨_, rfl⟩
  have hstage := h.stage
  rw [← harrived] at hstage ⊢
  refine ⟨h.failed, fun o ho => ?_, fun hpc => ?_⟩
  · cases hstage with
    | waiting _ _ _ hp _ => simp [hp, SharedState.getValue] at ho
    | held _ _ _ _ _ _ hp _ => simp [hp, SharedState.getValue] at ho
    | moved x rest _ _ hp _ hn =>
      have hx : x ∈ s.arrived := by simp [← harrived]
      have hlt := hinv.arrived.lt x.1 (List.mem_map.mpr ⟨x, hx, rfl⟩)
      rw [hp, SharedState.settled_getValue] at ho
      rw [if_neg (Nat.ne_of_gt hn)]
      refine ⟨x.1, x.2, rfl, Nat.lt_of_lt_of_le hlt hinv.arrived.le, ?_, (Option.some.inj ho).symm⟩
      rw [hinv.outcome x hx, SharedState.settled_getValue]
    | broken _ hp _ h0 =>
      rw [hp, SharedState.settled_getValue] at ho
      rw [if_pos h0]
      exact (Option.some.inj ho).symm
  · cases hstage with
    | waiting _ _ _ hp hn => simp [hp, Nat.ne_of_gt (hn hpc)]
    | held _ _ _ _ _ _ _ hne => exact absurd hpc hne
    | moved x rest _ _ hp _ _ => simp [hp]
    | broken _ hp _ h0 => simp [hp, h0]

/-- The second future is satisfied first, behind the loop. -/
theorem when_any_run_secondRun : ∃ s : Gather Unit Nat (AnyContext Unit Nat),
    run (Gather.step whenAny 2)
      { context := { total := 2, sequence := some (List.replicate 2 none) } }
      [.attach, .after, .attach, .after, .last, .settle 1 (.returns 5), .call 1] = some s ∧
      s.context.p.satisfied = true := by
  have hrun : ∃ s : Gather Unit Nat (AnyContext Unit Nat),
      run (Gather.step whenAny 2)
        { context := { total := 2, sequence := some (List.replicate 2 none) } }
        [.attach, .after, .attach, .after, .last, .settle 1 (.returns 5), .call 1] = some s ∧
        (s.pc = .returned ∧ s.arrived ≠ []) := run_reaches (by decide)
  obtain ⟨s, hr, hpc, harrived⟩ := hrun
  exact ⟨s, hr, ((when_any_run hr).2.2 hpc).mpr (.inr harrived)⟩

end JamSched.Exec
