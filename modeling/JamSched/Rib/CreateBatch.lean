import JamSched.Rib.Step
import Mathlib.Data.List.ReduceOption

/-!
# CreateBatchTask

The function as a whole, with the choice of a worker. The vector `thiefs` holds a null pointer or
the `Size()` of a worker at each place; `SetStealers` takes every vector. The other threads go on
in the meantime, so `pNextThief->Size()` may give another value each time it is read.
-/
namespace JamSched.Rib

structure StackTraits where
  useSharedStack : Bool := false
  canSteal : Bool := true
  launchImmediately : Bool := false
  pinCore : Int := -1
  deriving DecidableEq, Repr

inductive Fault where
  /-- A worker is used through a null pointer. -/
  | nullWorker
  /-- `rand() % thiefs.size()` of an empty vector. -/
  | divisionByZero
  deriving DecidableEq, Repr

structure Workers where
  /-- `Size()` of each worker as `GetMinThief` finds it, `none` for a null pointer. -/
  thiefs : List (Option Nat)
  /-- A worker that is not in the vector has a number from `thiefs.size()` on. -/
  isReady : Nat → List Ptr

/-- What the function reads after `GetMinThief`. -/
structure Readings where
  /-- `pNextThief->Size()` in the test for the worker of the caller. -/
  size₁ : Nat
  /-- `pNextThief->Size()` in the test for a random worker. -/
  size₂ : Nat
  rand : Nat
  deriving DecidableEq, Repr

/-- `thiefs[i].get()`. -/
def thiefAt (thiefs : List (Option Nat)) (i : Nat) : Option Nat := thiefs[i]?.join.map fun _ => i

/-- The loop of `GetMinThief` at place `i` of the vector. -/
def scanThiefs (i : Nat) (minThief : Option Nat) (minSize : Nat) :
    List (Option Nat) → Except Fault (Option Nat)
  | [] => .ok minThief
  | none :: _ => .error .nullWorker
  | some nsz :: thiefs =>
    if nsz = 0 then .ok (some i)
    else if minSize > nsz then scanThiefs (i + 1) (some i) nsz thiefs
    else scanThiefs (i + 1) minThief minSize thiefs

/-- The worker that `pinCore` names, if the vector has it. -/
def pinnedThief (thiefs : List (Option Nat)) (pinCore : Int) : Option Nat :=
  if -1 < pinCore ∧ pinCore < thiefs.length then thiefAt thiefs pinCore.toNat else none

/-- `pNextThief == nullptr || pNextThief->Size() > 0`, and the random choice. -/
def orRandomThief (thiefs : List (Option Nat)) (r : Readings) (pNextThief : Option Nat) :
    Except Fault (Option Nat) :=
  if pNextThief = none ∨ 0 < r.size₂ then
    if thiefs.length = 0 then .error .divisionByZero
    else .ok (thiefAt thiefs (r.rand % thiefs.length))
  else .ok pNextThief

/-- The two tests after `GetMinThief`. The caller is the scheduler of `TaskInterface::Active()`. -/
def orCallersThief (thiefs : List (Option Nat)) (caller : Option SchedId) (r : Readings)
    (pNextThief : Option Nat) : Except Fault (Option Nat) :=
  match caller with
  | some (.thief j) =>
    match pNextThief with
    | none => .error .nullWorker
    | some i => if 0 < r.size₁ then .ok (some j) else orRandomThief thiefs r (some i)
  | some .rib | none => orRandomThief thiefs r pNextThief

def chooseThief (thiefs : List (Option Nat)) (pinCore : Int) (caller : Option SchedId)
    (r : Readings) : Except Fault (Option Nat) :=
  match pinnedThief thiefs pinCore with
  | some i => .ok (some i)
  | none => do orCallersThief thiefs caller r (← scanThiefs 0 none (2 ^ 32 - 1) thiefs)

/-- `Enable` or `EnableImmediately` of worker `i`. -/
def Workers.push (w : Workers) (i : Nat) (immediately : Bool) (p : Ptr) : Workers where
  thiefs := w.thiefs.modify i (Option.map (· + 1))
  isReady := Function.update w.isReady i
    (if immediately then p :: w.isReady i else w.isReady i ++ [p])

/-- The subclass that is allocated. -/
def StackTraits.stack (traits : StackTraits) : StackKind :=
  if traits.useSharedStack then .sharedCopy else .standAlone

def createBatchTask (s : State) (w : Workers) (traits : StackTraits) (burst : Int)
    (caller : Option SchedId) (r : Readings) : Except Fault (State × Workers) :=
  let fn : TaskInterface :=
    { taskType := .batch, stack := traits.stack, isStealable := traits.canSteal, burst }
  if traits.canSteal then do
    match ← chooseThief w.thiefs traits.pinCore caller r with
    -- the task is enabled through its scheduler
    | none => .error .nullWorker
    | some i =>
      .ok ({ s.create (fn.steal (.thief i)) with
          handed := s.fresh :: s.handed
          thiefSizes := s.thiefSizes.modify i (· + 1) },
        w.push i traits.launchImmediately s.fresh)
  else .ok ({ s.create fn with bQueue := s.bQueue ++ [s.fresh] }, w)

/-- The vector has a worker at place `i`. -/
def IsWorker (thiefs : List (Option Nat)) (i : Nat) : Prop := ∃ n, thiefs[i]? = some (some n)

/-- Some worker of the vector has a `Size()` below the one from which `GetMinThief` starts. -/
def HasSmall (thiefs : List (Option Nat)) : Prop := ∃ n, some n ∈ thiefs ∧ n < 2 ^ 32 - 1

/-- A stealable task is pinned to a worker of the vector, or `GetMinThief` meets no null pointer
and the tests behind it end with a worker. -/
def CanPlace (thiefs : List (Option Nat)) (traits : StackTraits) (caller : Option SchedId)
    (r : Readings) : Prop :=
  traits.canSteal = true → ¬ (∃ i : Nat, traits.pinCore = i ∧ IsWorker thiefs i) →
    none ∉ thiefs.takeWhile (· ≠ some 0) ∧
    match caller with
    | some (.thief _) =>
      HasSmall thiefs ∧ (0 < r.size₁ ∨ r.size₂ = 0 ∨ IsWorker thiefs (r.rand % thiefs.length))
    | some .rib | none =>
      HasSmall thiefs ∧ r.size₂ = 0 ∨ IsWorker thiefs (r.rand % thiefs.length)

section Choice

variable {thiefs : List (Option Nat)} {i j : Nat} {m : Option Nat} {size : Nat}
  {pinCore : Int} {caller : Option SchedId} {r : Readings}

theorem thiefAt_eq_some : thiefAt thiefs i = some j ↔ i = j ∧ IsWorker thiefs i := by
  simp [thiefAt, Option.join_eq_some_iff, IsWorker]
  grind

theorem pinnedThief_eq_some :
    pinnedThief thiefs pinCore = some i ↔ pinCore = i ∧ IsWorker thiefs i := by
  simp only [pinnedThief, Option.ite_none_right_eq_some, thiefAt_eq_some]
  constructor
  · rintro ⟨hrange, rfl, hworker⟩
    exact ⟨by omega, hworker⟩
  · rintro ⟨rfl, hworker⟩
    obtain ⟨n, hn⟩ := hworker
    obtain ⟨hlt, -⟩ := List.getElem?_eq_some_iff.mp hn
    exact ⟨by omega, rfl, n, hn⟩

theorem pinnedThief_eq_none :
    pinnedThief thiefs pinCore = none ↔ ¬ ∃ i : Nat, pinCore = i ∧ IsWorker thiefs i := by
  simp only [Option.eq_none_iff_forall_ne_some, ne_eq, pinnedThief_eq_some, not_exists]

/-- A scan that meets no null pointer is the loop of `GetMinThief` on the sizes of the workers. -/
theorem scanThiefs_eq (h : none ∉ thiefs.takeWhile (· ≠ some 0)) (i : Nat) (m : Option Nat)
    (size : Nat) :
    scanThiefs i m size thiefs = .ok (getMinThiefFrom i m size thiefs.reduceOption) := by
  induction thiefs generalizing i m size with
  | nil => rfl
  | cons o thiefs ih =>
    cases o with
    | none => simp at h
    | some n =>
      simp only [scanThiefs, List.reduceOption_cons_of_some, getMinThiefFrom]
      split
      · rfl
      · have hrest : none ∉ thiefs.takeWhile (· ≠ some 0) := by
          simpa [List.takeWhile_cons, *] using h
        split <;> exact ih hrest _ _ _

/-- A null pointer before the first empty worker is dereferenced. -/
theorem scanThiefs_error (h : none ∈ thiefs.takeWhile (· ≠ some 0)) (i : Nat) (m : Option Nat)
    (size : Nat) : scanThiefs i m size thiefs = .error .nullWorker := by
  induction thiefs generalizing i m size with
  | nil => simp at h
  | cons o thiefs ih =>
    cases o with
    | none => rfl
    | some n =>
      by_cases hn : n = 0
      · simp [hn] at h
      · have hrest : none ∈ thiefs.takeWhile (· ≠ some 0) := by
          simpa [List.takeWhile_cons, hn] using h
        simp only [scanThiefs, hn, ↓reduceIte]
        split <;> exact ih hrest _ _ _

/-- The worker that a scan finds is in the vector. -/
theorem scanThiefs_ok (h : scanThiefs i m size thiefs = .ok (some j)) :
    m = some j ∨ ∃ k, j = i + k ∧ IsWorker thiefs k := by
  induction thiefs generalizing i m size with
  | nil => exact .inl (by simpa [scanThiefs] using h)
  | cons o thiefs ih =>
    cases o with
    | none => simp [scanThiefs] at h
    | some n =>
      have hhead : ∃ k, i = i + k ∧ IsWorker (some n :: thiefs) k := ⟨0, rfl, n, rfl⟩
      have htail (k) (hk : IsWorker thiefs k) :
          ∃ k', i + 1 + k = i + k' ∧ IsWorker (some n :: thiefs) k' := ⟨k + 1, by omega, hk⟩
      simp only [scanThiefs] at h
      split_ifs at h
      · obtain rfl : i = j := by simpa using h
        exact .inr hhead
      · rcases ih h with heq | ⟨k, rfl, hk⟩
        · obtain rfl : i = j := by simpa using heq
          exact .inr hhead
        · exact .inr (htail k hk)
      · rcases ih h with heq | ⟨k, rfl, hk⟩
        · exact .inl heq
        · exact .inr (htail k hk)

/-- A scan that meets no null pointer finds a worker if one has a size below the first bound. -/
theorem scanThiefs_small (h : none ∉ thiefs.takeWhile (· ≠ some 0)) :
    ∃ m, scanThiefs 0 none (2 ^ 32 - 1) thiefs = .ok m ∧ (m ≠ none ↔ HasSmall thiefs) := by
  refine ⟨_, scanThiefs_eq h _ _ _, ?_⟩
  rw [← getMinThief, ne_eq, getMinThief_eq_none]
  simp [HasSmall, List.reduceOption_mem_iff]

theorem orRandomThief_ok :
    (∃ i, orRandomThief thiefs r m = .ok (some i)) ↔
      m ≠ none ∧ r.size₂ = 0 ∨ IsWorker thiefs (r.rand % thiefs.length) := by
  by_cases hrandom : m = none ∨ 0 < r.size₂
  · have hnot : ¬ (m ≠ none ∧ r.size₂ = 0) := by grind
    simp only [orRandomThief, hrandom, ↓reduceIte, hnot, false_or]
    by_cases hempty : thiefs.length = 0
    · simp [IsWorker, List.length_eq_zero_iff.mp hempty]
    · simp [hempty, thiefAt_eq_some]
  · obtain ⟨i, rfl⟩ := Option.ne_none_iff_exists'.mp fun h => hrandom (.inl h)
    have hzero : r.size₂ = 0 := by grind
    simp [orRandomThief, hzero]

theorem orRandomThief_isWorker (hm : ∀ i, m = some i → IsWorker thiefs i)
    (h : orRandomThief thiefs r m = .ok (some i)) : IsWorker thiefs i := by
  simp only [orRandomThief] at h
  split_ifs at h with hrandom hempty
  · simp only [Except.ok.injEq, thiefAt_eq_some] at h
    obtain ⟨rfl, hworker⟩ := h
    exact hworker
  · exact hm i (by simpa using h)

/-- Without a pinned worker the outcome of the scan decides. -/
theorem chooseThief_of_scan (h : pinnedThief thiefs pinCore = none)
    {x : Except Fault (Option Nat)} (hscan : scanThiefs 0 none (2 ^ 32 - 1) thiefs = x) :
    chooseThief thiefs pinCore caller r = x.bind (orCallersThief thiefs caller r) := by
  rw [chooseThief, h, hscan]
  rfl

theorem orCallersThief_isWorker (hm : ∀ i, m = some i → IsWorker thiefs i)
    (h : orCallersThief thiefs caller r m = .ok (some i)) :
    IsWorker thiefs i ∨ caller = some (.thief i) := by
  cases caller with
  | none => exact .inl (orRandomThief_isWorker hm h)
  | some x =>
    cases x with
    | rib => exact .inl (orRandomThief_isWorker hm h)
    | thief j =>
      cases m with
      | none => simp [orCallersThief] at h
      | some k =>
        simp only [orCallersThief] at h
        split_ifs at h
        · obtain rfl : j = i := by simpa using h
          exact .inr rfl
        · exact .inl (orRandomThief_isWorker hm h)

/-- The worker is one of the vector or that of the caller. -/
theorem chooseThief_isWorker (h : chooseThief thiefs pinCore caller r = .ok (some i)) :
    IsWorker thiefs i ∨ caller = some (.thief i) := by
  cases hpinned : pinnedThief thiefs pinCore with
  | some j =>
    obtain rfl : j = i := by simpa [chooseThief, hpinned] using h
    exact .inl (pinnedThief_eq_some.mp hpinned).2
  | none =>
    cases hscan : scanThiefs 0 none (2 ^ 32 - 1) thiefs with
    | error fault => simp [chooseThief_of_scan hpinned hscan, Except.bind] at h
    | ok m =>
      refine orCallersThief_isWorker (fun j hj => ?_) (by
        simpa only [chooseThief_of_scan hpinned hscan, Except.bind] using h)
      rcases scanThiefs_ok (hj ▸ hscan) with hnone | ⟨k, rfl, hk⟩
      · cases hnone
      · simpa using hk

theorem orCallersThief_ok (hm : m ≠ none ↔ HasSmall thiefs) :
    (∃ i, orCallersThief thiefs caller r m = .ok (some i)) ↔
      match caller with
      | some (.thief _) =>
        HasSmall thiefs ∧ (0 < r.size₁ ∨ r.size₂ = 0 ∨ IsWorker thiefs (r.rand % thiefs.length))
      | some .rib | none =>
        HasSmall thiefs ∧ r.size₂ = 0 ∨ IsWorker thiefs (r.rand % thiefs.length) := by
  cases caller with
  | none => simp only [orCallersThief, orRandomThief_ok, hm]
  | some x =>
    cases x with
    | rib => simp only [orCallersThief, orRandomThief_ok, hm]
    | thief j =>
      rw [← hm]
      cases m with
      | none => simp [orCallersThief]
      | some i =>
        by_cases hbusy : 0 < r.size₁
        · simp [orCallersThief, hbusy]
        · simp [orCallersThief, hbusy, orRandomThief_ok]

theorem chooseThief_ok {traits : StackTraits} (hsteal : traits.canSteal = true) :
    (∃ i, chooseThief thiefs traits.pinCore caller r = .ok (some i)) ↔
      CanPlace thiefs traits caller r := by
  simp only [CanPlace, ← pinnedThief_eq_none, hsteal, forall_const]
  cases hpinned : pinnedThief thiefs traits.pinCore with
  | some i => simp [chooseThief, hpinned]
  | none =>
    rw [imp_iff_right rfl]
    by_cases hnull : none ∈ thiefs.takeWhile (· ≠ some 0)
    · have hscan := scanThiefs_error hnull 0 none (2 ^ 32 - 1)
      refine iff_of_false ?_ fun h => h.1 hnull
      simp [chooseThief_of_scan hpinned hscan, Except.bind]
    · obtain ⟨m, hscan, hm⟩ := scanThiefs_small hnull
      rw [and_iff_right hnull, ← orCallersThief_ok hm]
      simp only [chooseThief_of_scan hpinned hscan, Except.bind]

end Choice

/-- The ready queues: `bQueue` and those of the workers. -/
def readyQueue (x : State × Workers) : SchedId → List Ptr
  | .rib => x.1.bQueue
  | .thief i => x.2.isReady i

/-- The new task is put once into the ready queue of `q`, which is its scheduler, and nothing
moves in the other ones. -/
structure PlacedIn (q : SchedId) (before after : State × Workers) : Prop where
  scheduler : (after.1.heap before.1.fresh).scheduler = q
  count : ∀ x p, (readyQueue after x).count p =
    (readyQueue before x).count p + if x = q ∧ p = before.1.fresh then 1 else 0
  edf : after.1.iEDFPriorityQueue = before.1.iEDFPriorityQueue
  cancel : after.1.iCancelStack = before.1.iCancelStack

section Create

variable {s : State} {w : Workers} {traits : StackTraits} {burst : Int} {caller : Option SchedId}
  {r : Readings}

theorem createBatchTask_of_steal (h : traits.canSteal = true)
    {x : Except Fault (Option Nat)} (hx : chooseThief w.thiefs traits.pinCore caller r = x) :
    createBatchTask s w traits burst caller r = x.bind fun pNextThief =>
      match pNextThief with
      | none => .error .nullWorker
      | some i =>
        .ok ({ s.create { stack := traits.stack, scheduler := .thief i, burst } with
            handed := s.fresh :: s.handed
            thiefSizes := s.thiefSizes.modify i (· + 1) },
          w.push i traits.launchImmediately s.fresh) := by
  simp only [createBatchTask, h, TaskInterface.steal, hx, ↓reduceIte]
  rfl

/-- A call that does not fail puts the task into one queue. -/
theorem placedIn_of_ok {after : State × Workers}
    (h : createBatchTask s w traits burst caller r = .ok after) :
    traits.canSteal = false ∧ PlacedIn .rib (s, w) after ∨
      traits.canSteal = true ∧ ∃ i, chooseThief w.thiefs traits.pinCore caller r = .ok (some i) ∧
        PlacedIn (.thief i) (s, w) after := by
  cases hsteal : traits.canSteal with
  | false =>
    simp only [createBatchTask, hsteal, Bool.false_eq_true, ↓reduceIte, Except.ok.injEq] at h
    subst h
    refine .inl ⟨rfl, by simp [State.create], fun x p => ?_, rfl, rfl⟩
    cases x with
    | rib => grind [readyQueue]
    | thief j => simp [readyQueue]
  | true =>
    cases hx : chooseThief w.thiefs traits.pinCore caller r with
    | error fault => simp [createBatchTask_of_steal hsteal hx, Except.bind] at h
    | ok m =>
      rw [createBatchTask_of_steal hsteal hx] at h
      cases m with
      | none => simp [Except.bind] at h
      | some i =>
        simp only [Except.bind, Except.ok.injEq] at h
        subst h
        refine .inr ⟨rfl, i, rfl, by simp [State.create], fun x p => ?_, rfl, rfl⟩
        cases x with
        | rib => simp [readyQueue, State.create]
        | thief j =>
          simp only [readyQueue, Workers.push, Function.update_apply, SchedId.thief.injEq]
          grind

theorem createBatchTask_ok (s : State) (burst : Int) :
    (∃ after, createBatchTask s w traits burst caller r = .ok after) ↔
      CanPlace w.thiefs traits caller r := by
  cases hsteal : traits.canSteal with
  | false => simp [createBatchTask, CanPlace, hsteal]
  | true =>
    rw [← chooseThief_ok hsteal]
    cases hx : chooseThief w.thiefs traits.pinCore caller r with
    | error fault => simp [createBatchTask_of_steal hsteal hx, Except.bind]
    | ok m => cases m <;> simp [createBatchTask_of_steal hsteal hx, Except.bind]

/-- A stealable task that is placed finds a worker in the vector. -/
theorem exists_isWorker (h : CanPlace w.thiefs traits caller r) (hsteal : traits.canSteal = true) :
    ∃ i, IsWorker w.thiefs i := by
  by_cases hpinned : ∃ i : Nat, traits.pinCore = i ∧ IsWorker w.thiefs i
  · obtain ⟨i, -, hworker⟩ := hpinned
    exact ⟨i, hworker⟩
  · have hsmall (hs : HasSmall w.thiefs) : ∃ i, IsWorker w.thiefs i := by
      obtain ⟨n, hn, -⟩ := hs
      obtain ⟨i, hi⟩ := List.mem_iff_getElem?.mp hn
      exact ⟨i, n, hi⟩
    obtain ⟨-, hcaller⟩ := h hsteal hpinned
    grind

/-- `CreateBatchTask` puts the new task into exactly one ready queue, that of a worker if it is
stealable and there is a worker, and else `bQueue`, if and only if it is not stealable, or it is
pinned to a worker, or the scan meets no null pointer and the tests that follow end with a
worker. -/
theorem createBatchTask_placed_iff (s : State) (w : Workers) (traits : StackTraits) (burst : Int)
    (caller : Option SchedId) (r : Readings) :
    (∃ after q, createBatchTask s w traits burst caller r = .ok after ∧
      PlacedIn q (s, w) after ∧
      (q ≠ .rib ↔ traits.canSteal = true ∧ ∃ i, IsWorker w.thiefs i) ∧
      ∀ i, q = .thief i → IsWorker w.thiefs i ∨ caller = some (.thief i)) ↔
    CanPlace w.thiefs traits caller r := by
  rw [← createBatchTask_ok s burst]
  constructor
  · rintro ⟨after, q, hok, -⟩
    exact ⟨after, hok⟩
  · rintro ⟨after, hok⟩
    rcases placedIn_of_ok hok with ⟨hsteal, hplaced⟩ | ⟨hsteal, i, hchoice, hplaced⟩
    · exact ⟨after, .rib, hok, hplaced, by simp [hsteal], by simp⟩
    · have hworker := exists_isWorker ((createBatchTask_ok s burst).mp ⟨after, hok⟩) hsteal
      refine ⟨after, .thief i, hok, hplaced, by simp [hsteal, hworker], ?_⟩
      rintro j ⟨⟩
      exact chooseThief_isWorker hchoice

/-- A vector without workers: the random choice divides by zero, and a call from a worker uses the
null pointer that `GetMinThief` returned. -/
theorem not_placed_noThiefs :
    createBatchTask {} ⟨[], fun _ => []⟩ {} 0 none ⟨0, 0, 0⟩ = .error .divisionByZero ∧
      createBatchTask {} ⟨[], fun _ => []⟩ {} 0 (some .rib) ⟨0, 0, 0⟩ = .error .divisionByZero ∧
      createBatchTask {} ⟨[], fun _ => []⟩ {} 0 (some (.thief 0)) ⟨0, 0, 0⟩ =
        .error .nullWorker :=
  ⟨rfl, rfl, rfl⟩

/-- Without null pointers in the vector only the number of the workers and their sizes matter. -/
theorem canPlace_iff_of_workers (h : none ∉ w.thiefs) :
    CanPlace w.thiefs traits caller r ↔
      traits.canSteal = false ∨ (∃ i : Nat, traits.pinCore = i ∧ IsWorker w.thiefs i) ∨
        HasSmall w.thiefs ∨ (∀ i, caller ≠ some (.thief i)) ∧ w.thiefs ≠ [] := by
  have hscan : none ∉ w.thiefs.takeWhile (· ≠ some 0) :=
    fun hmem => h ((List.takeWhile_sublist _).subset hmem)
  have hrandom : IsWorker w.thiefs (r.rand % w.thiefs.length) ↔ w.thiefs ≠ [] := by
    constructor
    · rintro ⟨n, hn⟩ hnil
      simp [hnil] at hn
    · intro hne
      have hlt := Nat.mod_lt r.rand (List.length_pos_iff.mpr hne)
      have hmem := List.getElem_mem hlt
      obtain ⟨n, hn⟩ := Option.ne_none_iff_exists'.mp fun hnone => h (hnone ▸ hmem)
      exact ⟨n, by rw [List.getElem?_eq_getElem hlt, hn]⟩
  have hsmall : HasSmall w.thiefs → w.thiefs ≠ [] := by
    rintro ⟨n, hn, -⟩ hnil
    simp [hnil] at hn
  simp only [CanPlace, hscan, hrandom]
  cases caller with
  | none => grind
  | some x => cases x <;> grind

/-- In a process whose vector holds its workers, a call that is not kept waiting by `qMutex` is a
step of the machine of the main scheduler. -/
theorem step_of_createBatchTask {after : State × Workers} (hlock : s.pc.holdsQMutex = false)
    (hthiefs : w.thiefs = s.thiefSizes.map some)
    (hcaller : ∀ i, caller = some (.thief i) → i < s.thiefSizes.length)
    (h : createBatchTask s w traits burst caller r = .ok after) :
    ∃ thief, step s (.createBatch traits.stack traits.canSteal burst thief) = some after.1 := by
  simp only [step, State.createBatch]
  cases hsteal : traits.canSteal with
  | false =>
    simp only [createBatchTask, hsteal, Bool.false_eq_true, ↓reduceIte, Except.ok.injEq] at h
    subst h
    exact ⟨0, by simp [hlock]⟩
  | true =>
    cases hx : chooseThief w.thiefs traits.pinCore caller r with
    | error fault => simp [createBatchTask_of_steal hsteal hx, Except.bind] at h
    | ok m =>
      rw [createBatchTask_of_steal hsteal hx] at h
      cases m with
      | none => simp [Except.bind] at h
      | some i =>
        simp only [Except.bind, Except.ok.injEq] at h
        subst h
        have hlt : i < s.thiefSizes.length := by
          rcases chooseThief_isWorker hx with ⟨n, hn⟩ | hthief
          · obtain ⟨hlt, -⟩ := List.getElem?_eq_some_iff.mp hn
            simpa [hthiefs] using hlt
          · exact hcaller i hthief
        exact ⟨i, by simp [hlt]⟩

end Create

end JamSched.Rib
