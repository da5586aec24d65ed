import Mathlib.Algebra.Group.Nat.Defs
import Mathlib.Data.List.Basic
import Mathlib.Data.List.Count
import Mathlib.Logic.Function.Basic
import Mathlib.Tactic.Common

/-!
# Task objects

The part of `TaskInterface` that the schedulers read. A task is named by the address of its
object and lives in a heap, so a queue holds addresses and a write through one address is
seen in every queue that holds it, as with the intrusive containers of the source.

`SharedCopyStackTask` and `StandAloneStackTask` differ here only in `CanSteal`. Time points
and durations are nanoseconds of the steady clock.
-/
namespace JamSched

/-- Address of a task object. -/
abbrev Ptr := Nat

inductive TaskType where
  | interactive | batch | realTime
  deriving DecidableEq, Repr

inductive TaskStatus where
  | ready | pending | finished | running
  deriving DecidableEq, Repr

/-- The two subclasses of `TaskInterface`. -/
inductive StackKind where
  | sharedCopy | standAlone
  deriving DecidableEq, Repr

/-- `TaskInterface::CanSteal` of each subclass. -/
def StackKind.canSteal : StackKind → Bool
  | .sharedCopy => false
  | .standAlone => true

/-- The schedulers of one process: the main `RIBScheduler` and its `thiefs`. -/
inductive SchedId where
  | rib
  | thief (i : Nat)
  deriving DecidableEq, Repr

structure TaskInterface where
  taskType : TaskType := .batch
  stack : StackKind := .standAlone
  scheduler : SchedId := .rib
  status : TaskStatus := .ready
  isStealable : Bool := true
  id : Nat := 0
  deadline : Int := 0
  burst : Int := 0
  /-- `isFinished` of the task's `Notifier`. -/
  notified : Bool := false
  deriving DecidableEq, Repr

instance : Inhabited TaskInterface := ⟨{}⟩

/-- `priority_order`: earliest deadline first, ties by smallest remaining burst. -/
def priorityOrder (a b : TaskInterface) : Bool :=
  if a.deadline = b.deadline then a.burst < b.burst else a.deadline < b.deadline

/-- The type of a task and the fields that searches and orders compare. -/
def TaskInterface.keys (t : TaskInterface) : TaskType × Nat × Int × Int :=
  (t.taskType, t.id, t.deadline, t.burst)

theorem priorityOrder_congr {a a' b b' : TaskInterface} (ha : a.keys = a'.keys)
    (hb : b.keys = b'.keys) : priorityOrder a b = priorityOrder a' b' := by
  simp only [TaskInterface.keys, Prod.mk.injEq] at ha hb
  simp only [priorityOrder, ha, hb]

/-- `TaskInterface::Steal` of both subclasses: only the `isStealable` flag is asked. -/
def TaskInterface.steal (t : TaskInterface) (s : SchedId) : TaskInterface :=
  if t.isStealable then { t with scheduler := s } else t

theorem TaskInterface.steal_keys (t : TaskInterface) (s : SchedId) :
    (t.steal s).keys = t.keys := by
  simp only [TaskInterface.steal]
  split <;> rfl

abbrev Heap := Ptr → TaskInterface

def Heap.modify (h : Heap) (p : Ptr) (f : TaskInterface → TaskInterface) : Heap :=
  Function.update h p (f (h p))

@[simp] theorem Heap.modify_self (h : Heap) (p : Ptr) (f : TaskInterface → TaskInterface) :
    h.modify p f p = f (h p) := by
  simp [Heap.modify]

theorem Heap.modify_of_ne (h : Heap) {p q : Ptr} (f : TaskInterface → TaskInterface)
    (hne : q ≠ p) : h.modify p f q = h q := by
  simp [Heap.modify, hne]

theorem Heap.modify_apply (h : Heap) (p q : Ptr) (f : TaskInterface → TaskInterface) :
    h.modify p f q = if q = p then f (h p) else h q := by
  simp [Heap.modify, Function.update_apply]

/-- A field that `f` leaves alone is the same in the modified heap. -/
theorem Heap.modify_field {β : Type} (g : TaskInterface → β) (h : Heap) (p q : Ptr)
    (f : TaskInterface → TaskInterface) (hf : ∀ t, g (f t) = g t) :
    g (h.modify p f q) = g (h q) := by
  rw [Heap.modify_apply]
  split
  · rename_i hq
    rw [hq, hf]
  · rfl

/-- Insertion into the treap multiset: behind every task that does not come after the new
one, compared with the keys the tasks have at the insertion. Later key changes move nothing. -/
def edfInsert (h : Heap) (p : Ptr) : List Ptr → List Ptr
  | [] => [p]
  | q :: qs => if priorityOrder (h p) (h q) then p :: q :: qs else q :: edfInsert h p qs

@[simp] theorem mem_edfInsert (h : Heap) (p q : Ptr) (qs : List Ptr) :
    q ∈ edfInsert h p qs ↔ q = p ∨ q ∈ qs := by
  induction qs with
  | nil => simp [edfInsert]
  | cons r rs ih =>
    simp only [edfInsert]
    split
    · simp
    · simp only [List.mem_cons, ih]
      grind

@[simp] theorem count_edfInsert (h : Heap) (p q : Ptr) (qs : List Ptr) :
    (edfInsert h p qs).count q = qs.count q + if p = q then 1 else 0 := by
  induction qs with
  | nil => simp [edfInsert, List.count_cons]
  | cons r rs ih =>
    simp only [edfInsert]
    split
    · simp [List.count_cons]
    · simp only [List.count_cons, ih]
      omega

theorem edfInsert_congr {h h' : Heap} (hk : ∀ p, (h p).keys = (h' p).keys) (p : Ptr)
    (qs : List Ptr) : edfInsert h p qs = edfInsert h' p qs := by
  induction qs with
  | nil => rfl
  | cons q qs ih => simp only [edfInsert, priorityOrder_congr (hk p) (hk q), ih]

end JamSched
