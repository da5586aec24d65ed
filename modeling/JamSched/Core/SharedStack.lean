import JamSched.Core.Task
import JamSched.Machine.Run

/-!
# The shared stack

The `SharedCopyStackTask`s of one scheduler all run on its shared stack. `SwapTo` copies the part
of the stack in use by the leaving task, from the stack pointer up, to the task's `privateStack`,
and `SwapFrom` copies the `privateStack` of the next task back. With a direct switch from one task
to the next, `SwapFrom` runs on the shared stack too, in frames below the stack pointer that
`SwapTo` has recorded. It overwrites them when the next task was suspended at a greater depth. The
main loop runs on a stack of its own, so a task that it resumes cannot meet this.

Addresses are natural numbers: the stack lies above the first 32 bytes of the address space and does
not wrap around its end. A copy that overwrites the frames of its own caller is still modelled as a
copy; what the processor does afterwards is not.
-/
namespace JamSched.SharedStack

open Machine

/-- Copy `n` bytes of `src`, from address `a` on, to the address `d` of `dst`. -/
def memcpy (dst : Nat → UInt8) (d : Nat) (src : Nat → UInt8) (a n : Nat) : Nat → UInt8 :=
  fun x => if d ≤ x ∧ x < d + n then src (a + (x - d)) else dst x

inductive Arch where
  | x86_64 | aarch64
  deriving DecidableEq, Repr

/-- The stack of a `SchedulerBase`. -/
structure SchedulerBase where
  arch : Arch
  sharedStackBegin : Nat
  sharedStackSizeActual : Nat
  begin_ge : 32 ≤ sharedStackBegin
  /-- A `uint32_t`. -/
  size_lt : sharedStackSizeActual < 2 ^ 32

namespace SchedulerBase

variable (b : SchedulerBase)

def sharedStackAlignedEnd : Nat := (b.sharedStackSizeActual + b.sharedStackBegin - 16) / 16 * 16

/-- Where the frames of a task begin. -/
def sharedStackAlignedEndAct : Nat :=
  match b.arch with
  | .x86_64 => b.sharedStackAlignedEnd - 8
  | .aarch64 => b.sharedStackAlignedEnd

/-- The test of the stack pointer in `SwapTo`. -/
def OnStack (tos : Nat) : Prop :=
  tos ≤ b.sharedStackAlignedEndAct ∧ b.sharedStackAlignedEnd - b.sharedStackSizeActual ≤ tos

instance (tos : Nat) : Decidable (b.OnStack tos) := inferInstanceAs (Decidable (_ ∧ _))

end SchedulerBase

structure SharedCopyStackTask where
  status : TaskStatus := .ready
  privateStack : Nat → UInt8 := fun _ => 0
  privateStackSize : Nat := 0
  privateStackSizeUpperBound : Nat := 0

/-- The stack pointer and the memory when a task was last saved. -/
structure Saved where
  tos : Nat
  mem : Nat → UInt8

structure State where
  mem : Nat → UInt8
  task : Ptr → SharedCopyStackTask := fun _ => {}
  /-- The task that runs; none while the main loop does. -/
  active : Option Ptr := none
  saved : Ptr → Option Saved := fun _ => none

inductive Label where
  /-- The main loop calls `SwapFrom(nullptr)` of a task. -/
  | start (p : Ptr)
  /-- Code writes a byte. -/
  | write (x : Nat) (v : UInt8)
  /-- The running task ends: `ExecuteC` sets its status. -/
  | finish
  /-- The running task calls `SwapTo` in a frame whose lowest address is `tos`; `alloc` tells that a
  larger `privateStack` can be allocated. -/
  | swapTo (tos : Nat) (next : Option Ptr) (alloc : Bool)
  deriving DecidableEq, Repr

namespace State

variable (s : State) (b : SchedulerBase)

/-- `SwapFrom` of the next task, or the switch to the context of the main loop. -/
def swapFrom : Option Ptr → State
  | none => { s with active := none }
  | some p =>
    let n := (s.task p).privateStackSize
    { s with
      mem := memcpy s.mem (b.sharedStackAlignedEndAct - n) (s.task p).privateStack 0 n
      active := some p }

/-- `privateStackSize` is a `uint32_t`. -/
def sizeAt (tos : Nat) : Nat := (b.sharedStackAlignedEndAct - tos) % 2 ^ 32

/-- The running task `a` is saved. The contents of a new `privateStack` are all overwritten. -/
def save (a : Ptr) (tos : Nat) : State :=
  let n := sizeAt b tos
  { s with
    task := Function.update s.task a { s.task a with
      privateStack := memcpy (s.task a).privateStack 0 s.mem tos n
      privateStackSize := n
      privateStackSizeUpperBound := max (s.task a).privateStackSizeUpperBound n }
    saved := Function.update s.saved a (some ⟨tos, s.mem⟩) }

/-- A larger `privateStack` is needed and cannot be allocated. -/
def OutOfMemory (a : Ptr) (tos : Nat) (alloc : Bool) : Prop :=
  (s.task a).privateStackSizeUpperBound < sizeAt b tos ∧ alloc = false

instance (a : Ptr) (tos : Nat) (alloc : Bool) : Decidable (s.OutOfMemory b a tos alloc) :=
  inferInstanceAs (Decidable (_ ∧ _))

/-- The task is given up and the main loop resumed. -/
def giveUp (a : Ptr) (tos : Nat) : State :=
  { s with
    task := Function.update s.task a { s.task a with
      status := .finished
      privateStackSize := sizeAt b tos
      privateStackSizeUpperBound := sizeAt b tos }
    active := none }

/-- `SwapTo` of the running task `a`. It does nothing when it does not run on the shared stack. -/
def swapTo (a : Ptr) (tos : Nat) (next : Option Ptr) (alloc : Bool) : State :=
  if b.OnStack tos then
    if (s.task a).status = .finished then s.swapFrom b next
    else if s.OutOfMemory b a tos alloc then s.giveUp b a tos
    else (s.save b a tos).swapFrom b next
  else s

end State

/-- The machine. A task that has finished is not resumed, and a task does not switch to itself. -/
def step (b : SchedulerBase) (s : State) : Label → Option State
  | .start p =>
    if s.active = none ∧ (s.task p).status ≠ .finished then some (s.swapFrom b (some p)) else none
  | .write x v => some { s with mem := Function.update s.mem x v }
  | .finish => s.active.map fun a =>
    { s with task := Function.update s.task a { s.task a with status := .finished } }
  | .swapTo tos next alloc => match s.active with
    | none => none
    | some a =>
      if ∀ p ∈ next, p ≠ a ∧ (s.task p).status ≠ .finished then
        some (s.swapTo b a tos next alloc)
      else none

def initial (mem : Nat → UInt8) : State := { mem }

/-! ## Direct switches -/

/-- A direct switch to `p` writes no address below the recorded stack pointer, and afterwards the
bytes it has written are those that `p` had there when it was last saved. -/
def RestoresCleanly (b : SchedulerBase) (s : State) (l : Label) : Prop :=
  ∀ t, step b s l = some t → ∀ p tos alloc, l = .swapTo tos (some p) alloc → t.active = some p →
    ∀ x, b.sharedStackAlignedEndAct - (s.task p).privateStackSize ≤ x →
      x < b.sharedStackAlignedEndAct →
      tos ≤ x ∧ ∃ m, s.saved p = some m ∧ t.mem x = m.mem x

/-- A direct switch goes to a task that was saved no deeper than the running task is. -/
def SwitchesUp (b : SchedulerBase) (s : State) : Label → Prop
  | .swapTo tos (some p) alloc => ∀ a ∈ s.active, b.OnStack tos →
    ((s.task a).status = .finished ∨ ¬ s.OutOfMemory b a tos alloc) →
    ∀ m ∈ s.saved p, tos ≤ m.tos
  | _ => True

instance (b : SchedulerBase) (s : State) (l : Label) : Decidable (SwitchesUp b s l) :=
  match l with
  | .swapTo _ (some _) _ => inferInstanceAs (Decidable (∀ a ∈ _, _ → _ → ∀ m ∈ _, _))
  | .swapTo _ none _ | .start _ | .write _ _ | .finish => inferInstanceAs (Decidable True)

/-- `privateStack` holds what the task had on the shared stack when it was last saved. -/
structure Keeps (b : SchedulerBase) (task : SharedCopyStackTask) (m : Saved) : Prop where
  onStack : b.OnStack m.tos
  size : task.privateStackSize = b.sharedStackAlignedEndAct - m.tos
  bytes : ∀ i, i < task.privateStackSize → task.privateStack i = m.mem (m.tos + i)

/-- Every task that may be resumed keeps its stack. -/
structure Intact (b : SchedulerBase) (s : State) : Prop where
  fresh : ∀ p, (s.task p).status ≠ .finished → s.saved p = none →
    (s.task p).privateStackSize = 0
  keeps : ∀ p m, (s.task p).status ≠ .finished → s.saved p = some m → Keeps b (s.task p) m

section Step

variable {b : SchedulerBase} {s t : State} {a p : Ptr} {tos : Nat} {alloc : Bool}
  {next : Option Ptr} {l : Label}

/-- The size of the part in use is not cut off. -/
theorem sizeAt_eq (h : b.OnStack tos) : State.sizeAt b tos = b.sharedStackAlignedEndAct - tos := by
  have hend : b.sharedStackSizeActual ≤ b.sharedStackAlignedEnd := by
    have := b.begin_ge
    simp only [SchedulerBase.sharedStackAlignedEnd]
    omega
  have hact : b.sharedStackAlignedEndAct ≤ b.sharedStackAlignedEnd := by
    simp only [SchedulerBase.sharedStackAlignedEndAct]
    split <;> omega
  have := h.2
  have := b.size_lt
  exact Nat.mod_eq_of_lt (by omega)

/-- Restoring changes no task. -/
theorem Intact.swapFrom (h : Intact b s) (next : Option Ptr) : Intact b (s.swapFrom b next) := by
  cases next with
  | none => exact ⟨h.fresh, h.keeps⟩
  | some p => exact ⟨h.fresh, h.keeps⟩

theorem Intact.save (h : Intact b s) (htos : b.OnStack tos) : Intact b (s.save b a tos) := by
  have hsize := sizeAt_eq htos
  refine ⟨fun q hq hnone => ?_, fun q m hq hm => ?_⟩
  · have hne : q ≠ a := by
      rintro rfl
      simp [State.save] at hnone
    simp only [State.save, Function.update_of_ne hne] at hq hnone ⊢
    exact h.fresh q hq hnone
  · by_cases hqa : q = a
    · subst hqa
      simp only [State.save, Function.update_self, Option.some.injEq] at hm ⊢
      subst hm
      exact ⟨htos, hsize, fun i hi => by simp [memcpy, hi]⟩
    · simp only [State.save, Function.update_of_ne hqa] at hq hm ⊢
      exact h.keeps q m hq hm

/-- Nothing is asked of a task that has finished. -/
theorem Intact.finish (h : Intact b s) (a : Ptr) (task : SharedCopyStackTask)
    (htask : task.status = .finished) :
    Intact b { s with task := Function.update s.task a task } := by
  refine ⟨fun q hq hnone => ?_, fun q m hq hm => ?_⟩
  · have hne : q ≠ a := by
      rintro rfl
      simp [htask] at hq
    simp only [Function.update_of_ne hne] at hq ⊢
    exact h.fresh q hq hnone
  · have hne : q ≠ a := by
      rintro rfl
      simp [htask] at hq
    simp only [Function.update_of_ne hne] at hq ⊢
    exact h.keeps q m hq hm

theorem Intact.swapTo (h : Intact b s) : Intact b (s.swapTo b a tos next alloc) := by
  simp only [State.swapTo]
  split
  · rename_i htos
    split
    · exact h.swapFrom next
    · split
      · have := h.finish a ((s.giveUp b a tos).task a) (by simp [State.giveUp])
        simp only [State.giveUp, Function.update_self] at this ⊢
        exact ⟨this.fresh, this.keeps⟩
      · exact (h.save htos).swapFrom next
  · exact h

theorem Intact.step (h : Intact b s) (hs : step b s l = some t) : Intact b t := by
  cases l with
  | start p =>
    simp only [SharedStack.step, Option.ite_none_right_eq_some, Option.some.injEq] at hs
    obtain ⟨-, rfl⟩ := hs
    exact h.swapFrom (some p)
  | write x v =>
    obtain rfl : _ = t := by simpa [SharedStack.step] using hs
    exact ⟨h.fresh, h.keeps⟩
  | finish =>
    obtain ⟨a, -, rfl⟩ := Option.map_eq_some_iff.mp hs
    exact h.finish a _ rfl
  | swapTo tos next alloc =>
    cases ha : s.active with
    | none => simp [SharedStack.step, ha] at hs
    | some a =>
      simp only [SharedStack.step, ha, Option.ite_none_right_eq_some, Option.some.injEq] at hs
      obtain ⟨-, rfl⟩ := hs
      exact h.swapTo

theorem intact_initial (b : SchedulerBase) (mem : Nat → UInt8) : Intact b (initial mem) := by
  constructor <;> simp [initial]

/-- What `SwapFrom` brings back. -/
theorem Keeps.swapFrom {m : Saved} (h : Keeps b (s.task p) m) {x : Nat}
    (hle : b.sharedStackAlignedEndAct - (s.task p).privateStackSize ≤ x)
    (hlt : x < b.sharedStackAlignedEndAct) : (s.swapFrom b (some p)).mem x = m.mem x := by
  have hsize := h.size
  have htos := h.onStack.1
  have hx : b.sharedStackAlignedEndAct - (s.task p).privateStackSize = m.tos := by omega
  simp only [State.swapFrom, memcpy]
  rw [if_pos (by omega), h.bytes _ (by omega)]
  congr 1
  omega

/-- A direct switch takes place exactly when `SwapTo` runs on the shared stack and needs no memory
that it does not get. The state in which the next task is restored differs only in the task that
leaves. -/
theorem swapTo_switches (b : SchedulerBase) (tos : Nat) (alloc : Bool) (ha : s.active = some a)
    (hp : p ≠ a) :
    ((s.swapTo b a tos (some p) alloc).active = some p ↔
      b.OnStack tos ∧ ((s.task a).status = .finished ∨ ¬ s.OutOfMemory b a tos alloc)) ∧
    ((s.swapTo b a tos (some p) alloc).active = some p →
      ∃ u : State, s.swapTo b a tos (some p) alloc = u.swapFrom b (some p) ∧
        u.task p = s.task p) := by
  have hne : some a ≠ some p := by simpa using hp.symm
  simp only [State.swapTo]
  split
  · rename_i htos
    split
    · rename_i hfin
      exact ⟨by simp [State.swapFrom, htos, hfin], fun _ => ⟨s, rfl, rfl⟩⟩
    · rename_i hfin
      split
      · rename_i hoom
        simp [State.giveUp, hfin, hoom]
      · rename_i hoom
        refine ⟨by simp [State.swapFrom, htos, hoom], fun _ => ⟨s.save b a tos, rfl, ?_⟩⟩
        simp [State.save, hp]
  · rename_i htos
    simp [ha, hne, htos]

/-- A direct switch is clean exactly when the next task was saved no deeper than the running task
is. -/
theorem restoresCleanly_iff (h : Intact b s) (hs : step b s l = some t) :
    RestoresCleanly b s l ↔ SwitchesUp b s l := by
  simp only [RestoresCleanly, hs, Option.some.injEq, forall_eq']
  cases l with
  | start p => exact iff_of_true (by simp) trivial
  | write x v => exact iff_of_true (by simp) trivial
  | finish => exact iff_of_true (by simp) trivial
  | swapTo tos next alloc =>
    cases next with
    | none => exact iff_of_true (by simp) trivial
    | some p =>
      cases ha : s.active with
      | none => simp [SharedStack.step, ha] at hs
      | some a =>
        simp only [SharedStack.step, ha, Option.ite_none_right_eq_some, Option.some.injEq,
          Option.mem_def, forall_eq'] at hs
        obtain ⟨⟨hpa, hfin⟩, rfl⟩ := hs
        obtain ⟨hswitch, hrestore⟩ := swapTo_switches b tos alloc ha hpa
        constructor
        · intro hclean a' ha' htos hmem m hm
          obtain rfl : a = a' := by simpa [ha] using ha'
          -- The lowest byte of the next task's stack is written.
          have hk := h.keeps p m hfin hm
          by_contra hlt
          have hx := hclean p tos alloc rfl (hswitch.mpr ⟨htos, hmem⟩) m.tos
            (by have := hk.size; have := hk.onStack.1; omega) (by have := htos.1; omega)
          omega
        · intro hup p' tos' alloc' heq hact x hle hlt
          obtain ⟨rfl, rfl, rfl⟩ : tos = tos' ∧ p = p' ∧ alloc = alloc' := by simpa using heq
          obtain ⟨u, hu, hutask⟩ := hrestore hact
          obtain ⟨htos, hmem⟩ := hswitch.mp hact
          cases hm : s.saved p with
          | none =>
            have := h.fresh p hfin hm
            omega
          | some m =>
            have hk := h.keeps p m hfin hm
            have := hup a ha htos hmem m hm
            have := hk.size
            have := hk.onStack.1
            refine ⟨by omega, m, rfl, ?_⟩
            rw [← hutask] at hk hle
            rw [hu]
            exact hk.swapFrom hle hlt

end Step

/-- In a run, every direct switch is clean exactly when every direct switch goes to a task that
was saved no deeper than the running task is. -/
theorem restores_cleanly_iff (b : SchedulerBase) (mem : Nat → UInt8) (ls : List Label) (s : State)
    (hr : run (step b) (initial mem) ls = some s) :
    Along (step b) (RestoresCleanly b) (initial mem) ls ↔
      Along (step b) (SwitchesUp b) (initial mem) ls :=
  along_congr_of_run (I := Intact b) (fun _ _ _ h _ hs => h.step hs)
    (fun _ _ _ h hs => restoresCleanly_iff h hs) (intact_initial b mem) hr

/-- A shared stack of 64 KiB; the frames of a task begin at 69608. -/
def smallStack : SchedulerBase := ⟨.x86_64, 4096, 65536, by decide, by decide⟩

/-- Task 1 leaves at a depth of 1000 bytes, with a 7 at its lowest address, to task 2, which puts
a 0 there and then switches back with the stack pointer at `tos`. -/
def thereAndBack (tos : Nat) : List Label :=
  [.start 1, .write 68608 7, .swapTo 68608 (some 2) true, .write 68608 0,
    .swapTo tos (some 1) true]

theorem restores_cleanly_thereAndBack : ∃ s,
    run (step smallStack) (initial fun _ => 0) (thereAndBack 67608) = some s ∧
    s.active = some 1 ∧ s.mem 68608 = 7 ∧
    Along (step smallStack) (RestoresCleanly smallStack) (initial fun _ => 0)
      (thereAndBack 67608) :=
  ⟨_, rfl, by decide, by decide,
    (restores_cleanly_iff smallStack (fun _ => 0) (thereAndBack 67608) _ rfl).mpr (by decide)⟩

/-- From a depth of 100 bytes, the copy runs 900 bytes into the frames of the switch itself. -/
theorem restores_below_thereAndBack : ∃ s t,
    run (step smallStack) (initial fun _ => 0) ((thereAndBack 69508).take 4) = some s ∧
    step smallStack s (.swapTo 69508 (some 1) true) = some t ∧ t.active = some 1 ∧
    smallStack.sharedStackAlignedEndAct - (s.task 1).privateStackSize = 68608 ∧
    s.mem 68608 = 0 ∧ t.mem 68608 = 7 :=
  ⟨_, _, rfl, rfl, by decide, by decide, by decide, by decide⟩

end JamSched.SharedStack
