import JamSched.Core.TakeLast
import JamSched.Steal.Step
import Mathlib.Data.List.Induction

/-!
# One theft

`StealFrom` as one call, with no other thread between its two critical sections. The loop of the
first section walks the victim's queue with a reverse iterator and erases what the iterator points
at; the second pushes every task it took to the front of the thief's queue, the one taken first
deepest. What the call does to the two queues is stated without reference to either loop: the last
`k` stealable tasks move over and keep their order.

The walk is shown to be the one of `Pool.loot`, and the call to be the two steps of the pool one
after the other.
-/
namespace JamSched.Steal

open Machine

/-- The loop of `StealFrom` over the victim's `isReady`. `base` is the position of
`itBatch.base()`, so the iterator points at the element before it and is `rend()` at zero; both
the erasure and `itBatch++` leave the base where the element was. -/
def stealLoop (h : Heap) : (base toStealCount : Nat) → (isReady tasksToSteal : List Ptr) →
    List Ptr × List Ptr
  | 0, _, isReady, tasksToSteal => (isReady, tasksToSteal)
  | _ + 1, 0, isReady, tasksToSteal => (isReady, tasksToSteal)
  | base + 1, toStealCount + 1, isReady, tasksToSteal =>
    match isReady[base]? with
    | none => (isReady, tasksToSteal)
    | some p =>
      if (h p).isStealable then
        stealLoop h base toStealCount (isReady.eraseIdx base) (tasksToSteal ++ [p])
      else stealLoop h base (toStealCount + 1) isReady tasksToSteal

namespace Pool

variable (s : Pool)

/-- What the first critical section leaves to the victim and what it takes. -/
def stealOutOf (j : Nat) : List Ptr × List Ptr :=
  let isReady := s.isReady (.thief j)
  if s.stealableCount j > 1 then
    stealLoop s.heap isReady.length (min (s.stealableCount j) (isReady.length / 2)) isReady []
  else (isReady, [])

/-- One turn of the loop of the second critical section: `Steal`, `sizeOfQueue++` and
`push_front`. -/
def stealOne (i : Nat) (p : Ptr) : Pool := (s.write p (·.steal (.thief i))).push (.thief i) true p

/-- `StealFrom` of worker `i` with worker `j` as `toSteal`, and its value. -/
def stealFrom (i j : Nat) : Pool × Nat :=
  let r := s.stealOutOf j
  let t := ((s.setReady (.thief j) r.1).subSize j r.2.length).addSize i r.2.length
  (r.2.foldl (fun t p => t.stealOne i p) t, r.2.length)

/-- How many tasks a theft from worker `j` moves. -/
def stealCount (j : Nat) : Nat :=
  if s.stealableCount j ≤ 1 then 0
  else min (s.stealableCount j) ((s.isReady (.thief j)).length / 2)

end Pool

/-! ## The walk -/

/-- The loop sees the elements before its base from the back to the front, and nothing else. -/
theorem stealLoop_append (h : Heap) (n : Nat) (front back got : List Ptr) :
    stealLoop h front.length n (front ++ back) got =
      ((takeStealable h n front.reverse).1.reverse ++ back,
        got ++ (takeStealable h n front.reverse).2) := by
  induction front using List.reverseRecOn generalizing n back got with
  | nil => cases n <;> simp [stealLoop, takeStealable]
  | append_singleton front p ih =>
    cases n with
    | zero => simp [stealLoop, takeStealable]
    | succ n =>
      have hget : (front ++ p :: back)[front.length]? = some p := by simp
      rw [List.append_assoc, List.singleton_append, List.length_append, List.length_singleton,
        stealLoop, hget]
      by_cases hp : (h p).isStealable = true
      · have herase : (front ++ p :: back).eraseIdx front.length = front ++ back := by
          simp [List.eraseIdx_append_of_length_le]
        simp [hp, herase, ih, takeStealable]
      · simp [hp, ih, takeStealable]

/-- Both descriptions of the first critical section agree. -/
theorem stealOutOf_eq_loot (s : Pool) (j : Nat) : s.stealOutOf j = s.loot j := by
  unfold Pool.stealOutOf Pool.loot
  split
  · simpa using stealLoop_append s.heap _ (s.isReady (.thief j)) [] []
  · rfl

/-- Walking the list from the back takes its last stealable tasks, the last one first. -/
theorem takeStealable_takesLast (h : Heap) {n : Nat} {ls : List Ptr}
    (hn : n ≤ ls.countP fun p => (h p).isStealable) :
    TakesLast (fun p => (h p).isStealable) n ls.reverse (takeStealable h n ls).1.reverse
      (takeStealable h n ls).2.reverse := by
  induction ls generalizing n with
  | nil =>
    obtain rfl : n = 0 := by simpa using hn
    simpa [takeStealable] using TakesLast.refl _ []
  | cons p ls ih =>
    cases n with
    | zero => simpa [takeStealable] using TakesLast.refl _ _
    | succ n =>
      by_cases hp : (h p).isStealable = true
      · have hn' : n ≤ ls.countP fun p => (h p).isStealable := by simpa [hp] using hn
        simpa [takeStealable, hp] using (ih hn').concat_taken hp
      · have hn' : n + 1 ≤ ls.countP fun p => (h p).isStealable := by simpa [hp] using hn
        rw [Bool.not_eq_true] at hp
        simpa [takeStealable, hp] using (ih hn').concat_kept hp

/-- The first critical section takes the last `stealCount` stealable tasks. -/
theorem stealOutOf_takesLast (s : Pool) (j : Nat) :
    TakesLast (fun p => (s.heap p).isStealable) (s.stealCount j) (s.isReady (.thief j))
      (s.stealOutOf j).1 (s.stealOutOf j).2.reverse := by
  rw [stealOutOf_eq_loot]
  unfold Pool.loot Pool.stealCount
  by_cases hc : 1 < s.stealableCount j
  · have hle : min (s.stealableCount j) ((s.isReady (.thief j)).length / 2) ≤
        (s.isReady (.thief j)).reverse.countP fun p => (s.heap p).isStealable := by
      rw [List.countP_reverse]
      exact Nat.min_le_left _ _
    rw [if_pos hc, if_neg (by omega)]
    simpa using takeStealable_takesLast s.heap hle
  · rw [if_neg hc, if_pos (by omega)]
    simpa using TakesLast.refl _ _

/-! ## The second critical section -/

theorem steal_steal (t : TaskInterface) (x : SchedId) : (t.steal x).steal x = t.steal x := by
  unfold TaskInterface.steal
  split <;> simp_all

/-- The tasks end up in front of the thief's queue, the first of them deepest. -/
theorem foldl_stealOne (s : Pool) (i : Nat) (l : List Ptr) :
    l.foldl (fun t p => t.stealOne i p) s =
      { s with
        heap := fun p => if p ∈ l then (s.heap p).steal (.thief i) else s.heap p
        isReady := Function.update s.isReady (.thief i) (l.reverse ++ s.isReady (.thief i))
        sizeOfQueue := Function.update s.sizeOfQueue i (s.sizeOfQueue i + l.length) } := by
  induction l generalizing s with
  | nil => simp
  | cons q l ih =>
    have hheap (p : Ptr) : (if p ∈ l then ((s.heap.modify q (·.steal (.thief i))) p).steal
        (.thief i) else s.heap.modify q (·.steal (.thief i)) p) =
        if p ∈ q :: l then (s.heap p).steal (.thief i) else s.heap p := by
      rw [Heap.modify_apply]
      by_cases hq : p = q <;> by_cases hl : p ∈ l <;> simp [hq, hl, steal_steal]
    rw [List.foldl_cons, ih]
    simp [Pool.stealOne, Pool.push, Pool.setReady, Pool.addSize, Pool.write, hheap,
      Nat.add_assoc, Nat.add_comm 1]

/-! ## The call -/

section Call

variable (s : Pool) {i j : Nat}

theorem stealFrom_isReady (x : SchedId) :
    (s.stealFrom i j).1.isReady x =
      if x = .thief i then (s.stealOutOf j).2.reverse ++
        (if i = j then (s.stealOutOf j).1 else s.isReady x)
      else if x = .thief j then (s.stealOutOf j).1 else s.isReady x := by
  simp only [Pool.stealFrom, foldl_stealOne, Pool.addSize_isReady, Pool.subSize_isReady,
    Pool.setReady_isReady, Function.update_apply]
  by_cases hi : x = .thief i
  · by_cases hij : i = j <;> simp [hi, hij]
  · simp [hi]

theorem stealFrom_heap (p : Ptr) :
    (s.stealFrom i j).1.heap p =
      if p ∈ (s.stealOutOf j).2 then (s.heap p).steal (.thief i) else s.heap p := by
  simp [Pool.stealFrom, foldl_stealOne]

/-- The call is the two steps of the thief, one after the other. -/
theorem run_stealFrom {a : Option Ptr} (hth : s.thread (.thief i) = .next a) (hij : i ≠ j)
    (hi : i < s.nThiefs) (hj : j < s.nThiefs) :
    run step s [.stealOut i j, .stealIn i] = some (s.stealFrom i j).1 := by
  have hback : Function.update s.thread (.thief i) (.next a) = s.thread := by
    rw [← hth, Function.update_eq_self]
  simp [run, step, Pool.stealOut, Pool.stealIn, hth, hij, hi, hj, Pool.stealFrom,
    stealOutOf_eq_loot, foldl_stealOne, Pool.setThread, Pool.setReady, Pool.addSize,
    Pool.subSize, hback]

/-- `StealFrom` of worker `i` from another worker `j`, with nobody else between its critical
sections: the victim is left without its last `stealCount` stealable tasks, the thief has these
tasks in their order in front of its own, their scheduler is the thief, the call returns their
number, every task of the two queues is in one of them as often as before, and nothing else
changes. -/
theorem stealFrom_spec (hij : i ≠ j) :
    (∃ kept taken, TakesLast (fun p => (s.heap p).isStealable) (s.stealCount j)
        (s.isReady (.thief j)) kept taken ∧
      (s.stealFrom i j).1.isReady (.thief j) = kept ∧
      (s.stealFrom i j).1.isReady (.thief i) = taken ++ s.isReady (.thief i) ∧
      (∀ p ∈ taken, ((s.stealFrom i j).1.heap p).scheduler = .thief i) ∧
      ∀ p, p ∉ taken → (s.stealFrom i j).1.heap p = s.heap p) ∧
    (s.stealFrom i j).2 = s.stealCount j ∧
    ((s.stealFrom i j).1.isReady (.thief i) ++ (s.stealFrom i j).1.isReady (.thief j)).Perm
      (s.isReady (.thief i) ++ s.isReady (.thief j)) ∧
    ∀ x, x ≠ .thief i → x ≠ .thief j → (s.stealFrom i j).1.isReady x = s.isReady x := by
  have htakes := stealOutOf_takesLast s j
  have hne : SchedId.thief j ≠ .thief i := by simpa using hij.symm
  have hvictim : (s.stealFrom i j).1.isReady (.thief j) = (s.stealOutOf j).1 := by
    simp [stealFrom_isReady, hne]
  have hthief : (s.stealFrom i j).1.isReady (.thief i) =
      (s.stealOutOf j).2.reverse ++ s.isReady (.thief i) := by
    simp [stealFrom_isReady, hij]
  refine ⟨⟨_, _, htakes, hvictim, hthief, fun p hp => ?_, fun p hp => ?_⟩, ?_, ?_, ?_⟩
  · have hst : (s.heap p).isStealable = true := htakes.forall p hp
    rw [stealFrom_heap, if_pos (List.mem_reverse.mp hp)]
    simp [TaskInterface.steal, hst]
  · rw [stealFrom_heap, if_neg fun hmem => hp (List.mem_reverse.mpr hmem)]
  · have hlen := htakes.length
    rw [List.length_reverse] at hlen
    exact hlen
  · rw [hvictim, hthief, List.append_assoc]
    exact (List.perm_append_comm_assoc _ _ _).trans (htakes.perm.append_left _)
  · intro x hi hj
    simp [stealFrom_isReady, hi, hj]

end Call

/-- Worker 0 has five tasks, of which tasks 1 and 4 are pinned, and worker 1 has one. -/
def pinnedBetween : Pool where
  nThiefs := 2
  isReady := fun x => if x = .thief 0 then [0, 1, 2, 3, 4] else if x = .thief 1 then [5] else []
  heap := fun p => { isStealable := decide (p ≠ 1 ∧ p ≠ 4) }

theorem stealFrom_spec_pinnedBetween :
    (pinnedBetween.stealFrom 1 0).2 = 2 ∧
      (pinnedBetween.stealFrom 1 0).1.isReady (.thief 0) = [0, 1, 4] ∧
      (pinnedBetween.stealFrom 1 0).1.isReady (.thief 1) = [2, 3, 5] :=
  ⟨(stealFrom_spec pinnedBetween (by decide)).2.1.trans (by decide), by decide, by decide⟩

end JamSched.Steal
