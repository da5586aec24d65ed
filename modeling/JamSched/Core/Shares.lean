import Mathlib.Algebra.BigOperators.Group.Finset.Piecewise
import Mathlib.Algebra.BigOperators.Group.List.Basic
import Mathlib.Algebra.Ring.Int.Defs
import Mathlib.Algebra.Ring.Nat
import Mathlib.Algebra.Order.BigOperators.Group.Finset
import Mathlib.Data.List.Perm.Subperm

/-!
# Shares of a capacity

How capacities are shared out between demands. An allocation gives every job exactly what it
demands, takes from no slot more than it has, and only gives a job what it is allowed to have. The
shares of an execution are read off its log: `sumAt` adds up the entries of a log with one key.

## Main definitions

* `sumAt key val l k`: the sum of the values of `l` with the key `k`.
* `IsAllocation`: the demands of all jobs are met within the capacities.
-/
namespace JamSched

open Finset

section SumAt

variable {α β κ : Type*} [DecidableEq κ] {key : α → κ} {val : α → Int} {l l' : List α} {k : κ}

def sumAt (key : α → κ) (val : α → Int) (l : List α) (k : κ) : Int :=
  ((l.filter (key · = k)).map val).sum

@[simp] theorem sumAt_nil (k : κ) : sumAt key val [] k = 0 := rfl

@[simp] theorem sumAt_cons (a : α) (l : List α) (k : κ) :
    sumAt key val (a :: l) k = (if key a = k then val a else 0) + sumAt key val l k := by
  by_cases h : key a = k <;> simp [sumAt, h]

@[simp] theorem sumAt_append (l l' : List α) (k : κ) :
    sumAt key val (l ++ l') k = sumAt key val l k + sumAt key val l' k := by
  simp [sumAt]

theorem sumAt_perm (h : l.Perm l') (k : κ) : sumAt key val l k = sumAt key val l' k :=
  ((h.filter _).map val).sum_eq

theorem sumAt_map (f : β → α) (l : List β) (k : κ) :
    sumAt key val (l.map f) k = sumAt (key ∘ f) (val ∘ f) l k := by
  induction l with
  | nil => rfl
  | cons b l ih => simp [ih]

theorem sumAt_congr {key' : α → κ} {val' : α → Int}
    (h : ∀ a ∈ l, key a = key' a ∧ val a = val' a) (k : κ) :
    sumAt key val l k = sumAt key' val' l k := by
  induction l with
  | nil => rfl
  | cons a l ih =>
    obtain ⟨hkey, hval⟩ := h a List.mem_cons_self
    rw [sumAt_cons, sumAt_cons, hkey, hval, ih fun b hb => h b (List.mem_cons_of_mem _ hb)]

theorem sumAt_eq_zero (h : k ∉ l.map key) : sumAt key val l k = 0 := by
  induction l with
  | nil => rfl
  | cons a l ih =>
    rw [List.map_cons, List.mem_cons, not_or] at h
    rw [sumAt_cons, ih h.2, if_neg (Ne.symm h.1), add_zero]

/-- With the positions as keys, a sum has one entry. -/
theorem sumAt_zipIdx (f : α → Int) (l : List α) (n k : Nat) :
    sumAt (·.2) (fun a : α × Nat => f a.1) (l.zipIdx n) (n + k) = l[k]?.elim 0 f := by
  induction l generalizing n k with
  | nil => rfl
  | cons a l ih =>
    rw [List.zipIdx_cons, sumAt_cons]
    cases k with
    | zero =>
      have hnone : n ∉ (l.zipIdx (n + 1)).map (·.2) := by simp
      simpa using sumAt_eq_zero hnone
    | succ k =>
      have hne : ¬ n = n + (k + 1) := by omega
      have hshift : n + (k + 1) = n + 1 + k := by omega
      simp only [hne, ↓reduceIte, zero_add, List.getElem?_cons_succ]
      rw [hshift, ih]

theorem sumAt_nonneg (h : ∀ a ∈ l, 0 ≤ val a) (k : κ) : 0 ≤ sumAt key val l k := by
  induction l with
  | nil => exact le_refl 0
  | cons a l ih =>
    have hrest := ih fun b hb => h b (List.mem_cons_of_mem _ hb)
    have ha := h a List.mem_cons_self
    rw [sumAt_cons]
    split <;> omega

/-- A part of a list without repeated keys has all entries with a key that occurs in it. -/
theorem sumAt_sublist (h : l'.Sublist l) (hnodup : (l.map key).Nodup) (hk : k ∈ l'.map key) :
    sumAt key val l' k = sumAt key val l k := by
  induction h with
  | slnil => rfl
  | @cons l' l a hsub ih =>
    obtain ⟨ha, hl⟩ := List.nodup_cons.mp hnodup
    have hne : key a ≠ k := by
      rintro rfl
      exact ha ((hsub.map key).mem hk)
    rw [ih hl hk, sumAt_cons, if_neg hne, zero_add]
  | @cons_cons l' l a hsub ih =>
    obtain ⟨ha, hl⟩ := List.nodup_cons.mp hnodup
    rw [sumAt_cons, sumAt_cons]
    by_cases hak : key a = k
    · subst hak
      rw [sumAt_eq_zero ha, sumAt_eq_zero fun hmem => ha ((hsub.map key).mem hmem)]
    · rw [ih hl ((List.mem_cons.mp hk).resolve_left (Ne.symm hak))]

/-- All keys together get at most the whole. -/
theorem sum_sumAt_le (h : ∀ a ∈ l, 0 ≤ val a) (keys : Finset κ) :
    ∑ k ∈ keys, sumAt key val l k ≤ (l.map val).sum := by
  induction l with
  | nil => simp
  | cons a l ih =>
    have hrest := ih fun b hb => h b (List.mem_cons_of_mem _ hb)
    have ha := h a List.mem_cons_self
    simp only [sumAt_cons, Finset.sum_add_distrib, List.map_cons, List.sum_cons,
      Finset.sum_ite_eq]
    split <;> omega

end SumAt

/-- A sum over the elements of a list as one over positions, also past its end. -/
theorem sum_map_eq_sum_range {α : Type*} (f : α → Int) (l : List α) {n : Nat}
    (h : l.length ≤ n) : (l.map f).sum = ∑ i ∈ range n, (l[i]?.elim 0 f) := by
  induction l generalizing n with
  | nil => simp
  | cons a l ih =>
    obtain ⟨n, rfl⟩ : ∃ m, n = m + 1 := ⟨n - 1, by simp at h; omega⟩
    rw [Finset.sum_range_succ', List.map_cons, List.sum_cons, ih (by simpa using h)]
    simp [add_comm]

section Allocation

variable {ι κ : Type*}

/-- Every job gets what it demands, from slots it is allowed to use, and no slot gives more than
it has. -/
structure IsAllocation (slots : Finset ι) (jobs : Finset κ) (capacity : ι → Int)
    (demand : κ → Int) (allowed : ι → κ → Prop) (share : ι → κ → Int) : Prop where
  nonneg : ∀ i ∈ slots, ∀ j ∈ jobs, 0 ≤ share i j
  full : ∀ j ∈ jobs, ∑ i ∈ slots, share i j = demand j
  within : ∀ i ∈ slots, ∑ j ∈ jobs, share i j ≤ capacity i
  window : ∀ i ∈ slots, ∀ j ∈ jobs, 0 < share i j → allowed i j

variable {slots : Finset ι} {jobs : Finset κ} {capacity : ι → Int} {demand : κ → Int}
  {allowed allowed' : ι → κ → Prop} {share : ι → κ → Int}

theorem IsAllocation.mono (h : IsAllocation slots jobs capacity demand allowed share)
    (hallowed : ∀ i ∈ slots, ∀ j ∈ jobs, allowed i j → allowed' i j) :
    IsAllocation slots jobs capacity demand allowed' share where
  nonneg := h.nonneg
  full := h.full
  within := h.within
  window := fun i hi j hj hpos => hallowed i hi j hj (h.window i hi j hj hpos)

/-- A job demands no more than the slots it may use have. -/
theorem IsAllocation.demand_le (h : IsAllocation slots jobs capacity demand allowed share)
    [∀ i j, Decidable (allowed i j)] {j : κ} (hj : j ∈ jobs) :
    demand j ≤ ∑ i ∈ slots with allowed i j, capacity i := by
  have hshare : ∀ i ∈ slots, share i j ≤ capacity i := fun i hi =>
    (Finset.single_le_sum (h.nonneg i hi) hj).trans (h.within i hi)
  rw [← h.full j hj, ← Finset.sum_filter_add_sum_filter_not slots (allowed · j)]
  have hoff : ∑ i ∈ slots with ¬ allowed i j, share i j = 0 := by
    refine Finset.sum_eq_zero fun i hi => ?_
    obtain ⟨hi, hnot⟩ := Finset.mem_filter.mp hi
    have := h.nonneg i hi j hj
    have : ¬ 0 < share i j := fun hpos => hnot (h.window i hi j hj hpos)
    omega
  rw [hoff, add_zero]
  exact Finset.sum_le_sum fun i hi => hshare i (Finset.mem_filter.mp hi).1

end Allocation

end JamSched
