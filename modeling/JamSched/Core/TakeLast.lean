import Mathlib.Data.List.Basic
import Mathlib.Data.List.Perm.Basic

/-!
# The last matches of a list

What it means to take the last `k` elements with a property out of a list: the list splits in
front of the first one that is taken, the elements behind the split are sorted by the property,
and nothing else moves.

## Main definitions

* `TakesLast p k l kept taken`: `kept` is `l` without its last `k` elements with `p`, and `taken`
  is these elements in their order.
-/
namespace JamSched

variable {α : Type*} {p : α → Bool} {k : Nat} {l kept taken : List α}

def TakesLast (p : α → Bool) (k : Nat) (l kept taken : List α) : Prop :=
  ∃ front back, l = front ++ back ∧ kept = front ++ back.filter (!p ·) ∧
    taken = back.filter p ∧ taken.length = k

theorem TakesLast.refl (p : α → Bool) (l : List α) : TakesLast p 0 l l [] :=
  ⟨l, [], by simp⟩

/-- One more element behind, which is taken as well. -/
theorem TakesLast.concat_taken (h : TakesLast p k l kept taken) {a : α} (ha : p a = true) :
    TakesLast p (k + 1) (l ++ [a]) kept (taken ++ [a]) := by
  obtain ⟨front, back, rfl, rfl, rfl, hk⟩ := h
  exact ⟨front, back ++ [a], by simp, by simp [ha], by simp [ha], by simpa using hk⟩

/-- One more element behind, which stays. -/
theorem TakesLast.concat_kept (h : TakesLast p k l kept taken) {a : α} (ha : p a = false) :
    TakesLast p k (l ++ [a]) (kept ++ [a]) taken := by
  obtain ⟨front, back, rfl, rfl, rfl, hk⟩ := h
  exact ⟨front, back ++ [a], by simp, by simp [ha], by simp [ha], hk⟩

theorem TakesLast.length (h : TakesLast p k l kept taken) : taken.length = k := by
  obtain ⟨-, -, -, -, -, hk⟩ := h
  exact hk

theorem TakesLast.forall (h : TakesLast p k l kept taken) : ∀ a ∈ taken, p a = true := by
  obtain ⟨front, back, -, -, rfl, -⟩ := h
  intro a ha
  exact (List.mem_filter.mp ha).2

/-- Where nothing is taken, everything stays. -/
theorem TakesLast.eq_of_nil (h : TakesLast p k l kept []) : kept = l := by
  obtain ⟨front, back, rfl, rfl, hnil, -⟩ := h
  have hall : back.filter (!p ·) = back := by
    refine List.filter_eq_self.mpr fun a ha => ?_
    simpa using List.filter_eq_nil_iff.mp hnil.symm a ha
  rw [hall]

/-- Nothing is lost and nothing is doubled. -/
theorem TakesLast.perm (h : TakesLast p k l kept taken) : (taken ++ kept).Perm l := by
  obtain ⟨front, back, rfl, rfl, rfl, -⟩ := h
  have hback : (back.filter p ++ back.filter (!p ·)).Perm back := List.filter_append_perm p back
  refine List.Perm.trans ?_ (hback.append_left front)
  rw [← List.append_assoc, ← List.append_assoc]
  exact List.perm_append_comm.append_right _

end JamSched
