import Mathlib.Data.List.Basic
import Mathlib.Data.List.Count
import Mathlib.Tactic.Common

/-!
# Timing wheels

A timing wheel as its users see it: entries that are pending until their time, a queue of
entries whose time has come, and the time up to which the wheel was advanced. Which slot holds a
pending entry makes no difference to them. An entry is known by a handle of type `α`; the wheel
does not keep its users from linking an entry twice, so `links` counts.
-/
namespace JamSched

universe u v

structure Wheel (α : Type u) (τ : Type v) where
  curtime : τ
  /-- The entries in the slots, each with its expiry. -/
  pending : List (α × τ) := []
  /-- The expired queue. -/
  expired : List α := []

namespace Wheel

variable {α : Type u} {τ : Type v}

section Queue

/-- The first entry of the expired queue, unlinked. -/
def get (w : Wheel α τ) : Option (α × Wheel α τ) :=
  match w.expired with
  | [] => none
  | a :: l => some (a, { w with expired := l })

variable [DecidableEq α]

/-- Unlink an entry. -/
def del (w : Wheel α τ) (a : α) : Wheel α τ :=
  { w with
    pending := w.pending.filter fun e => e.1 ≠ a
    expired := w.expired.filter fun b => b ≠ a }

/-- How often an entry is linked, in a slot or in the expired queue. -/
def links (w : Wheel α τ) (a : α) : Nat := (w.pending.map (·.1)).count a + w.expired.count a

theorem links_get {w w' : Wheel α τ} {b : α} (h : w.get = some (b, w')) (a : α) :
    w.links a = w'.links a + if b = a then 1 else 0 := by
  unfold get at h
  split at h
  · cases h
  · rename_i b' l hl
    cases h
    simp only [links, hl, List.count_cons, beq_iff_eq]
    omega

@[simp] theorem links_del_self (w : Wheel α τ) (a : α) : (w.del a).links a = 0 := by
  simp [links, del, List.count_eq_zero]

theorem links_del_of_ne (w : Wheel α τ) {a b : α} (h : a ≠ b) : (w.del b).links a = w.links a := by
  have hpending : ((w.pending.filter fun e => e.1 ≠ b).map (·.1)).count a =
      (w.pending.map (·.1)).count a := by
    induction w.pending with
    | nil => rfl
    | cons e l ih =>
      by_cases he : e.1 = b <;> simp_all [List.count_cons]
      exact fun hab => h hab.symm
  simp only [links, del, hpending]
  rw [List.count_filter (by simpa using h)]

theorem links_pos_of_expired {w : Wheel α τ} {a : α} (h : a ∈ w.expired) : 0 < w.links a :=
  Nat.lt_of_lt_of_le (List.count_pos_iff.mpr h) (Nat.le_add_left _ _)

end Queue

section Time

variable [LT τ] [DecidableLT τ]

/-- Advance the wheel: exactly the entries that are due go to the expired queue. -/
def update (w : Wheel α τ) (now : τ) : Wheel α τ where
  curtime := now
  pending := w.pending.filter fun e => now < e.2
  expired := w.expired ++ (w.pending.filter fun e => ¬ now < e.2).map (·.1)

/-- Link an entry. One that is due already goes to the expired queue. -/
def add (w : Wheel α τ) (a : α) (expires : τ) : Wheel α τ :=
  if w.curtime < expires then { w with pending := w.pending ++ [(a, expires)] }
  else { w with expired := w.expired ++ [a] }

theorem expired_update (w : Wheel α τ) (now : τ) : (w.update now).expired =
    w.expired ++ (w.pending.filter fun e => ¬ now < e.2).map (·.1) := rfl

/-- An entry that is linked at a time is due at that time exactly if it is due already. -/
theorem expired_update_add (w : Wheel α τ) (a : α) (now expires : τ) :
    (((w.update now).add a expires).update now).expired =
      (w.update now).expired ++ if now < expires then [] else [a] := by
  have hnone : ((w.update now).pending.filter fun e => ¬ now < e.2) = [] := by
    simp [update]
  rw [expired_update, add]
  by_cases h : now < expires
  · have hlt : (w.update now).curtime < expires := h
    simp only [hlt, ↓reduceIte, List.filter_append, hnone]
    simp [h]
  · have hlt : ¬ (w.update now).curtime < expires := h
    simp only [hlt, ↓reduceIte, hnone]
    simp [h]

variable [DecidableEq α]

@[simp] theorem links_update (w : Wheel α τ) (now : τ) (a : α) :
    (w.update now).links a = w.links a := by
  have hsplit (l : List (α × τ)) : ((l.filter fun e => now < e.2).map (·.1)).count a +
      ((l.filter fun e => ¬ now < e.2).map (·.1)).count a = (l.map (·.1)).count a := by
    induction l with
    | nil => rfl
    | cons e l ih =>
      by_cases he : now < e.2 <;> simp_all [List.count_cons] <;> omega
  have := hsplit w.pending
  simp only [links, update, List.count_append]
  omega

theorem links_add (w : Wheel α τ) (a b : α) (expires : τ) :
    (w.add b expires).links a = w.links a + if b = a then 1 else 0 := by
  unfold add
  split <;> simp [links, List.count_append, List.count_singleton] <;> omega

end Time

section Map

universe w

variable {σ : Type w} (f : τ → σ) (w : Wheel α τ)

/-- The same wheel with its times written in another way. -/
def map : Wheel α σ where
  curtime := f w.curtime
  pending := w.pending.map fun e => (e.1, f e.2)
  expired := w.expired

@[simp] theorem expired_map : (w.map f).expired = w.expired := rfl

@[simp] theorem links_map [DecidableEq α] (a : α) : (w.map f).links a = w.links a := by
  simp [links, map, Function.comp_def]

theorem get_map : (w.map f).get = w.get.map fun r => (r.1, r.2.map f) := by
  simp only [get, expired_map]
  cases w.expired <;> rfl

theorem del_map [DecidableEq α] (a : α) : (w.map f).del a = (w.del a).map f := by
  simp [map, del, List.filter_map, Function.comp_def]

variable [LT τ] [DecidableLT τ] [LT σ] [DecidableLT σ]

/-- Advancing commutes with writing the times in another way, if that keeps the order. -/
theorem update_map {now : τ} (h : ∀ e ∈ w.pending, f now < f e.2 ↔ now < e.2) :
    (w.map f).update (f now) = (w.update now).map f := by
  have hfilter : w.pending.filter (fun e => f now < f e.2) =
      w.pending.filter (fun e => now < e.2) :=
    List.filter_congr fun e he => by simp [h e he]
  have hfilter' : w.pending.filter (fun e => ¬ f now < f e.2) =
      w.pending.filter (fun e => ¬ now < e.2) :=
    List.filter_congr fun e he => by simp [h e he]
  simp only [map, update, List.filter_map, Function.comp_def, hfilter, hfilter', List.map_map]

theorem add_map {a : α} {expires : τ} (h : f w.curtime < f expires ↔ w.curtime < expires) :
    (w.map f).add a (f expires) = (w.add a expires).map f := by
  unfold add
  by_cases hlt : w.curtime < expires
  · have hlt' : f w.curtime < f expires := h.mpr hlt
    simp [map, hlt, hlt']
  · have hlt' : ¬ f w.curtime < f expires := fun hf => hlt (h.mp hf)
    simp [map, hlt, hlt']

end Map

section Reorder

/-- The same wheel with its pending entries in another order. -/
structure Reorder (w w' : Wheel α τ) : Prop where
  curtime : w'.curtime = w.curtime
  expired : w'.expired = w.expired
  pending : w'.pending.Perm w.pending

universe w

variable {w₁ w₂ w₃ : Wheel α τ}

theorem Reorder.refl (w₁ : Wheel α τ) : w₁.Reorder w₁ := ⟨rfl, rfl, .refl _⟩

theorem Reorder.trans (h : w₁.Reorder w₂) (h' : w₂.Reorder w₃) : w₁.Reorder w₃ where
  curtime := h'.curtime.trans h.curtime
  expired := h'.expired.trans h.expired
  pending := h'.pending.trans h.pending

theorem Reorder.del [DecidableEq α] (h : w₁.Reorder w₂) (a : α) :
    (w₁.del a).Reorder (w₂.del a) where
  curtime := h.curtime
  expired := congrArg (List.filter fun b => b ≠ a) h.expired
  pending := h.pending.filter _

theorem Reorder.map {σ : Type w} (h : w₁.Reorder w₂) (f : τ → σ) :
    (w₁.map f).Reorder (w₂.map f) where
  curtime := congrArg f h.curtime
  expired := h.expired
  pending := h.pending.map _

variable [LT τ] [DecidableLT τ]

theorem Reorder.add (h : w₁.Reorder w₂) (a : α) (expires : τ) :
    (w₁.add a expires).Reorder (w₂.add a expires) := by
  unfold Wheel.add
  rw [h.curtime]
  split
  · exact ⟨rfl, h.expired, h.pending.append_right _⟩
  · exact ⟨rfl, congrArg (· ++ [a]) h.expired, h.pending⟩

end Reorder

end Wheel

end JamSched
