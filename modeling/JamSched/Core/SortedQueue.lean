import Mathlib.Data.List.Sort
import Mathlib.Data.List.TakeWhile

/-!
# Queues kept in order

A priority queue as the sorted list of its elements: pushing is `List.orderedInsert`, and the top
is the head. A queue is determined by its elements, so the order in which they were pushed does
not matter. The second half is about prefixes of a sorted list that are cut off by a test of the
sort key: which elements such a prefix has does not depend on how equal keys are arranged.
-/
namespace JamSched.SortedQueue

variable {α β κ : Type*} {r : α → α → Prop} {q l l₁ l₂ : List α}

section Push

variable [DecidableRel r]

/-- Push the elements `f b` one after the other. -/
def pushAll (r : α → α → Prop) [DecidableRel r] (f : β → α) (bs : List β) (q : List α) :
    List α :=
  bs.foldl (fun q b => q.orderedInsert r (f b)) q

theorem pushAll_perm (f : β → α) (bs : List β) (q : List α) :
    (pushAll r f bs q).Perm (bs.map f ++ q) := by
  induction bs generalizing q with
  | nil => exact List.Perm.refl q
  | cons b bs ih =>
    have hpush : (bs.map f ++ q.orderedInsert r (f b)).Perm (bs.map f ++ f b :: q) :=
      (List.perm_orderedInsert r (f b) q).append_left _
    exact (ih _).trans (hpush.trans List.perm_middle)

theorem mem_pushAll {f : β → α} {bs : List β} {a : α} :
    a ∈ pushAll r f bs q ↔ a ∈ bs.map f ∨ a ∈ q := by
  rw [(pushAll_perm f bs q).mem_iff, List.mem_append]

theorem pairwise_pushAll [IsTrans α r] [Std.Total r] (f : β → α) (bs : List β)
    (hq : q.Pairwise r) : (pushAll r f bs q).Pairwise r := by
  induction bs generalizing q with
  | nil => exact hq
  | cons b bs ih => exact ih (hq.orderedInsert (f b) q)

end Push

section Prefix

variable {p : α → Bool}

/-- A test that only gets easier towards the front cuts a sorted list like a filter. -/
theorem dropWhile_eq_filter (hp : ∀ a b, r a b → p b = true → p a = true) (hl : l.Pairwise r) :
    l.dropWhile p = l.filter (!p ·) := by
  induction hl with
  | nil => rfl
  | @cons a l ha hl ih =>
    cases hpa : p a with
    | true => simp [hpa, ih]
    | false =>
      have hall : ∀ b ∈ l, (!p b) = true := by
        intro b hb
        cases hpb : p b with
        | true => simp [hp a b (ha b hb) hpb] at hpa
        | false => rfl
      simp [hpa, List.filter_eq_self.mpr hall]

theorem takeWhile_eq_filter (hp : ∀ a b, r a b → p b = true → p a = true)
    (hl : l.Pairwise r) : l.takeWhile p = l.filter p := by
  induction hl with
  | nil => rfl
  | @cons a l ha hl ih =>
    cases hpa : p a with
    | true => simp [hpa, ih]
    | false =>
      have hall : ∀ b ∈ l, p b = false := by
        intro b hb
        cases hpb : p b with
        | true => simp [hp a b (ha b hb) hpb] at hpa
        | false => rfl
      simpa [hpa] using hall

/-- A stricter test cuts off the same prefix exactly when the whole prefix passes it. -/
theorem map_takeWhile_eq_iff (f : α → β) {p' : α → Bool}
    (h : ∀ a ∈ l, p' a = true → p a = true) :
    (l.takeWhile p').map f = (l.takeWhile p).map f ↔ ∀ a ∈ l.takeWhile p, p' a = true := by
  induction l with
  | nil => simp
  | cons a l ih =>
    have hl := ih fun b hb => h b (List.mem_cons_of_mem _ hb)
    cases hpa' : p' a with
    | true => simpa [hpa', h a List.mem_cons_self hpa'] using hl
    | false => cases hpa : p a <;> simp [hpa', hpa]

/-- A stricter test selects the same elements exactly when every selected element passes it. -/
theorem map_filter_perm_iff (f : α → β) {p' : α → Bool}
    (h : ∀ a ∈ l, p' a = true → p a = true) :
    ((l.filter p').map f).Perm ((l.filter p).map f) ↔
      ∀ a ∈ l, p a = true → p' a = true := by
  have hboth : l.filter p' = (l.filter p).filter p' := by
    rw [List.filter_filter]
    refine List.filter_congr fun a ha => ?_
    cases hpa' : p' a with
    | true => simp [h a ha hpa']
    | false => simp
  constructor
  · intro hperm a ha hpa
    have hlength : ((l.filter p).filter p').length = (l.filter p).length := by
      rw [← hboth]
      simpa using hperm.length_eq
    exact List.length_filter_eq_length_iff.mp hlength a (List.mem_filter.mpr ⟨ha, hpa⟩)
  · intro hall
    rw [hboth, List.filter_eq_self.mpr fun a ha => hall a (List.mem_filter.mp ha).1
      (List.mem_filter.mp ha).2]

end Prefix

section Key

variable [LinearOrder κ] {key : α → κ} {p : κ → Bool}

/-- In a list sorted by its keys, the elements before the first key `c` that fails the test are
those with a key below `c`. -/
theorem takeWhile_eq_filter_lt (hl : l.Pairwise (key · ≤ key ·)) {c : κ} {cs : List κ}
    (hc : (l.map key).dropWhile p = c :: cs) :
    l.takeWhile (fun a => p (key a)) = l.filter (key · < c) := by
  induction hl with
  | nil => simp at hc
  | @cons a l ha hl ih =>
    cases hpa : p (key a) with
    | true =>
      have htail : (l.map key).dropWhile p = c :: cs := by simpa [hpa] using hc
      have hmem : c ∈ l.map key :=
        (List.dropWhile_sublist p).mem (htail ▸ List.mem_cons_self)
      obtain ⟨b, hb, rfl⟩ := List.mem_map.mp hmem
      have hfail : ¬ p (key b) = true := by
        have hhead := List.head?_dropWhile_not p (l.map key)
        simpa [htail] using hhead
      have hlt : key a < key b := lt_of_le_of_ne (ha b hb) fun heq => hfail (heq ▸ hpa)
      simp [hpa, hlt, ih htail]
    | false =>
      obtain ⟨rfl, -⟩ : key a = c ∧ l.map key = cs := by simpa [hpa] using hc
      have hnone : ∀ b ∈ l, ¬ key b < key a := fun b hb => not_lt_of_ge (ha b hb)
      simpa [hpa] using hnone

/-- Two arrangements of the same elements in the order of their keys have the same prefix before
the first key that fails the test, up to arrangement. -/
theorem takeWhile_perm (h₁ : l₁.Pairwise (key · ≤ key ·)) (h₂ : l₂.Pairwise (key · ≤ key ·))
    (h : l₁.Perm l₂) :
    (l₁.takeWhile fun a => p (key a)).Perm (l₂.takeWhile fun a => p (key a)) := by
  have hkeys : l₁.map key = l₂.map key :=
    (h.map key).eq_of_pairwise' (List.pairwise_map.mpr h₁) (List.pairwise_map.mpr h₂)
  cases hc : (l₁.map key).dropWhile p with
  | nil =>
    have hall : ∀ a ∈ l₁, p (key a) = true := by
      simpa [List.dropWhile_eq_nil_iff] using hc
    rw [List.takeWhile_eq_self_iff.mpr hall,
      List.takeWhile_eq_self_iff.mpr fun a ha => hall a (h.mem_iff.mpr ha)]
    exact h
  | cons c cs =>
    rw [takeWhile_eq_filter_lt h₁ hc, takeWhile_eq_filter_lt h₂ (hkeys ▸ hc)]
    exact h.filter _

theorem dropWhile_perm (h₁ : l₁.Pairwise (key · ≤ key ·)) (h₂ : l₂.Pairwise (key · ≤ key ·))
    (h : l₁.Perm l₂) :
    (l₁.dropWhile fun a => p (key a)).Perm (l₂.dropWhile fun a => p (key a)) := by
  have happend : ((l₁.takeWhile fun a => p (key a)) ++ l₁.dropWhile fun a => p (key a)).Perm
      ((l₂.takeWhile fun a => p (key a)) ++ l₂.dropWhile fun a => p (key a)) := by
    rw [List.takeWhile_append_dropWhile, List.takeWhile_append_dropWhile]
    exact h
  have htake := (takeWhile_perm (p := p) h₁ h₂ h).append_right
    (l₁.dropWhile fun a => p (key a))
  exact (List.perm_append_left_iff _).mp (htake.symm.trans happend)

end Key

end JamSched.SortedQueue
