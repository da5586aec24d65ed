import JamSched.Steal.Reach

/-!
# The counters of the workers

`sizeOfQueue` is kept by hand beside `isReady`. Every operation changes the two alike, except
the first critical section of `StealFrom`: it counts what it takes for the thief already, and
the second one, where the tasks are linked, counts them again. So the counter of a worker runs
ahead of its queue by all that the worker has ever stolen.
-/
namespace JamSched.Steal

open Machine

variable {s t : Pool} {x : SchedId} {p : Ptr} {l : Label}

/-- By how much a step lets the counter of worker `i` run ahead. -/
def gain (s : Pool) (i : Nat) : Label → Nat
  | .stealOut k j => if i = k then (s.loot j).2.length else 0
  | _ => 0

/-- No counter is behind its queue. -/
def Ahead (s : Pool) : Prop := ∀ i, (s.isReady (.thief i)).length ≤ s.sizeOfQueue i

theorem takeStealable_length (h : Heap) (n : Nat) (ls : List Ptr) :
    (takeStealable h n ls).1.length + (takeStealable h n ls).2.length = ls.length := by
  induction ls generalizing n with
  | nil => cases n <;> simp [takeStealable]
  | cons p ls ih =>
    cases n with
    | zero => simp [takeStealable]
    | succ n =>
      unfold takeStealable
      have h₁ := ih n
      have h₂ := ih (n + 1)
      split <;> simp only [List.length_cons] <;> omega

theorem loot_length (s : Pool) (j : Nat) :
    (s.loot j).1.length + (s.loot j).2.length = (s.isReady (.thief j)).length := by
  unfold Pool.loot
  dsimp only
  split
  · simpa using takeStealable_length s.heap
      (min (s.stealableCount j) ((s.isReady (.thief j)).length / 2)) (s.isReady (.thief j)).reverse
  · simp

theorem takeStealable_ne_nil (h : Heap) (n : Nat) {ls : List Ptr} (hp : p ∈ ls)
    (hst : (h p).isStealable = true) : (takeStealable h (n + 1) ls).2 ≠ [] := by
  induction ls with
  | nil => simp at hp
  | cons q ls ih =>
    unfold takeStealable
    split
    · simp
    · rename_i hq
      rcases List.mem_cons.mp hp with rfl | hp
      · exact absurd hst hq
      · exact ih hp

/-- A `StealFrom` takes nothing exactly when it counts at most one stealable task. -/
theorem loot_eq_nil_iff (s : Pool) (j : Nat) : (s.loot j).2 = [] ↔ s.stealableCount j ≤ 1 := by
  unfold Pool.loot
  dsimp only
  split
  · rename_i hc
    have hle : s.stealableCount j ≤ (s.isReady (.thief j)).length := List.countP_le_length
    obtain ⟨n, hn⟩ : ∃ n, min (s.stealableCount j) ((s.isReady (.thief j)).length / 2) = n + 1 :=
      ⟨min (s.stealableCount j) ((s.isReady (.thief j)).length / 2) - 1, by omega⟩
    have hpos := Nat.lt_of_lt_of_le Nat.zero_lt_one (Nat.le_of_lt hc)
    obtain ⟨p, hp, hst⟩ := List.countP_pos_iff.mp hpos
    rw [hn]
    have := takeStealable_ne_nil s.heap n (List.mem_reverse.mpr hp) hst
    simp only [this, false_iff]
    omega
  · rename_i hc
    simp only [true_iff]
    omega

/-- The counters and the queues after an `Enable` of scheduler `x`. -/
theorem push_drift (s : Pool) (x : SchedId) (front : Bool) (p : Ptr) (i : Nat) :
    (s.push x front p).sizeOfQueue i + (s.isReady (.thief i)).length =
      s.sizeOfQueue i + ((s.push x front p).isReady (.thief i)).length := by
  cases x with
  | rib => simp [Pool.push]
  | thief j =>
    by_cases hij : i = j
    · subst hij
      cases front <;> simp [Pool.push] <;> omega
    · simp [Pool.push, hij]

theorem enable_drift (s : Pool) (x : SchedId) (front : Bool) (p : Ptr) (i : Nat) :
    (s.enable x front p).sizeOfQueue i + (s.isReady (.thief i)).length =
      s.sizeOfQueue i + ((s.enable x front p).isReady (.thief i)).length := by
  unfold Pool.enable
  dsimp only
  split
  · rfl
  · exact push_drift s x front p i

/-- A task that is deleted is in the queue of no worker. -/
theorem delete_ready {y : SchedId} (hp : ∀ i, p ∉ s.isReady (.thief i)) (i : Nat) :
    (s.delete y p).isReady (.thief i) = s.isReady (.thief i) :=
  List.erase_of_not_mem (hp i)

theorem step_drift (h : Owned s) (ha : Ahead s) (ht : Step s l t) (i : Nat) :
    t.sizeOfQueue i + (s.isReady (.thief i)).length =
      s.sizeOfQueue i + (t.isReady (.thief i)).length + gain s i l := by
  cases ht with
  | @pop k a p ls hth hr =>
    have hk := ha k
    by_cases hik : i = k
    · subst hik
      simp only [hr, List.length_cons] at hk
      simp [hr, gain]
      omega
    · simp [hik, gain]
  | @stealOut k j a hth hkj =>
    have hj := ha j
    have hlen := loot_length s j
    by_cases hik : i = k
    · subst hik
      simp [hkj, gain]
      omega
    · by_cases hij : i = j
      · subst hij
        simp [hik, gain]
        omega
      · simp [hij, hik, gain]
  | @stealIn k a got hth =>
    by_cases hik : i = k
    · subst hik
      simp [gain]
      omega
    · simp [hik, gain]
  | @giveUp a p ls hth =>
    have hnot (k : Nat) : p ∉ s.isReady (.thief k) := fun hmem => by
      obtain ⟨loc, hp⟩ := h p
      obtain rfl := loc_ready hp hmem
      cases hp.loc_eq (k := .limbo .rib) (by simp) (by simp [Pool.count, hth, Thread.limbo])
    rw [Pool.setThread_isReady, delete_ready hnot]
    rfl
  | @cancel a p hth hmem =>
    have hnot (k : Nat) : p ∉ s.isReady (.thief k) := fun hk => by
      obtain ⟨loc, hp⟩ := h p
      obtain rfl := loc_ready hp hk
      cases loc_ready hp hmem
    rw [delete_ready hnot]
    rfl
  | @endDelete z a q hth hx hd =>
    have hnot (k : Nat) : a ∉ s.isReady (.thief k) := fun hk => by
      obtain ⟨loc, hp⟩ := h a
      obtain rfl := loc_ready hp hk
      simp [hp.scheduler (.thief k) (.inl rfl)] at hx
    rw [enter_isReady, enter_sizeOfQueue, delete_ready hnot]
    rfl
  | @testDelete z a q hth hd =>
    have hnot (k : Nat) : a ∉ s.isReady (.thief k) := fun hk => by
      obtain ⟨loc, hp⟩ := h a
      obtain rfl := loc_ready hp hk
      cases hp.finished hd
    rw [enter_isReady, enter_sizeOfQueue, delete_ready hnot]
    rfl
  | giveTo | yield =>
    simp only [Pool.setThread_sizeOfQueue, Pool.setThread_isReady, gain, Nat.add_zero]
    exact enable_drift _ _ _ _ _
  | wakePush => exact enable_drift _ _ _ _ _
  | create | createFor => exact push_drift _ _ _ _ _
  | _ => simp [gain]

theorem Ahead.step (h : Owned s) (ha : Ahead s) (ht : Step s l t) : Ahead t := by
  intro i
  have hi := ha i
  have := step_drift h ha ht i
  omega

/-- The counter of worker `i` is ahead of its queue by the same amount at the end of a run
exactly when none of its steps let it run ahead. -/
theorem run_drift (hs : Reach s) (ha : Ahead s) {ls : List Label} (hr : run step s ls = some t)
    (i : Nat) : t.sizeOfQueue i - (t.isReady (.thief i)).length =
      s.sizeOfQueue i - (s.isReady (.thief i)).length ↔
        Along step (fun u l => gain u i l = 0) s ls := by
  have hinv (u : Pool) (lab : Label) (w : Pool) (hu : Reach u ∧ Ahead u)
      (hw : step u lab = some w) : Reach w ∧ Ahead w :=
    ⟨hu.1.step hw, hu.2.step hu.1.owned (step_cases hw)⟩
  refine (run_potential (D := fun u => u.sizeOfQueue i - (u.isReady (.thief i)).length) hinv ?_ ?_
    ⟨hs, ha⟩ hr).2
  · intro u lab w hu hw
    have hd := step_drift hu.1.owned hu.2 (step_cases hw) i
    have h₁ := hu.2 i
    omega
  · intro u lab w hu hw
    have hd := step_drift hu.1.owned hu.2 (step_cases hw) i
    have h₁ := hu.2 i
    have h₂ := (hinv u lab w hu hw).2 i
    omega

/-- If the step is one of a `StealFrom`, then the victim has at most one stealable task. -/
def TakesNothing (s : Pool) (l : Label) : Prop := ∀ j ∈ l.victim, s.stealableCount j ≤ 1

instance (s : Pool) (l : Label) : Decidable (TakesNothing s l) :=
  inferInstanceAs (Decidable (∀ j ∈ l.victim, s.stealableCount j ≤ 1))

theorem takesNothing_iff (s : Pool) (l : Label) : TakesNothing s l ↔ ∀ i, gain s i l = 0 := by
  cases l with
  | stealOut k j =>
    simp only [TakesNothing, Label.victim, gain, ← loot_eq_nil_iff]
    constructor
    · intro h i
      simp [h]
    · intro h
      simpa using h k
  | _ => simp [TakesNothing, Label.victim, gain]

/-- Worker 1 finds one stealable task with worker 0 and leaves it there. -/
def vainRun : List Label :=
  [.createFor 0 .standAlone false, .next (.thief 1), .stealOut 1 0, .stealIn 1]

/-- Some worker is between the two critical sections of `StealFrom`. -/
def Pool.stealInProgress (s : Pool) : Bool :=
  (List.range s.nThiefs).any fun i => match s.thread (.thief i) with
    | .steal _ _ => true
    | _ => false

/-- Worker 1 finds two and takes one. -/
def theftOfOneRun : List Label := .createFor 0 .standAlone false :: vainRun

end JamSched.Steal
