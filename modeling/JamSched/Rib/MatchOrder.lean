import JamSched.Rib.MatchCount
import Mathlib.Data.Prod.Lex

/-!
# The order of the records

The decider sorts its records by arrival, and the sort may leave records of equal arrival in any
order. What a slot admits ends at an arrival, so it is the same set of records for every such
order. The queue then holds the same pairs of numbers in the same order, because both runs keep
it sorted, and how a slot is served depends on these numbers only.
-/
namespace JamSched.Rib

/-- What the code sees of an entry of the queue. -/
def Job.key (j : Job) : Int ×ₗ Int := toLex (j.first, j.second)

theorem Job.Le.key_le {j k : Job} (h : j.Le k) : j.key ≤ k.key := by
  simp only [Job.Le] at h
  simp only [Job.key, Prod.Lex.toLex_le_toLex]
  omega

/-- Two queues with the same numbers in them have them in the same order. -/
theorem keys_eq_of_perm {q₁ q₂ : List Job} (h₁ : q₁.Pairwise Job.Le) (h₂ : q₂.Pairwise Job.Le)
    (h : (q₁.map Job.key).Perm (q₂.map Job.key)) : q₁.map Job.key = q₂.map Job.key :=
  h.eq_of_pairwise' (List.pairwise_map.mpr (h₁.imp Job.Le.key_le))
    (List.pairwise_map.mpr (h₂.imp Job.Le.key_le))

/-- Serving two queues with the same numbers completes as many jobs, and leaves the same numbers
behind. -/
theorem serve_congr (A : Arithmetic) (tSlot : Int) {q₁ q₂ : List Job} (h₁ : q₁.Pairwise Job.Le)
    (h₂ : q₂.Pairwise Job.Le) (h : q₁.map Job.key = q₂.map Job.key) :
    (serve A tSlot q₁).1.countP (·.completed) = (serve A tSlot q₂).1.countP (·.completed) ∧
      (serve A tSlot q₁).2.map Job.key = (serve A tSlot q₂).2.map Job.key := by
  induction q₁ generalizing tSlot q₂ with
  | nil =>
    obtain rfl : q₂ = [] := List.map_eq_nil_iff.mp h.symm
    exact ⟨rfl, rfl⟩
  | cons j q₁ ih =>
    obtain ⟨k, q₂, rfl, hkey, hkeys⟩ := List.map_eq_cons_iff.mp h.symm
    obtain ⟨hfirst, hsecond⟩ : k.first = j.first ∧ k.second = j.second := by
      simpa [Job.key] using hkey
    simp only [serve, hsecond]
    by_cases htime : tSlot ≤ 0
    · simp only [htime, ↓reduceIte]
      exact ⟨trivial, h⟩
    by_cases hfits : j.second ≤ A.toUint64 tSlot
    · obtain ⟨hcount, hrest⟩ := ih (A.toLong (A.toUint64 (A.toUint64 tSlot - j.second)))
        h₁.of_cons h₂.of_cons hkeys.symm
      simp only [htime, hfits, ↓reduceIte]
      exact ⟨by simp [hcount], hrest⟩
    · simp only [htime, hfits, ↓reduceIte]
      refine ⟨rfl, keys_eq_of_perm (h₁.of_cons.orderedInsert _) (h₂.of_cons.orderedInsert _) ?_⟩
      -- the job that is pushed again has the same numbers in both queues
      refine ((List.perm_orderedInsert _ _ _).map _).trans
        (.trans ?_ ((List.perm_orderedInsert _ _ _).map _).symm)
      simp [Job.key, hfirst, hkeys]

/-- Two states that differ in the order of records of equal arrival only. -/
structure Queues.Alike (x y : Queues) : Prop where
  records : (x.tRecord.map (·.1)).Perm (y.tRecord.map (·.1))
  arrivals : (x.tRecord.map (·.1)).Pairwise (·.arrival ≤ ·.arrival)
  arrivals' : (y.tRecord.map (·.1)).Pairwise (·.arrival ≤ ·.arrival)
  keys : x.edfPQueue.map Job.key = y.edfPQueue.map Job.key
  sorted : x.edfPQueue.Pairwise Job.Le
  sorted' : y.edfPQueue.Pairwise Job.Le

namespace Queues.Alike

variable {x y : Queues} (A : Arithmetic) (slot : Slot)

/-- Which records are admitted ends at an arrival. -/
theorem admitted (h : Alike x y) :
    ((x.admitted A slot).map (·.1)).Perm ((y.admitted A slot).map (·.1)) := by
  have hperm := SortedQueue.takeWhile_perm
    (p := fun arrival => ! decide (slot.second ≤ A.toUint64 arrival)) h.arrivals h.arrivals'
    h.records
  rwa [List.takeWhile_map, List.takeWhile_map] at hperm

theorem remaining (h : Alike x y) :
    ((x.next A slot).tRecord.map (·.1)).Perm ((y.next A slot).tRecord.map (·.1)) := by
  have hperm := SortedQueue.dropWhile_perm
    (p := fun arrival => ! decide (slot.second ≤ A.toUint64 arrival)) h.arrivals h.arrivals'
    h.records
  rwa [List.dropWhile_map, List.dropWhile_map] at hperm

theorem filled (h : Alike x y) :
    (x.filled A slot).map Job.key = (y.filled A slot).map Job.key := by
  apply keys_eq_of_perm (x.pairwise_filled A slot h.sorted) (y.pairwise_filled A slot h.sorted')
  have hkeys : ∀ z : Queues, ((z.filled A slot).map Job.key).Perm
      (((z.admitted A slot).map (·.1)).map
          (fun r => toLex (A.toUint64 r.deadline, A.toUint64 r.burst)) ++
        z.edfPQueue.map Job.key) := by
    intro z
    refine ((SortedQueue.pushAll_perm _ _ _).map Job.key).trans (.of_eq ?_)
    simp [entry, Job.key, Function.comp_def]
  refine (hkeys x).trans (.trans ?_ (hkeys y).symm)
  rw [h.keys]
  exact ((h.admitted A slot).map _).append_right _

theorem live (h : Alike x y) : (x.live A slot).map Job.key = (y.live A slot).map Job.key := by
  have hdrop : ∀ q : List Job, (q.dropWhile (isExpired slot)).map Job.key =
      (q.map Job.key).dropWhile fun key => decide ((ofLex key).1 ≤ slot.first) := by
    intro q
    rw [List.dropWhile_map]
    rfl
  simp only [Queues.live, hdrop, h.filled A slot]

/-- One slot completes as many jobs in both states, and they stay alike. -/
theorem next (h : Alike x y) :
    (x.trace A slot).mCount = (y.trace A slot).mCount ∧
      Alike (x.next A slot) (y.next A slot) := by
  obtain ⟨hcount, hkeys⟩ := serve_congr A (tSlot A slot) (x.pairwise_live A slot h.sorted)
    (y.pairwise_live A slot h.sorted') (h.live A slot)
  refine ⟨hcount, h.remaining A slot, ?_, ?_, hkeys, x.pairwise_next A slot h.sorted,
    y.pairwise_next A slot h.sorted'⟩
  · exact h.arrivals.sublist ((List.dropWhile_sublist _).map _)
  · exact h.arrivals'.sublist ((List.dropWhile_sublist _).map _)

theorem isDone (h : Alike x y) : x.isDone = y.isDone := by
  have hqueue : x.edfPQueue.isEmpty = y.edfPQueue.isEmpty := by
    simpa using congrArg List.isEmpty h.keys
  have hrecord : x.tRecord.isEmpty = y.tRecord.isEmpty := by simpa using h.records.isEmpty_eq
  rw [Queues.isDone, Queues.isDone, hqueue, hrecord]

/-- In all slots together as many jobs are completed. -/
theorem mCounts (h : Alike x y) (schedule : List Slot) :
    (simulate A schedule x).map SlotTrace.mCount =
      (simulate A schedule y).map SlotTrace.mCount := by
  induction schedule generalizing x y with
  | nil => rfl
  | cons slot schedule ih =>
    obtain ⟨hcount, hnext⟩ := h.next A slot
    simp only [simulate, hnext.isDone, List.map_cons, hcount]
    split
    · rfl
    · rw [ih hnext]

end Queues.Alike

/-- The match count does not depend on how `std::sort` arranges records of equal arrival, nor on
the order in which they were made. -/
theorem calculateMatchCount_congr (A : Arithmetic)
    {records₁ records₂ sorted₁ sorted₂ : List ITaskEntry} (h : records₁.Perm records₂)
    (h₁ : SortedByArrival records₁ sorted₁) (h₂ : SortedByArrival records₂ sorted₂)
    (schedule : List Slot) :
    calculateMatchCount A sorted₁ schedule = calculateMatchCount A sorted₂ schedule := by
  have halike : (Queues.start sorted₁).Alike (Queues.start sorted₂) :=
    { records := by simpa [Queues.start] using h₁.perm.trans (h.trans h₂.perm.symm)
      arrivals := by simpa [Queues.start] using h₁.pairwise
      arrivals' := by simpa [Queues.start] using h₂.pairwise
      keys := rfl
      sorted := List.Pairwise.nil
      sorted' := List.Pairwise.nil }
  simp only [calculateMatchCount, halike.mCounts A schedule]

/-- The choice between the two schedules depends on the records as a collection only, and it is
for the schedule with the larger count, the normal one if they are equal. -/
theorem nextScheduleToRun_congr {records₁ records₂ sorted₁ sorted₂ : List ITaskEntry}
    (hne : records₁ ≠ []) (h : records₁.Perm records₂) (h₁ : SortedByArrival records₁ sorted₁)
    (h₂ : SortedByArrival records₂ sorted₂) (rand₁ rand₂ : Nat)
    (normalSSSlot greedySSSlot : List Slot) :
    (∀ schedule, calculateMatchCount .machine sorted₁ schedule =
      calculateMatchCount .machine sorted₂ schedule) ∧
    nextScheduleToRun rand₁ sorted₁ normalSSSlot greedySSSlot =
      nextScheduleToRun rand₂ sorted₂ normalSSSlot greedySSSlot ∧
    calculateMatchCount .machine sorted₁
        (if nextScheduleToRun rand₁ sorted₁ normalSSSlot greedySSSlot then normalSSSlot
          else greedySSSlot) =
      max (calculateMatchCount .machine sorted₁ normalSSSlot)
        (calculateMatchCount .machine sorted₁ greedySSSlot) ∧
    (calculateMatchCount .machine sorted₁ normalSSSlot =
        calculateMatchCount .machine sorted₁ greedySSSlot →
      nextScheduleToRun rand₁ sorted₁ normalSSSlot greedySSSlot = true) := by
  have hcount := calculateMatchCount_congr .machine h h₁ h₂
  have hsome₁ : sorted₁.isEmpty = false := by
    cases sorted₁ with
    | nil => exact absurd h₁.perm.symm.eq_nil hne
    | cons => rfl
  have hsome₂ : sorted₂.isEmpty = false := by
    cases sorted₂ with
    | nil => exact absurd (h.trans h₂.perm.symm).eq_nil hne
    | cons => rfl
  refine ⟨hcount, ?_, ?_, ?_⟩
  · simp only [nextScheduleToRun, hsome₁, hsome₂, Bool.false_eq_true, ↓reduceIte, hcount]
  · simp only [nextScheduleToRun, hsome₁, Bool.false_eq_true, ↓reduceIte, decide_eq_true_eq]
    split
    · exact (max_eq_left ‹_›).symm
    · exact (max_eq_right (by omega)).symm
  · intro heq
    simp [nextScheduleToRun, hsome₁, heq]

/-- Two records that arrive at the same time, in both orders. -/
theorem nextScheduleToRun_sameArrival :
    nextScheduleToRun 0 [⟨20, 5, 3⟩, ⟨9, 4, 3⟩] [⟨0, 10⟩] [⟨0, 4⟩] =
      nextScheduleToRun 1 [⟨9, 4, 3⟩, ⟨20, 5, 3⟩] [⟨0, 10⟩] [⟨0, 4⟩] :=
  (@nextScheduleToRun_congr [⟨20, 5, 3⟩, ⟨9, 4, 3⟩] [⟨9, 4, 3⟩, ⟨20, 5, 3⟩] _ _ (by decide)
    (List.Perm.swap _ _ _) ⟨List.Perm.refl _, by decide⟩ ⟨List.Perm.refl _, by decide⟩ 0 1
    [⟨0, 10⟩] [⟨0, 4⟩]).2.1

end JamSched.Rib
