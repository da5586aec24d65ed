import JamSched.Core.Shares
import JamSched.Core.SortedQueue
import JamSched.Rib.Decider
import Mathlib.Data.Multiset.Defs

/-!
# The match count of the decider

`Decider::CalculateMatchCount` plays the slots of one schedule against the recorded interactive
jobs: within the slots, the earliest deadline is served first, and the result is how many jobs
get all of their burst. `DecideNextScheduleToRun` does so for both schedules and compares.

Records are pairs of `long`s, the slots and the entries of the queue are pairs of `uint64_t`s, and
the comparisons mix both. The simulation is therefore written over two conversions, so that the
one of the code stands next to the one over the integers. The position of a record is carried
along to tell which job an entry of the queue belongs to; the code cannot tell apart two entries
that agree in both numbers.

## Main definitions

* `Queues.trace`, `Queues.next`: one turn of the loop over the slots, as what is seen to happen
  and as the state after it.
* `simulate`: the loop, and `calculateMatchCount`, which counts the completions in it.
* `nextScheduleToRun`: the choice of `DecideNextScheduleToRun`.
-/
namespace JamSched.Rib

/-- The conversions between `long` and `uint64_t`. -/
structure Arithmetic where
  toUint64 : Int → Int
  toLong : Int → Int

/-- Both types have 64 bits. -/
def Arithmetic.machine : Arithmetic := ⟨(· % 2 ^ 64), (Int.bmod · (2 ^ 64))⟩

/-- Nothing is ever cut off. -/
def Arithmetic.exact : Arithmetic := ⟨id, id⟩

/-- `Decider::QType` as an element of `normalSSSlot` and `greedySSSlot`. -/
structure Slot where
  first : Int
  second : Int
  deriving DecidableEq, Repr

/-- `Decider::QType` as an element of `edfPQueue`: a deadline and what is left of the burst. -/
structure Job where
  first : Int
  second : Int
  /-- The position of the record it was made from. -/
  record : Nat
  deriving DecidableEq, Repr

/-- The order of pairs, and for equal pairs the one of the records. -/
def Job.Le (j k : Job) : Prop :=
  j.first < k.first ∨ j.first = k.first ∧
    (j.second < k.second ∨ j.second = k.second ∧ j.record ≤ k.record)

instance : DecidableRel Job.Le := fun _ _ => inferInstanceAs (Decidable (_ ∨ _))

instance : IsTrans Job Job.Le := ⟨fun _ _ _ h h' => by simp only [Job.Le] at *; omega⟩

instance : Std.Total Job.Le := ⟨fun _ _ => by simp only [Job.Le]; omega⟩

instance : Std.Antisymm Job.Le where
  antisymm j k h h' := by
    obtain ⟨_, _, _⟩ := j
    obtain ⟨_, _, _⟩ := k
    simp only [Job.Le, Job.mk.injEq] at *
    omega

theorem Job.Le.first_le {j k : Job} (h : j.Le k) : j.first ≤ k.first := by
  simp only [Job.Le] at h
  omega

/-- One turn of the loop that serves a slot: how much time went to which job, and whether it was
all that the job still needed. -/
structure Piece where
  record : Nat
  time : Int
  completed : Bool
  deriving DecidableEq, Repr

/-- The loop that serves a slot, from `tSlot` on: what is served, and the queue left behind. -/
def serve (A : Arithmetic) (tSlot : Int) : List Job → List Piece × List Job
  | [] => ([], [])
  | j :: edfPQueue =>
    if tSlot ≤ 0 then ([], j :: edfPQueue)
    else if j.second ≤ A.toUint64 tSlot then
      let rest := serve A (A.toLong (A.toUint64 (A.toUint64 tSlot - j.second))) edfPQueue
      (⟨j.record, j.second, true⟩ :: rest.1, rest.2)
    else
      -- `tSlot` becomes 0, which ends the loop
      let tRef := { j with second := A.toUint64 (j.second - A.toUint64 tSlot) }
      ([⟨j.record, tSlot, false⟩], edfPQueue.orderedInsert Job.Le tRef)

/-- What happens in one slot. -/
structure SlotTrace where
  /-- The records that are moved to the queue. -/
  admitted : List Nat
  /-- The jobs that are dropped because their deadline is over. -/
  expired : Multiset Nat
  served : List Piece
  deriving DecidableEq

namespace SlotTrace

/-- By how much `mCount` grows. -/
def mCount (t : SlotTrace) : Nat := t.served.countP (·.completed)

/-- The jobs counted by `mCount`. -/
def counted (t : SlotTrace) : List Nat := (t.served.filter (·.completed)).map (·.record)

/-- The time that a job gets. -/
def time (t : SlotTrace) (record : Nat) : Int := sumAt Piece.record Piece.time t.served record

end SlotTrace

/-- The two queues of `CalculateMatchCount`. -/
structure Queues where
  /-- The records left, each with its position. -/
  tRecord : List (ITaskEntry × Nat)
  edfPQueue : List Job
  deriving DecidableEq, Repr

namespace Queues

variable (A : Arithmetic) (slot : Slot) (x : Queues)

/-- The negation of `tRecord.front().arrival >= slot.second`. -/
def admits (r : ITaskEntry × Nat) : Bool := ! decide (slot.second ≤ A.toUint64 r.1.arrival)

/-- `{tRecord.front().deadline, tRecord.front().burst}`. -/
def entry (r : ITaskEntry × Nat) : Job :=
  ⟨A.toUint64 r.1.deadline, A.toUint64 r.1.burst, r.2⟩

def admitted : List (ITaskEntry × Nat) := x.tRecord.takeWhile (admits A slot)

/-- `edfPQueue` after the loop over `tRecord`. -/
def filled : List Job :=
  SortedQueue.pushAll Job.Le (entry A) (x.admitted A slot) x.edfPQueue

/-- The condition of the loop that drops expired jobs. -/
def isExpired (j : Job) : Bool := decide (j.first ≤ slot.first)

def expired : List Job := (x.filled A slot).takeWhile (isExpired slot)

/-- `edfPQueue` after the expired jobs are dropped. -/
def live : List Job := (x.filled A slot).dropWhile (isExpired slot)

/-- `long tSlot = slot.second - slot.first`. -/
def tSlot : Int := A.toLong (A.toUint64 (slot.second - slot.first))

def trace : SlotTrace where
  admitted := (x.admitted A slot).map (·.2)
  expired := ((x.expired A slot).map (·.record) : List Nat)
  served := (serve A (tSlot A slot) (x.live A slot)).1

def next : Queues where
  tRecord := x.tRecord.dropWhile (admits A slot)
  edfPQueue := (serve A (tSlot A slot) (x.live A slot)).2

/-- `edfPQueue.empty() && tRecord.empty()`. -/
def isDone : Bool := x.edfPQueue.isEmpty && x.tRecord.isEmpty

end Queues

/-- The loop over the slots, which ends early when both queues are empty. -/
def simulate (A : Arithmetic) : List Slot → Queues → List SlotTrace
  | [], _ => []
  | slot :: schedule, x =>
    x.trace A slot :: if (x.next A slot).isDone then [] else simulate A schedule (x.next A slot)

/-- The same loop without the early end. -/
def simulateAll (A : Arithmetic) : List Slot → Queues → List SlotTrace
  | [], _ => []
  | slot :: schedule, x => x.trace A slot :: simulateAll A schedule (x.next A slot)

/-- The queues before the first slot. -/
def Queues.start (records : List ITaskEntry) : Queues := ⟨records.zipIdx, []⟩

/-- `CalculateMatchCount` for the sorted records. -/
def calculateMatchCount (A : Arithmetic) (records : List ITaskEntry) (schedule : List Slot) :
    Nat :=
  ((simulate A schedule (Queues.start records)).map SlotTrace.mCount).sum

/-- What `CalculateMatchCount` would return without the early end. -/
def matchCountOfAll (A : Arithmetic) (records : List ITaskEntry) (schedule : List Slot) : Nat :=
  ((simulateAll A schedule (Queues.start records)).map SlotTrace.mCount).sum

/-- `NotifyChangeOfSchedule`, for one of the two schedules. -/
def ssSlots (schedule : List RealTimeSchedule) : List Slot :=
  (schedule.filter (·.taskId = 0)).map fun x =>
    ⟨Arithmetic.machine.toUint64 (microseconds x.sTime),
      Arithmetic.machine.toUint64 (microseconds x.eTime)⟩

/-- What `std::sort` may make of the records: it does not keep records of equal arrival in their
order. -/
structure SortedByArrival (records sorted : List ITaskEntry) : Prop where
  perm : sorted.Perm records
  pairwise : sorted.Pairwise (·.arrival ≤ ·.arrival)

/-- `DecideNextScheduleToRun`, with what `rand` returns and what `std::sort` makes of the records.
The result `true` is for the normal schedule. -/
def nextScheduleToRun (rand : Nat) (sorted : List ITaskEntry)
    (normalSSSlot greedySSSlot : List Slot) : Bool :=
  if sorted.isEmpty then rand % 2 == 0
  else
    let successCountNormal := calculateMatchCount .machine sorted normalSSSlot
    let successCountGreedy := calculateMatchCount .machine sorted greedySSSlot
    decide (successCountGreedy ≤ successCountNormal)

namespace Queues

variable {A : Arithmetic} {slot : Slot}

theorem admits_iff {r : ITaskEntry × Nat} :
    admits A slot r = true ↔ A.toUint64 r.1.arrival < slot.second := by
  simp [admits]

theorem isExpired_iff {j : Job} : isExpired slot j = true ↔ j.first ≤ slot.first := by
  simp [isExpired]

theorem isExpired_of_le (a b : Job) (hab : a.Le b) (hb : isExpired slot b = true) :
    isExpired slot a = true := by
  have hfirst := hab.first_le
  rw [isExpired_iff] at *
  omega

end Queues

/-- The queue is kept in order. -/
theorem Queues.pairwise_filled (A : Arithmetic) (slot : Slot) {x : Queues}
    (h : x.edfPQueue.Pairwise Job.Le) : (x.filled A slot).Pairwise Job.Le :=
  SortedQueue.pairwise_pushAll _ _ h

theorem Queues.pairwise_live (A : Arithmetic) (slot : Slot) {x : Queues}
    (h : x.edfPQueue.Pairwise Job.Le) : (x.live A slot).Pairwise Job.Le :=
  (x.pairwise_filled A slot h).sublist (List.dropWhile_sublist _)

theorem pairwise_serve (A : Arithmetic) (tSlot : Int) {q : List Job} (h : q.Pairwise Job.Le) :
    (serve A tSlot q).2.Pairwise Job.Le := by
  induction q generalizing tSlot with
  | nil => exact h
  | cons j q ih =>
    simp only [serve]
    split
    · exact h
    · split
      · exact ih _ h.of_cons
      · exact h.of_cons.orderedInsert _

theorem Queues.pairwise_next (A : Arithmetic) (slot : Slot) {x : Queues}
    (h : x.edfPQueue.Pairwise Job.Le) : (x.next A slot).edfPQueue.Pairwise Job.Le :=
  pairwise_serve A _ (x.pairwise_live A slot h)

/-- Once both queues are empty, nothing more is counted. -/
theorem mCount_eq_zero_of_isDone (A : Arithmetic) {schedule : List Slot} {x : Queues}
    (h : x.isDone = true) : ((simulateAll A schedule x).map SlotTrace.mCount).sum = 0 := by
  obtain ⟨hqueue, hrecord⟩ : x.edfPQueue = [] ∧ x.tRecord = [] := by
    simpa [Queues.isDone] using h
  obtain rfl : x = ⟨[], []⟩ := by
    cases x
    simp_all
  induction schedule with
  | nil => rfl
  | cons slot schedule ih =>
    have htrace : (Queues.trace A slot ⟨[], []⟩).mCount = 0 := rfl
    have hnext : Queues.next A slot ⟨[], []⟩ = ⟨[], []⟩ := rfl
    simp only [simulateAll, List.map_cons, List.sum_cons, htrace, hnext, ih, zero_add]

/-- The early end changes nothing. -/
theorem calculateMatchCount_eq_ofAll (A : Arithmetic) (records : List ITaskEntry)
    (schedule : List Slot) :
    calculateMatchCount A records schedule = matchCountOfAll A records schedule := by
  rw [calculateMatchCount, matchCountOfAll]
  generalize Queues.start records = x
  induction schedule generalizing x with
  | nil => rfl
  | cons slot schedule ih =>
    cases hdone : (x.next A slot).isDone with
    | true => simp [simulate, simulateAll, hdone, mCount_eq_zero_of_isDone A hdone]
    | false => simp [simulate, simulateAll, hdone, ih]

section Provenance

variable (A : Arithmetic) (tSlot : Int) {q : List Job}

theorem record_of_mem_served {piece : Piece} (h : piece ∈ (serve A tSlot q).1) :
    ∃ j ∈ q, j.record = piece.record := by
  induction q generalizing tSlot with
  | nil => simp [serve] at h
  | cons j q ih =>
    simp only [serve] at h
    split at h
    · simp at h
    split at h
    · rcases List.mem_cons.mp h with rfl | h
      · exact ⟨j, List.mem_cons_self, rfl⟩
      · obtain ⟨k, hk, hrecord⟩ := ih _ h
        exact ⟨k, List.mem_cons_of_mem _ hk, hrecord⟩
    · obtain rfl := List.mem_singleton.mp h
      exact ⟨j, List.mem_cons_self, rfl⟩

/-- What is left in the queue was there before, perhaps with more of its burst to go. -/
theorem exists_of_mem_serve {j : Job} (h : j ∈ (serve A tSlot q).2) :
    ∃ k ∈ q, k.first = j.first ∧ k.record = j.record := by
  induction q generalizing tSlot with
  | nil => simp [serve] at h
  | cons k q ih =>
    simp only [serve] at h
    split at h
    · exact ⟨j, h, rfl, rfl⟩
    split at h
    · obtain ⟨k', hk', hsame⟩ := ih _ h
      exact ⟨k', List.mem_cons_of_mem _ hk', hsame⟩
    · rcases (List.mem_orderedInsert _).mp h with rfl | h
      · exact ⟨k, List.mem_cons_self, rfl, rfl⟩
      · exact ⟨j, List.mem_cons_of_mem _ h, rfl, rfl⟩

/-- No time that is served is negative, and none that is still needed. -/
theorem serve_nonneg (hA : ∀ n, 0 ≤ n → 0 ≤ A.toUint64 n) (h : ∀ j ∈ q, 0 ≤ j.second) :
    (∀ piece ∈ (serve A tSlot q).1, 0 ≤ piece.time) ∧
      ∀ j ∈ (serve A tSlot q).2, 0 ≤ j.second := by
  induction q generalizing tSlot with
  | nil => simp [serve]
  | cons j q ih =>
    have hq : ∀ k ∈ q, 0 ≤ k.second := fun k hk => h k (List.mem_cons_of_mem _ hk)
    have hj := h j List.mem_cons_self
    simp only [serve]
    split
    · exact ⟨by simp, h⟩
    split
    · obtain ⟨hserved, hrest⟩ := ih (A.toLong (A.toUint64 (A.toUint64 tSlot - j.second))) hq
      exact ⟨by simpa [hj] using hserved, hrest⟩
    · refine ⟨by simp; omega, fun k hk => ?_⟩
      rcases (List.mem_orderedInsert _).mp hk with rfl | hk
      · exact hA _ (by omega)
      · exact hq k hk

/-- Every entry of the queues belongs to its record, and one of the slots `seen` so far ends after
the record arrives. -/
structure Queues.Tracks (records : List ITaskEntry) (seen : List Slot) (x : Queues) : Prop where
  tRecord : ∀ r ∈ x.tRecord, records[r.2]? = some r.1
  queue : ∀ j ∈ x.edfPQueue, ∃ r, records[j.record]? = some r ∧
    j.first = A.toUint64 r.deadline ∧ ∃ slot ∈ seen, A.toUint64 r.arrival < slot.second

namespace Queues.Tracks

variable {A} {records : List ITaskEntry} {seen : List Slot} {x : Queues}

theorem start (A : Arithmetic) (records : List ITaskEntry) :
    Tracks A records [] (Queues.start records) where
  tRecord := by
    intro r hr
    exact List.mk_mem_zipIdx_iff_getElem?.mp hr
  queue := by simp [Queues.start]

theorem live (h : Tracks A records seen x) (slot : Slot) {j : Job} (hj : j ∈ x.live A slot) :
    ∃ r, records[j.record]? = some r ∧ j.first = A.toUint64 r.deadline ∧
      ∃ s ∈ seen ++ [slot], A.toUint64 r.arrival < s.second := by
  have hfilled : j ∈ x.filled A slot := (List.dropWhile_sublist _).mem hj
  rcases SortedQueue.mem_pushAll.mp hfilled with hnew | hold
  · obtain ⟨r, hr, rfl⟩ := List.mem_map.mp hnew
    have harrival : A.toUint64 r.1.arrival < slot.second :=
      Queues.admits_iff.mp (List.mem_takeWhile_imp hr)
    exact ⟨r.1, h.tRecord r ((List.takeWhile_sublist _).mem hr), rfl, slot, by simp, harrival⟩
  · obtain ⟨r, hrecord, hfirst, s, hs, harrival⟩ := h.queue j hold
    exact ⟨r, hrecord, hfirst, s, List.mem_append_left _ hs, harrival⟩

theorem next (h : Tracks A records seen x) (slot : Slot) :
    Tracks A records (seen ++ [slot]) (x.next A slot) where
  tRecord := fun r hr => h.tRecord r ((List.dropWhile_sublist _).mem hr)
  queue := by
    intro j hj
    obtain ⟨k, hk, hfirst, hrecord⟩ := exists_of_mem_serve A _ hj
    rw [← hfirst, ← hrecord]
    exact h.live slot hk

end Queues.Tracks

end Provenance

/-- No live job has a deadline at or before the beginning of the slot. -/
theorem Queues.lt_first_of_mem_live {A : Arithmetic} {slot : Slot} {x : Queues}
    (h : x.edfPQueue.Pairwise Job.Le) {j : Job} (hj : j ∈ x.live A slot) :
    slot.first < j.first := by
  rw [live, SortedQueue.dropWhile_eq_filter isExpired_of_le (x.pairwise_filled A slot h)] at hj
  simpa [isExpired] using (List.mem_filter.mp hj).2

/-- The time served in a slot goes to jobs whose deadline comes after the beginning of that slot,
and that arrived before the end of it or of an earlier one. -/
theorem Queues.Tracks.window {A : Arithmetic} {records : List ITaskEntry} {seen : List Slot}
    {x : Queues} (h : Tracks A records seen x) (hq : x.edfPQueue.Pairwise Job.Le)
    {schedule : List Slot} {i : Nat} {t : SlotTrace}
    (ht : (simulate A schedule x)[i]? = some t) {piece : Piece} (hpiece : piece ∈ t.served) :
    ∃ slot r, schedule[i]? = some slot ∧ records[piece.record]? = some r ∧
      slot.first < A.toUint64 r.deadline ∧
      ∃ s ∈ seen ++ schedule.take (i + 1), A.toUint64 r.arrival < s.second := by
  induction schedule generalizing x i seen with
  | nil => simp [simulate] at ht
  | cons slot schedule ih =>
    cases i with
    | zero =>
      obtain rfl : x.trace A slot = t := by simpa [simulate] using ht
      obtain ⟨j, hj, hrecord⟩ := record_of_mem_served A _ hpiece
      obtain ⟨r, hr, hfirst, s, hs, harrival⟩ := h.live slot hj
      refine ⟨slot, r, rfl, hrecord ▸ hr, ?_, s, by simpa using hs, harrival⟩
      rw [← hfirst]
      exact Queues.lt_first_of_mem_live hq hj
    | succ i =>
      have hrest : (simulate A schedule (x.next A slot))[i]? = some t := by
        cases hdone : (x.next A slot).isDone <;> simp_all [simulate]
      obtain ⟨slot', r, hslot, hr, hfirst, s, hs, harrival⟩ :=
        ih (h.next slot) (x.pairwise_next A slot hq) hrest
      exact ⟨slot', r, hslot, hr, hfirst, s, by simpa using hs, harrival⟩

/-- A record holds `long`s. -/
structure ITaskEntry.IsLong (r : ITaskEntry) : Prop where
  deadline_le : -2 ^ 63 ≤ r.deadline
  deadline_lt : r.deadline < 2 ^ 63
  burst_le : -2 ^ 63 ≤ r.burst
  burst_lt : r.burst < 2 ^ 63
  arrival_le : -2 ^ 63 ≤ r.arrival
  arrival_lt : r.arrival < 2 ^ 63

instance (r : ITaskEntry) : Decidable r.IsLong :=
  decidable_of_iff (-2 ^ 63 ≤ r.deadline ∧ r.deadline < 2 ^ 63 ∧ -2 ^ 63 ≤ r.burst ∧
      r.burst < 2 ^ 63 ∧ -2 ^ 63 ≤ r.arrival ∧ r.arrival < 2 ^ 63)
    ⟨fun ⟨h₁, h₂, h₃, h₄, h₅, h₆⟩ => ⟨h₁, h₂, h₃, h₄, h₅, h₆⟩,
      fun ⟨h₁, h₂, h₃, h₄, h₅, h₆⟩ => ⟨h₁, h₂, h₃, h₄, h₅, h₆⟩⟩

/-- A slot holds `uint64_t`s. -/
structure Slot.IsUint64 (slot : Slot) : Prop where
  first_nonneg : 0 ≤ slot.first
  first_lt : slot.first < 2 ^ 64
  second_nonneg : 0 ≤ slot.second
  second_lt : slot.second < 2 ^ 64

instance (slot : Slot) : Decidable slot.IsUint64 :=
  decidable_of_iff (0 ≤ slot.first ∧ slot.first < 2 ^ 64 ∧ 0 ≤ slot.second ∧
      slot.second < 2 ^ 64)
    ⟨fun ⟨h₁, h₂, h₃, h₄⟩ => ⟨h₁, h₂, h₃, h₄⟩, fun ⟨h₁, h₂, h₃, h₄⟩ => ⟨h₁, h₂, h₃, h₄⟩⟩

end JamSched.Rib
