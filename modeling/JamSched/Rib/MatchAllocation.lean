import JamSched.Rib.MatchExact
import Mathlib.Tactic.Linarith

/-!
# The allocation behind the match count

The jobs that the decider counts can be given time: every one of them gets its burst in the slots,
no slot gives more than its length, and the time of a job comes from slots that begin before its
deadline and that are not listed before the first slot that ends after its arrival. If the slots
are listed in the order of their ends, this says that the slot itself ends after the arrival.

The shares are read off what the simulation serves. A job that is pushed back into the queue needs
less by what it got, so what a record needs at some time is what it gets from then on, if it is
counted.

## Main definitions

* `Queues.needs`: the time that a record still needs.
* `Queues.Timely`: no record is in the queues twice, and bursts are not negative.
-/
namespace JamSched.Rib

open Arithmetic Finset

section Serve

variable (q : List Job) (tSlot : Int)

/-- Bursts that are not negative are served like over the integers. -/
theorem serve_machine_eq (hlt : tSlot < 2 ^ 63)
    (hq : ∀ j ∈ q, 0 ≤ j.second ∧ j.second < 2 ^ 63) :
    serve machine tSlot q = serve exact tSlot q := by
  induction q generalizing tSlot with
  | nil => rfl
  | cons j q ih =>
    obtain ⟨hburst, hburst'⟩ := hq j List.mem_cons_self
    have hrest : ∀ k ∈ q, 0 ≤ k.second ∧ k.second < 2 ^ 63 := fun k hk =>
      hq k (List.mem_cons_of_mem _ hk)
    by_cases htime : tSlot ≤ 0
    · simp [serve, htime]
    have huint : machine.toUint64 tSlot = tSlot := toUint64_of_nonneg (by omega) (by omega)
    by_cases hfits : j.second ≤ tSlot
    · have hleft : machine.toLong (machine.toUint64 (tSlot - j.second)) = tSlot - j.second :=
        toLong_toUint64 (by omega) (by omega) rfl
      simp [serve, htime, huint, hfits, hleft, ih (tSlot - j.second) (by omega) hrest]
    · have hleft : machine.toUint64 (j.second - tSlot) = j.second - tSlot :=
        toUint64_of_nonneg (by omega) (by omega)
      simp [serve, htime, huint, hfits, hleft]

/-- What a record needs less after a slot is what it got in the slot. -/
theorem serve_needs (i : Nat) :
    sumAt Job.record Job.second q i =
      sumAt Piece.record Piece.time (serve exact tSlot q).1 i +
        sumAt Job.record Job.second (serve exact tSlot q).2 i := by
  induction q generalizing tSlot with
  | nil => rfl
  | cons j q ih =>
    by_cases htime : tSlot ≤ 0
    · simp [serve, htime]
    by_cases hfits : j.second ≤ tSlot
    · simp only [serve, exact_toUint64, exact_toLong, htime, hfits, ↓reduceIte, sumAt_cons]
      rw [ih (tSlot - j.second)]
      split <;> omega
    · simp only [serve, exact_toUint64, htime, hfits, ↓reduceIte,
        sumAt_perm (List.perm_orderedInsert _ _ _), sumAt_cons, sumAt_nil]
      split <;> omega

/-- A job that is counted leaves the queue, the others stay. -/
theorem serve_records :
    ((((serve exact tSlot q).1.filter (·.completed)).map (·.record)) ++
      (serve exact tSlot q).2.map (·.record)).Perm (q.map (·.record)) := by
  induction q generalizing tSlot with
  | nil => exact List.Perm.refl _
  | cons j q ih =>
    by_cases htime : tSlot ≤ 0
    · simp [serve, htime]
    by_cases hfits : j.second ≤ tSlot
    · simpa [serve, htime, hfits] using ih (tSlot - j.second)
    · simpa [serve, htime, hfits] using (List.perm_orderedInsert Job.Le _ q).map Job.record

theorem serve_burst (hq : ∀ j ∈ q, 0 ≤ j.second ∧ j.second < 2 ^ 63) :
    ∀ j ∈ (serve exact tSlot q).2, 0 ≤ j.second ∧ j.second < 2 ^ 63 := by
  induction q generalizing tSlot with
  | nil => exact hq
  | cons j q ih =>
    have hrest : ∀ k ∈ q, 0 ≤ k.second ∧ k.second < 2 ^ 63 := fun k hk =>
      hq k (List.mem_cons_of_mem _ hk)
    by_cases htime : tSlot ≤ 0
    · simpa [serve, htime] using hq
    by_cases hfits : j.second ≤ tSlot
    · simpa [serve, htime, hfits] using ih (tSlot - j.second) hrest
    · intro k hk
      simp only [serve, exact_toUint64, htime, hfits, ↓reduceIte] at hk
      rcases (List.mem_orderedInsert _).mp hk with rfl | hk
      · have := hq j List.mem_cons_self
        simp only
        omega
      · exact hrest k hk

/-- A slot gives no more than its time. -/
theorem serve_within (hq : ∀ j ∈ q, 0 ≤ j.second) :
    ((serve exact tSlot q).1.map (·.time)).sum ≤ max tSlot 0 := by
  induction q generalizing tSlot with
  | nil => simp [serve]
  | cons j q ih =>
    have hburst := hq j List.mem_cons_self
    by_cases htime : tSlot ≤ 0
    · simp [serve, htime]
    by_cases hfits : j.second ≤ tSlot
    · have hrest := ih (tSlot - j.second) fun k hk => hq k (List.mem_cons_of_mem _ hk)
      simp only [serve, exact_toUint64, exact_toLong, htime, hfits, ↓reduceIte, List.map_cons,
        List.sum_cons]
      omega
    · simp [serve, htime, hfits]

end Serve

/-- A slot that does not end before it begins. -/
structure Slot.Proper (slot : Slot) : Prop where
  isUint64 : slot.IsUint64
  first_le : slot.first ≤ slot.second

instance (slot : Slot) : Decidable slot.Proper :=
  decidable_of_iff (slot.IsUint64 ∧ slot.first ≤ slot.second)
    ⟨fun ⟨h₁, h₂⟩ => ⟨h₁, h₂⟩, fun ⟨h₁, h₂⟩ => ⟨h₁, h₂⟩⟩

/-- What is served in a slot takes no more time than the slot has. -/
structure SlotTrace.FitsIn (t : SlotTrace) (slot : Slot) : Prop where
  sum_le : (t.served.map (·.time)).sum ≤ slot.second - slot.first
  nonneg : ∀ piece ∈ t.served, 0 ≤ piece.time

namespace Queues

/-- The records that are not yet counted or dropped. -/
def records (x : Queues) : List Nat := x.edfPQueue.map (·.record) ++ x.tRecord.map (·.2)

/-- The time that a record still needs. -/
def needs (x : Queues) (i : Nat) : Int :=
  sumAt Job.record Job.second x.edfPQueue i + sumAt (·.2) (·.1.burst) x.tRecord i

/-- Every record is in one place, and all bursts are `long`s that are not negative. -/
structure Timely (x : Queues) : Prop where
  nodup : x.records.Nodup
  queue : ∀ j ∈ x.edfPQueue, 0 ≤ j.second ∧ j.second < 2 ^ 63
  burst : ∀ r ∈ x.tRecord, 0 ≤ r.1.burst ∧ r.1.burst < 2 ^ 63

namespace Timely

variable {x : Queues} {slot : Slot}

theorem filled_records (x : Queues) (slot : Slot) :
    ((x.filled machine slot).map (·.record) ++ (x.next machine slot).tRecord.map (·.2)).Perm
      x.records := by
  have hfilled : ((x.filled machine slot).map (·.record)).Perm
      ((x.admitted machine slot).map (·.2) ++ x.edfPQueue.map (·.record)) := by
    have hpush := (SortedQueue.pushAll_perm (r := Job.Le) (entry machine)
      (x.admitted machine slot) x.edfPQueue).map (·.record)
    rwa [List.map_append, List.map_map] at hpush
  have hsplit : x.tRecord.map (·.2) =
      (x.admitted machine slot).map (·.2) ++ (x.next machine slot).tRecord.map (·.2) := by
    rw [← List.map_append, admitted, next, List.takeWhile_append_dropWhile]
  rw [records, hsplit]
  refine (hfilled.append_right _).trans ?_
  rw [← List.append_assoc]
  exact List.perm_append_comm.append_right _

theorem filled_needs (h : x.Timely) (slot : Slot) (i : Nat) :
    x.needs i = sumAt Job.record Job.second (x.filled machine slot) i +
      sumAt (·.2) (·.1.burst) (x.next machine slot).tRecord i := by
  have hentry : sumAt Job.record Job.second ((x.admitted machine slot).map (entry machine)) i =
      sumAt (·.2) (·.1.burst) (x.admitted machine slot) i := by
    rw [sumAt_map]
    refine sumAt_congr (fun r hr => ⟨rfl, ?_⟩) i
    obtain ⟨hle, hlt⟩ := h.burst r ((List.takeWhile_sublist _).mem hr)
    exact toUint64_of_nonneg hle (by omega)
  have hsplit : sumAt (·.2) (·.1.burst) x.tRecord i =
      sumAt (·.2) (·.1.burst) (x.admitted machine slot) i +
        sumAt (·.2) (·.1.burst) (x.next machine slot).tRecord i := by
    rw [← sumAt_append, admitted, next, List.takeWhile_append_dropWhile]
  rw [needs, hsplit, filled, sumAt_perm (SortedQueue.pushAll_perm _ _ _), sumAt_append, hentry]
  omega

theorem live (h : x.Timely) {j : Job} (hj : j ∈ x.live machine slot) :
    0 ≤ j.second ∧ j.second < 2 ^ 63 := by
  rcases SortedQueue.mem_pushAll.mp ((List.dropWhile_sublist _).mem hj) with hnew | hold
  · obtain ⟨r, hr, rfl⟩ := List.mem_map.mp hnew
    obtain ⟨hle, hlt⟩ := h.burst r ((List.takeWhile_sublist _).mem hr)
    simp only [entry, toUint64_of_nonneg hle (show r.1.burst < 2 ^ 64 by omega)]
    exact ⟨hle, hlt⟩
  · exact h.queue j hold

theorem tSlot_le (hslot : slot.Proper) :
    tSlot machine slot < 2 ^ 63 ∧ tSlot machine slot ≤ slot.second - slot.first := by
  have := hslot.first_le
  rcases Converts.tSlot_cases hslot.isUint64 with ⟨_, _, _⟩ | ⟨_, _⟩ | ⟨_, _⟩ <;> omega

theorem serve_eq (h : x.Timely) (hslot : slot.Proper) :
    serve machine (tSlot machine slot) (x.live machine slot) =
      serve exact (tSlot machine slot) (x.live machine slot) :=
  serve_machine_eq _ _ (tSlot_le hslot).1 fun _ hj => h.live hj

/-- The jobs that a slot counts, and the records that stay, are all different ones of before. -/
theorem counted_subperm (h : x.Timely) (hslot : slot.Proper) :
    ((x.trace machine slot).counted ++ (x.next machine slot).records).Subperm x.records := by
  have hlive : ((x.live machine slot).map (·.record)).Sublist
      ((x.filled machine slot).map (·.record)) := (List.dropWhile_sublist _).map _
  have hserve := serve_records (x.live machine slot) (tSlot machine slot)
  rw [← h.serve_eq hslot] at hserve
  rw [records, ← List.append_assoc]
  exact (hserve.append_right _).subperm.trans
    ((hlive.append_right _).subperm.trans (filled_records x slot).subperm)

theorem next (h : x.Timely) (hslot : slot.Proper) : (x.next machine slot).Timely where
  nodup := by
    obtain ⟨l, hperm, hsub⟩ := h.counted_subperm hslot
    exact (hperm.nodup_iff.mp (hsub.nodup h.nodup)).of_append_right
  queue := by
    have hrest : (x.next machine slot).edfPQueue =
        (serve exact (tSlot machine slot) (x.live machine slot)).2 := by
      rw [← h.serve_eq hslot]
      rfl
    rw [hrest]
    exact serve_burst _ _ fun j hj => h.live hj
  burst := fun r hr => h.burst r ((List.dropWhile_sublist _).mem hr)

/-- A record that is counted in a slot or stays needs less by what it gets in the slot. -/
theorem needs_eq (h : x.Timely) (hslot : slot.Proper) {i : Nat}
    (hi : i ∈ (x.trace machine slot).counted ++ (x.next machine slot).records) :
    x.needs i = (x.trace machine slot).time i + (x.next machine slot).needs i := by
  have hserve := serve_needs (x.live machine slot) (tSlot machine slot) i
  have hrecords := serve_records (x.live machine slot) (tSlot machine slot)
  rw [← h.serve_eq hslot] at hserve hrecords
  have hnodup := (filled_records x slot).nodup_iff.mpr h.nodup
  have hlive : sumAt Job.record Job.second (x.live machine slot) i =
      sumAt Job.record Job.second (x.filled machine slot) i := by
    have hsub : (x.live machine slot).Sublist (x.filled machine slot) := List.dropWhile_sublist _
    rw [records, ← List.append_assoc, List.mem_append] at hi
    rcases hi with hserved | hleft
    · exact sumAt_sublist hsub hnodup.of_append_left (hrecords.mem_iff.mp hserved)
    · have hnone : i ∉ (x.filled machine slot).map (·.record) := fun hmem =>
        (List.nodup_append.mp hnodup).2.2 i hmem i hleft rfl
      rw [sumAt_eq_zero hnone, sumAt_eq_zero fun hmem => hnone ((hsub.map _).mem hmem)]
  rw [h.filled_needs slot, ← hlive, hserve, needs, add_assoc]
  rfl

theorem time_eq_zero {i : Nat} (hi : i ∉ x.records) : (x.trace machine slot).time i = 0 := by
  refine sumAt_eq_zero fun hmem => hi ?_
  obtain ⟨piece, hpiece, rfl⟩ := List.mem_map.mp hmem
  obtain ⟨j, hj, hrecord⟩ := record_of_mem_served machine _ hpiece
  refine (filled_records x slot).mem_iff.mp (List.mem_append_left _ ?_)
  rw [← hrecord]
  exact List.mem_map_of_mem ((List.dropWhile_sublist _).mem hj)

theorem fitsIn (h : x.Timely) (hslot : slot.Proper) : (x.trace machine slot).FitsIn slot := by
  have := hslot.first_le
  have := (tSlot_le hslot).2
  have hsum := serve_within (x.live machine slot) (tSlot machine slot)
    fun j hj => (h.live hj).1
  rw [← h.serve_eq hslot] at hsum
  refine ⟨?_, (serve_nonneg machine _ (fun n _ => toUint64_nonneg n)
    fun j hj => (h.live hj).1).1⟩
  simp only [trace]
  omega

/-- All slots together: no job is counted twice, a counted job gets what it needs, and no time goes
to a job that is not in the queues. -/
theorem counted_simulate {schedule : List Slot} (h : x.Timely)
    (hslots : ∀ slot ∈ schedule, slot.Proper) :
    ((simulate machine schedule x).flatMap SlotTrace.counted).Subperm x.records ∧
      (∀ i ∈ (simulate machine schedule x).flatMap SlotTrace.counted,
        ((simulate machine schedule x).map (·.time i)).sum = x.needs i) ∧
      ∀ i ∉ x.records, ((simulate machine schedule x).map (·.time i)).sum = 0 := by
  induction schedule generalizing x with
  | nil => simp [simulate]
  | cons slot schedule ih =>
    have hslot := hslots slot List.mem_cons_self
    have hsub := h.counted_subperm hslot
    -- the rest of the slots, also if they are cut off
    obtain ⟨rest, hrest, hcounted, hneeds, hnone⟩ : ∃ rest,
        simulate machine (slot :: schedule) x = x.trace machine slot :: rest ∧
        (rest.flatMap SlotTrace.counted).Subperm (x.next machine slot).records ∧
        (∀ i ∈ rest.flatMap SlotTrace.counted,
          (rest.map (·.time i)).sum = (x.next machine slot).needs i) ∧
        ∀ i ∉ (x.next machine slot).records, (rest.map (·.time i)).sum = 0 := by
      cases hdone : (x.next machine slot).isDone with
      | true => exact ⟨[], by simp [simulate, hdone], by simp⟩
      | false =>
        exact ⟨_, by simp [simulate, hdone],
          ih (h.next hslot) fun s hs => hslots s (List.mem_cons_of_mem _ hs)⟩
    have hnodup : ((x.trace machine slot).counted ++ (x.next machine slot).records).Nodup := by
      obtain ⟨l, hperm, hl⟩ := hsub
      exact hperm.nodup_iff.mp (hl.nodup h.nodup)
    rw [hrest, List.flatMap_cons]
    refine ⟨((List.subperm_append_left _).mpr hcounted).trans hsub, ?_, ?_⟩
    · intro i hi
      rw [List.map_cons, List.sum_cons]
      rcases List.mem_append.mp hi with hnow | hlater
      · have hgone : i ∉ (x.next machine slot).records := fun hmem =>
          (List.nodup_append.mp hnodup).2.2 i hnow i hmem rfl
        have hneeds₀ : (x.next machine slot).needs i = 0 := by
          rw [records, List.mem_append, not_or] at hgone
          rw [needs, sumAt_eq_zero hgone.1, sumAt_eq_zero hgone.2, add_zero]
        rw [hnone i hgone, h.needs_eq hslot (List.mem_append_left _ hnow), hneeds₀]
      · rw [hneeds i hlater, h.needs_eq hslot (List.mem_append_right _ (hcounted.subset hlater))]
    · intro i hi
      have hi' : i ∉ (x.next machine slot).records := fun hmem =>
        hi (hsub.subset (List.mem_append_right _ hmem))
      rw [List.map_cons, List.sum_cons, time_eq_zero hi, hnone i hi', add_zero]

theorem exists_fitsIn {schedule : List Slot} (h : x.Timely)
    (hslots : ∀ slot ∈ schedule, slot.Proper) {k : Nat} {t : SlotTrace}
    (ht : (simulate machine schedule x)[k]? = some t) :
    ∃ s, schedule[k]? = some s ∧ t.FitsIn s := by
  induction schedule generalizing x k with
  | nil => simp [simulate] at ht
  | cons slot schedule ih =>
    have hslot := hslots slot List.mem_cons_self
    cases k with
    | zero =>
      obtain rfl : x.trace machine slot = t := by simpa [simulate] using ht
      exact ⟨slot, rfl, h.fitsIn hslot⟩
    | succ k =>
      have hrest : (simulate machine schedule (x.next machine slot))[k]? = some t := by
        cases hdone : (x.next machine slot).isDone <;> simp_all [simulate]
      exact ih (h.next hslot) (fun s hs => hslots s (List.mem_cons_of_mem _ hs)) hrest

end Timely

end Queues

/-- A record of `long`s that are not negative. -/
structure ITaskEntry.Nonneg (r : ITaskEntry) : Prop where
  isLong : r.IsLong
  deadline : 0 ≤ r.deadline
  burst : 0 ≤ r.burst
  arrival : 0 ≤ r.arrival

instance (r : ITaskEntry) : Decidable r.Nonneg :=
  decidable_of_iff (r.IsLong ∧ 0 ≤ r.deadline ∧ 0 ≤ r.burst ∧ 0 ≤ r.arrival)
    ⟨fun ⟨h₁, h₂, h₃, h₄⟩ => ⟨h₁, h₂, h₃, h₄⟩, fun ⟨h₁, h₂, h₃, h₄⟩ => ⟨h₁, h₂, h₃, h₄⟩⟩

theorem timely_start {records : List ITaskEntry} (h : ∀ r ∈ records, r.Nonneg) :
    (Queues.start records).Timely where
  nodup := by simp [Queues.records, Queues.start, List.nodup_range']
  queue := by simp [Queues.start]
  burst := by
    intro r hr
    have hnonneg := h r.1 (List.fst_mem_of_mem_zipIdx hr)
    exact ⟨hnonneg.burst, hnonneg.isLong.burst_lt⟩

theorem length_simulate_le (A : Arithmetic) (schedule : List Slot) (x : Queues) :
    (simulate A schedule x).length ≤ schedule.length := by
  induction schedule generalizing x with
  | nil => simp [simulate]
  | cons slot schedule ih =>
    cases hdone : (x.next A slot).isDone <;> simp [simulate, hdone, ih]

/-- The slot at position `k` begins before the deadline of the record at position `i`, and it is
not listed before every slot that ends after the arrival. -/
def Within (records : List ITaskEntry) (schedule : List Slot) (k i : Nat) : Prop :=
  ∀ slot r, schedule[k]? = some slot → records[i]? = some r →
    slot.first < r.deadline ∧ ∃ s ∈ schedule.take (k + 1), r.arrival < s.second

/-- The slot at position `k` begins before the deadline of the record at position `i` and ends
after its arrival. -/
def InWindow (records : List ITaskEntry) (schedule : List Slot) (k i : Nat) : Prop :=
  ∀ slot r, schedule[k]? = some slot → records[i]? = some r →
    slot.first < r.deadline ∧ r.arrival < slot.second

/-- In slots that are listed in the order of their ends the two are the same. -/
theorem Within.inWindow {records : List ITaskEntry} {schedule : List Slot}
    (hends : schedule.Pairwise (·.second ≤ ·.second)) {k i : Nat}
    (h : Within records schedule k i) : InWindow records schedule k i := by
  intro slot r hslot hr
  obtain ⟨hfirst, s, hs, harrival⟩ := h slot r hslot hr
  refine ⟨hfirst, harrival.trans_le ?_⟩
  obtain ⟨j, hj, rfl⟩ := List.mem_take_iff_getElem.mp hs
  obtain ⟨hk, rfl⟩ := List.getElem?_eq_some_iff.mp hslot
  rcases Nat.lt_or_ge j k with hlt | hge
  · exact List.pairwise_iff_getElem.mp hends j k (by omega) hk hlt
  · obtain rfl : j = k := by omega
    exact le_refl _

/-- The time that the record at position `i` gets in the slot at position `k`. -/
def share (traces : List SlotTrace) (k i : Nat) : Int := (traces[k]?).elim 0 (·.time i)

/-- The lengths of the slots. -/
def slotLength (schedule : List Slot) (k : Nat) : Int :=
  (schedule[k]?).elim 0 fun slot => slot.second - slot.first

/-- The bursts of the records. -/
def burstOf (records : List ITaskEntry) (i : Nat) : Int := (records[i]?).elim 0 (·.burst)

theorem needs_start (records : List ITaskEntry) (i : Nat) :
    (Queues.start records).needs i = burstOf records i := by
  have hzip := sumAt_zipIdx ITaskEntry.burst records 0 i
  rw [Nat.zero_add] at hzip
  rw [Queues.needs, Queues.start, hzip, sumAt_nil, zero_add, burstOf]

section Shares

variable {records : List ITaskEntry} {schedule : List Slot} {k i : Nat}

theorem share_within (hrecords : ∀ r ∈ records, r.Nonneg)
    (hslots : ∀ slot ∈ schedule, slot.Proper) (k : Nat) (jobs : Finset Nat) :
    (∀ i, 0 ≤ share (simulate machine schedule (Queues.start records)) k i) ∧
      ∑ i ∈ jobs, share (simulate machine schedule (Queues.start records)) k i ≤
        slotLength schedule k := by
  simp only [share]
  cases ht : (simulate machine schedule (Queues.start records))[k]? with
  | none =>
    refine ⟨fun i => le_refl 0, ?_⟩
    simp only [Option.elim_none, sum_const_zero, slotLength]
    cases hslot : schedule[k]? with
    | none => exact le_refl 0
    | some slot =>
      have := (hslots slot (List.mem_of_getElem? hslot)).first_le
      simp only [Option.elim_some]
      omega
  | some t =>
    obtain ⟨slot, hslot, hsum, hnonneg⟩ := (timely_start hrecords).exists_fitsIn hslots ht
    simp only [Option.elim_some, slotLength, hslot]
    exact ⟨sumAt_nonneg hnonneg, (sum_sumAt_le hnonneg jobs).trans hsum⟩

/-- A record gets time only where it is allowed to. -/
theorem within_of_piece (hrecords : ∀ r ∈ records, r.Nonneg) {t : SlotTrace}
    (ht : (simulate machine schedule (Queues.start records))[k]? = some t) {piece : Piece}
    (hpiece : piece ∈ t.served) : Within records schedule k piece.record := by
  intro slot r hslot hr
  obtain ⟨slot', r', hslot', hr', hfirst, s, hs, harrival⟩ :=
    (Queues.Tracks.start machine records).window List.Pairwise.nil ht hpiece
  obtain rfl : slot = slot' := Option.some.inj (hslot.symm.trans hslot')
  obtain rfl : r = r' := Option.some.inj (hr.symm.trans hr')
  obtain ⟨hlong, hdeadline, -, hnonneg⟩ := hrecords r (List.mem_of_getElem? hr)
  rw [toUint64_of_nonneg hdeadline (by have := hlong.deadline_lt; omega)] at hfirst
  rw [toUint64_of_nonneg hnonneg (by have := hlong.arrival_lt; omega)] at harrival
  exact ⟨hfirst, s, by simpa using hs, harrival⟩

theorem share_window (hrecords : ∀ r ∈ records, r.Nonneg)
    (hpos : 0 < share (simulate machine schedule (Queues.start records)) k i) :
    Within records schedule k i := by
  simp only [share] at hpos
  cases ht : (simulate machine schedule (Queues.start records))[k]? with
  | none => simp [ht] at hpos
  | some t =>
    simp only [ht, Option.elim_some] at hpos
    have hmem : i ∈ t.served.map (·.record) := by
      by_contra hnone
      have hzero : t.time i = 0 := sumAt_eq_zero hnone
      omega
    obtain ⟨piece, hpiece, rfl⟩ := List.mem_map.mp hmem
    exact within_of_piece hrecords ht hpiece

theorem isAllocation_share (hrecords : ∀ r ∈ records, r.Nonneg)
    (hslots : ∀ slot ∈ schedule, slot.Proper) :
    IsAllocation (range schedule.length)
      ((simulate machine schedule (Queues.start records)).flatMap SlotTrace.counted).toFinset
      (slotLength schedule) (burstOf records) (Within records schedule)
      (share (simulate machine schedule (Queues.start records))) where
  nonneg := fun k _ i _ => (share_within hrecords hslots k ∅).1 i
  full := by
    intro i hi
    obtain ⟨-, hneeds, -⟩ := (timely_start hrecords).counted_simulate hslots
    rw [← needs_start, ← hneeds i (List.mem_toFinset.mp hi)]
    exact (sum_map_eq_sum_range _ _ (length_simulate_le machine schedule _)).symm
  within := fun k _ => (share_within hrecords hslots k _).2
  window := fun _ _ _ _ hpos => share_window hrecords hpos

/-- Every job is counted once. -/
theorem card_counted (hrecords : ∀ r ∈ records, r.Nonneg)
    (hslots : ∀ slot ∈ schedule, slot.Proper) :
    ((simulate machine schedule (Queues.start records)).flatMap
      SlotTrace.counted).toFinset.card = calculateMatchCount machine records schedule := by
  have hstart := timely_start hrecords
  obtain ⟨l, hperm, hsub⟩ := (hstart.counted_simulate hslots).1
  have hlength : ∀ t : SlotTrace, t.counted.length = t.mCount := by
    intro t
    rw [SlotTrace.counted, List.length_map, SlotTrace.mCount, List.countP_eq_length_filter]
  rw [List.toFinset_card_of_nodup (hperm.nodup_iff.mp (hsub.nodup hstart.nodup)),
    List.length_flatMap, calculateMatchCount]
  simp only [hlength]

theorem counted_subset (hrecords : ∀ r ∈ records, r.Nonneg)
    (hslots : ∀ slot ∈ schedule, slot.Proper) :
    ((simulate machine schedule (Queues.start records)).flatMap SlotTrace.counted).toFinset ⊆
      range records.length := by
  intro i hi
  have hmem := ((timely_start hrecords).counted_simulate hslots).1.subset
    (List.mem_toFinset.mp hi)
  simpa [Queues.records, Queues.start, List.mem_range'_1] using hmem

end Shares

/-- If `CalculateMatchCount` returns `m`, with or without its early end, then there are `m` records
that can be given exactly their bursts within the lengths of the slots, each only in slots that
begin before its deadline and are not listed before every slot that ends after its arrival; so
only in slots that end after its arrival, if the slots are listed in the order of their ends. -/
theorem exists_allocation {records : List ITaskEntry} (hrecords : ∀ r ∈ records, r.Nonneg)
    {schedule : List Slot} (hslots : ∀ slot ∈ schedule, slot.Proper) :
    calculateMatchCount machine records schedule =
        matchCountOfAll machine records schedule ∧
    ∃ (jobs : Finset Nat) (shares : Nat → Nat → Int),
      jobs ⊆ range records.length ∧
      jobs.card = calculateMatchCount machine records schedule ∧
      IsAllocation (range schedule.length) jobs (slotLength schedule) (burstOf records)
        (Within records schedule) shares ∧
      (schedule.Pairwise (·.second ≤ ·.second) →
        IsAllocation (range schedule.length) jobs (slotLength schedule) (burstOf records)
          (InWindow records schedule) shares) := by
  refine ⟨calculateMatchCount_eq_ofAll machine records schedule, ?_⟩
  refine ⟨_, _, counted_subset hrecords hslots, card_counted hrecords hslots,
    isAllocation_share hrecords hslots, fun hends => ?_⟩
  exact (isAllocation_share hrecords hslots).mono fun _ _ _ _ h => h.inWindow hends

/-- Two jobs that are split over two slots. -/
theorem exists_allocation_twoSlots :
    ∃ (jobs : Finset Nat) (shares : Nat → Nat → Int), jobs.card = 2 ∧
      IsAllocation (range 2) jobs (slotLength [⟨0, 10⟩, ⟨20, 25⟩])
        (burstOf [⟨40, 8, 3⟩, ⟨30, 6, 4⟩])
        (InWindow [⟨40, 8, 3⟩, ⟨30, 6, 4⟩] [⟨0, 10⟩, ⟨20, 25⟩]) shares := by
  obtain ⟨-, jobs, shares, -, hcard, -, hends⟩ := @exists_allocation
    [⟨40, 8, 3⟩, ⟨30, 6, 4⟩] (by decide) [⟨0, 10⟩, ⟨20, 25⟩] (by decide)
  exact ⟨jobs, shares, hcard.trans (by decide), hends (by decide)⟩

/-- A slot that is listed later but ends before the job arrives is counted on all the same. -/
theorem no_allocation_unorderedSlots :
    calculateMatchCount machine [⟨1000, 105, 50⟩] [⟨0, 100⟩, ⟨0, 10⟩] = 1 ∧
    ¬ ∃ (jobs : Finset Nat) (shares : Nat → Nat → Int),
      jobs ⊆ range 1 ∧ jobs.card = 1 ∧
      IsAllocation (range 2) jobs (slotLength [⟨0, 100⟩, ⟨0, 10⟩]) (burstOf [⟨1000, 105, 50⟩])
        (InWindow [⟨1000, 105, 50⟩] [⟨0, 100⟩, ⟨0, 10⟩]) shares := by
  classical
  refine ⟨by decide, ?_⟩
  rintro ⟨jobs, shares, hsub, hcard, halloc⟩
  obtain rfl : jobs = range 1 := Finset.eq_of_subset_of_card_le hsub (by simp [hcard])
  have hdemand := halloc.demand_le (j := 0) (by simp)
  have hnot : ¬ InWindow [⟨1000, 105, 50⟩] [⟨0, 100⟩, ⟨0, 10⟩] 1 0 := by
    intro h
    exact absurd (h ⟨0, 10⟩ ⟨1000, 105, 50⟩ rfl rfl).2 (by decide)
  have hburst : burstOf [⟨1000, 105, 50⟩] 0 = 105 := rfl
  have hlength : slotLength [⟨0, 100⟩, ⟨0, 10⟩] 0 = 100 := rfl
  rw [Finset.sum_filter, Finset.sum_range_succ, Finset.sum_range_one, if_neg hnot, hburst,
    hlength] at hdemand
  split at hdemand <;> omega

end JamSched.Rib
