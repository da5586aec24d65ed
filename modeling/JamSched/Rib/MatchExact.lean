import JamSched.Rib.MatchCount

/-!
# The match count over the integers

Records hold `long`s, the queue and the slots hold `uint64_t`s. The conversions are harmless for
a number that is not negative and fits in a `long`. A negative arrival or deadline turns into a
time of the far future, a negative burst into one that is never done, and a slot longer than any
`long` into one without time. The simulation of the code is the one over the integers exactly when
none of this happens to a job that matters.

## Main definitions

* `Queues.Faithful`: what a slot asks of the integer simulation, and `Faithful` for all slots.
* `Converts`: the states of the two simulations as long as they agree.
-/
namespace JamSched.Rib

open Arithmetic

namespace Arithmetic

@[simp] theorem exact_toUint64 (n : Int) : exact.toUint64 n = n := rfl

@[simp] theorem exact_toLong (n : Int) : exact.toLong n = n := rfl

theorem toUint64_of_nonneg {n : Int} (hle : 0 ≤ n) (hlt : n < 2 ^ 64) :
    machine.toUint64 n = n := by
  simp only [machine]
  omega

theorem toUint64_of_neg {n : Int} (hle : -2 ^ 64 ≤ n) (hlt : n < 0) :
    machine.toUint64 n = n + 2 ^ 64 := by
  simp only [machine]
  omega

theorem toUint64_nonneg (n : Int) : 0 ≤ machine.toUint64 n := by
  simp only [machine]
  omega

/-- A number goes to the `long` that differs from it by a multiple of `2 ^ 64`. -/
theorem toLong_toUint64 {n m : Int} (hle : -2 ^ 63 ≤ m) (hlt : m < 2 ^ 63)
    (h : n % 2 ^ 64 = m % 2 ^ 64) : machine.toLong (machine.toUint64 n) = m := by
  have hm : m.bmod (2 ^ 64) = m := Int.bmod_eq_of_le (by simpa using hle) (by simpa using hlt)
  have hcast : ((2 ^ 64 : Nat) : Int) = 2 ^ 64 := rfl
  simp only [machine, h]
  rw [← hcast, Int.emod_bmod, hm]

end Arithmetic

/-- The slot asks nothing of the conversions that they do not do. -/
structure Queues.Faithful (x : Queues) (slot : Slot) : Prop where
  /-- No job that arrives before the cycle is still to be admitted. -/
  arrival : ∀ r ∈ x.admitted exact slot, 0 ≤ r.1.arrival ∨ 2 ^ 64 + r.1.arrival < slot.second
  /-- No job is admitted whose deadline is before the cycle. -/
  deadline : ∀ r ∈ x.admitted exact slot, 0 ≤ r.1.deadline ∨ 2 ^ 64 + r.1.deadline ≤ slot.first
  /-- If there is a live job, then the length of the slot is a `long`. -/
  length : x.live exact slot ≠ [] →
    -2 ^ 63 ≤ slot.second - slot.first ∧ slot.second - slot.first < 2 ^ 63
  /-- No job with a negative burst gets its turn. -/
  burst : ∀ piece ∈ (x.trace exact slot).served, 0 ≤ piece.time

/-- Every slot of the integer simulation asks nothing of the conversions that they do not do. -/
def Faithful : List Slot → Queues → Prop
  | [], _ => True
  | slot :: schedule, x =>
    x.Faithful slot ∧ ((x.next exact slot).isDone = false → Faithful schedule (x.next exact slot))

/-- An entry of the queue as the code holds it. -/
def Job.converted (j : Job) : Job :=
  { j with first := machine.toUint64 j.first, second := machine.toUint64 j.second }

/-- An entry whose deadline went through the conversion unchanged. -/
structure Job.Bounded (j : Job) : Prop where
  first_nonneg : 0 ≤ j.first
  first_lt : j.first < 2 ^ 63
  second_le : -2 ^ 63 ≤ j.second
  second_lt : j.second < 2 ^ 63

theorem Job.Bounded.converted_first {j : Job} (h : j.Bounded) :
    j.converted.first = j.first :=
  toUint64_of_nonneg h.first_nonneg (by have := h.first_lt; omega)

theorem Job.Bounded.converted_eq {j : Job} (h : j.Bounded) (hburst : 0 ≤ j.second) :
    j.converted = j := by
  have hsecond : machine.toUint64 j.second = j.second :=
    toUint64_of_nonneg hburst (by have := h.second_lt; omega)
  have hfirst : machine.toUint64 j.first = j.first := h.converted_first
  simp only [Job.converted, hfirst, hsecond]

/-- A job with a burst that is not negative comes before the same entries in both simulations. -/
theorem Job.Bounded.le_converted {j k : Job} (hk : k.Bounded) (hburst : 0 ≤ j.second)
    (h : j.Le k) : j.Le k.converted := by
  have hfirst := hk.converted_first
  have hsecond : j.second ≤ k.second → machine.toUint64 k.second = k.second := fun hle =>
    toUint64_of_nonneg (by omega) (by have := hk.second_lt; omega)
  simp only [Job.Le, Job.converted] at *
  omega

section Serve

variable {q q' : List Job} {j : Job}

theorem serve_eq_nil_iff (A : Arithmetic) (tSlot : Int) (q : List Job) :
    (serve A tSlot q).1 = [] ↔ q = [] ∨ tSlot ≤ 0 := by
  cases q with
  | nil => simp [serve]
  | cons j q =>
    by_cases htime : tSlot ≤ 0
    · simp [serve, htime]
    by_cases hfits : j.second ≤ A.toUint64 tSlot <;> simp [serve, htime, hfits]

/-- Over the bounded numbers of the code no time that is served is negative. -/
theorem head_time_nonneg {tSlot : Int} {piece : Piece} {pieces : List Piece}
    (hq : ∀ j ∈ q, 0 ≤ j.second) (h : (serve machine tSlot q).1 = piece :: pieces) :
    0 ≤ piece.time := by
  cases q with
  | nil => simp [serve] at h
  | cons j q =>
    simp only [serve] at h
    split at h
    · simp at h
    split at h
    · obtain ⟨rfl, -⟩ := List.cons.inj h
      exact hq j List.mem_cons_self
    · obtain ⟨rfl, -⟩ := List.cons.inj h
      show 0 ≤ tSlot
      omega

/-- The first entry of the queue of the code is the first entry over the integers, unless that
one has a negative burst. -/
theorem exists_cons_of_perm (hj : j.Bounded) (hq : ∀ k ∈ q, k.Bounded)
    (hsorted : (j :: q).Pairwise Job.Le) (hsorted' : q'.Pairwise Job.Le)
    (h : q'.Perm ((j :: q).map Job.converted)) (hburst : 0 ≤ j.second) :
    ∃ rest, q' = j :: rest ∧ rest.Perm (q.map Job.converted) := by
  have hself := hj.converted_eq hburst
  rw [List.map_cons, hself] at h
  cases q' with
  | nil => exact absurd h.symm.eq_nil (List.cons_ne_nil _ _)
  | cons k rest =>
    have hkj : k.Le j := by
      rcases List.mem_cons.mp (h.mem_iff.mpr List.mem_cons_self) with rfl | hmem
      · exact (Std.Total.total j j).elim id id
      · exact (List.pairwise_cons.mp hsorted').1 j hmem
    have hjk : j.Le k := by
      rcases List.mem_cons.mp (h.mem_iff.mp List.mem_cons_self) with rfl | hmem
      · exact hkj
      · obtain ⟨k', hk', rfl⟩ := List.mem_map.mp hmem
        exact (hq k' hk').le_converted hburst ((List.pairwise_cons.mp hsorted).1 k' hk')
    obtain rfl : k = j := Std.Antisymm.antisymm k j hkj hjk
    exact ⟨rest, rfl, h.cons_inv⟩

/-- With a time that is a `long`, the two simulations serve the same exactly when over the
integers no served time is negative, and then they leave the same queues. -/
theorem serve_machine_iff (tSlot : Int) (hle : -2 ^ 63 ≤ tSlot) (hlt : tSlot < 2 ^ 63)
    (hq : ∀ j ∈ q, j.Bounded) (hsorted : q.Pairwise Job.Le) (hsorted' : q'.Pairwise Job.Le)
    (h : q'.Perm (q.map Job.converted)) :
    ((serve machine tSlot q').1 = (serve exact tSlot q).1 ↔
        ∀ piece ∈ (serve exact tSlot q).1, 0 ≤ piece.time) ∧
      ((∀ piece ∈ (serve exact tSlot q).1, 0 ≤ piece.time) →
        (serve machine tSlot q').2.Perm ((serve exact tSlot q).2.map Job.converted)) := by
  induction q generalizing q' tSlot with
  | nil =>
    obtain rfl : q' = [] := h.eq_nil
    simp [serve]
  | cons j q ih =>
    have hj := hq j List.mem_cons_self
    have hq₀ : ∀ k ∈ q, k.Bounded := fun k hk => hq k (List.mem_cons_of_mem _ hk)
    by_cases htime : tSlot ≤ 0
    · obtain ⟨k, rest, rfl⟩ : ∃ k rest, q' = k :: rest := by
        cases q' with
        | nil => exact absurd h.symm.eq_nil (List.cons_ne_nil _ _)
        | cons k rest => exact ⟨k, rest, rfl⟩
      simpa [serve, htime] using h
    have huint : machine.toUint64 tSlot = tSlot := toUint64_of_nonneg (by omega) (by omega)
    rcases lt_or_ge j.second 0 with hburst | hburst
    · -- over the integers the job is done, and gives time back
      have hserved : (serve exact tSlot (j :: q)).1 =
          ⟨j.record, j.second, true⟩ :: (serve exact (tSlot - j.second) q).1 := by
        have hfits : j.second ≤ tSlot := by omega
        simp [serve, htime, hfits]
      have hnot : ¬ ∀ piece ∈ (serve exact tSlot (j :: q)).1, 0 ≤ piece.time := by
        rw [hserved]
        intro hall
        have := hall _ List.mem_cons_self
        simp only at this
        omega
      refine ⟨iff_of_false ?_ hnot, fun hall => absurd hall hnot⟩
      rw [hserved]
      intro heq
      have hnonneg : ∀ k ∈ q', 0 ≤ k.second := by
        intro k hk
        obtain ⟨k', -, rfl⟩ := List.mem_map.mp (h.mem_iff.mp hk)
        exact toUint64_nonneg _
      have := head_time_nonneg hnonneg heq
      simp only at this
      omega
    · obtain ⟨rest, rfl, hrest⟩ := exists_cons_of_perm hj hq₀ hsorted hsorted' h hburst
      by_cases hfits : j.second ≤ tSlot
      · have hleft : machine.toLong (machine.toUint64 (tSlot - j.second)) = tSlot - j.second :=
          toLong_toUint64 (by omega) (by omega) rfl
        obtain ⟨hserve, hqueue⟩ := ih (tSlot - j.second) (by omega) (by omega) hq₀
          hsorted.of_cons hsorted'.of_cons hrest
        simp only [serve, exact_toUint64, exact_toLong, htime, huint, hfits, hleft, ↓reduceIte,
          List.cons.injEq, true_and, List.mem_cons, forall_eq_or_imp, hburst]
        exact ⟨hserve, hqueue⟩
      · have hleft : machine.toUint64 (j.second - tSlot) = j.second - tSlot :=
          toUint64_of_nonneg (by omega) (by have := hj.second_lt; omega)
        have hself : ({ j with second := j.second - tSlot } : Job).converted =
            { j with second := j.second - tSlot } :=
          Job.Bounded.converted_eq ⟨hj.first_nonneg, hj.first_lt, by simp only; omega,
            by have := hj.second_lt; simp only; omega⟩ (by simp only; omega)
        have hpos : 0 ≤ tSlot := by omega
        simp only [serve, exact_toUint64, htime, huint, hfits, hleft, ↓reduceIte,
          List.mem_singleton, forall_eq, hpos, forall_const, true_and]
        refine (List.perm_orderedInsert _ _ _).trans (.trans ?_
          ((List.perm_orderedInsert _ _ _).map _).symm)
        rw [List.map_cons, hself]
        exact hrest.cons _

theorem bounded_serve (tSlot : Int) (hq : ∀ k ∈ q, k.Bounded) :
    ∀ k ∈ (serve exact tSlot q).2, k.Bounded := by
  induction q generalizing tSlot with
  | nil => exact hq
  | cons j q ih =>
    have hq₀ : ∀ k ∈ q, k.Bounded := fun k hk => hq k (List.mem_cons_of_mem _ hk)
    by_cases htime : tSlot ≤ 0
    · simpa [serve, htime] using hq
    by_cases hfits : j.second ≤ tSlot
    · simpa [serve, htime, hfits] using ih (tSlot - j.second) hq₀
    · intro k hk
      simp only [serve, exact_toUint64, htime, hfits, ↓reduceIte] at hk
      rcases (List.mem_orderedInsert _).mp hk with rfl | hk
      · obtain ⟨hfirst, hfirst', _, _⟩ := hq j List.mem_cons_self
        exact ⟨hfirst, hfirst', by simp only; omega, by simp only; omega⟩
      · exact hq₀ k hk

end Serve

/-- The states of the two simulations, as long as they agree: `x` over the integers, `y` in the
code. -/
structure Converts (x y : Queues) : Prop where
  tRecord : y.tRecord = x.tRecord
  queue : y.edfPQueue.Perm (x.edfPQueue.map Job.converted)
  bounded : ∀ j ∈ x.edfPQueue, j.Bounded
  long : ∀ r ∈ x.tRecord, r.1.IsLong
  sorted : x.edfPQueue.Pairwise Job.Le
  sorted' : y.edfPQueue.Pairwise Job.Le

namespace Converts

variable {x y : Queues} {slot : Slot}

theorem isDone (h : Converts x y) : y.isDone = x.isDone := by
  have hqueue : y.edfPQueue.isEmpty = x.edfPQueue.isEmpty := by simpa using h.queue.isEmpty_eq
  rw [Queues.isDone, Queues.isDone, hqueue, h.tRecord]

/-- What the code admits, the integers admit. -/
theorem admits_exact (hslot : slot.IsUint64) {r : ITaskEntry × Nat} (hr : r.1.IsLong)
    (h : Queues.admits machine slot r = true) : Queues.admits exact slot r = true := by
  have := hslot.second_nonneg
  have := hr.arrival_lt
  rcases lt_or_ge r.1.arrival 0 with hneg | hpos
  · rw [Queues.admits_iff, exact_toUint64]
    omega
  · rwa [Queues.admits_iff, toUint64_of_nonneg hpos (by omega), ← exact_toUint64 r.1.arrival,
      ← Queues.admits_iff] at h

theorem admits_machine_iff {r : ITaskEntry × Nat} (hr : r.1.IsLong)
    (h : Queues.admits exact slot r = true) :
    Queues.admits machine slot r = true ↔
      0 ≤ r.1.arrival ∨ 2 ^ 64 + r.1.arrival < slot.second := by
  have := hr.arrival_le
  have := hr.arrival_lt
  rw [Queues.admits_iff, exact_toUint64] at h
  rw [Queues.admits_iff]
  rcases lt_or_ge r.1.arrival 0 with hneg | hpos
  · rw [toUint64_of_neg (by omega) hneg]
    omega
  · rw [toUint64_of_nonneg hpos (by omega)]
    omega

theorem admitted_iff (h : Converts x y) (hslot : slot.IsUint64) :
    (y.trace machine slot).admitted = (x.trace exact slot).admitted ↔
      ∀ r ∈ x.admitted exact slot, 0 ≤ r.1.arrival ∨ 2 ^ 64 + r.1.arrival < slot.second := by
  simp only [Queues.trace, Queues.admitted, h.tRecord]
  rw [SortedQueue.map_takeWhile_eq_iff _ fun r hr => admits_exact hslot (h.long r hr)]
  refine forall₂_congr fun r hr => ?_
  exact admits_machine_iff (h.long r ((List.takeWhile_sublist _).mem hr))
    (List.mem_takeWhile_imp hr)

/-- If the same is admitted, then the same is in the queues and the same is left over. -/
theorem filled (h : Converts x y)
    (hadmitted : (y.trace machine slot).admitted = (x.trace exact slot).admitted) :
    (y.filled machine slot).Perm ((x.filled exact slot).map Job.converted) ∧
      (y.next machine slot).tRecord = (x.next exact slot).tRecord := by
  have hadmits : y.admitted machine slot = x.admitted exact slot := by
    have hlength := congrArg List.length hadmitted
    simp only [Queues.trace, List.length_map] at hlength
    refine ((List.prefix_of_prefix_length_le ?_ (List.takeWhile_prefix _) hlength.le)).eq_of_length
      hlength
    rw [Queues.admitted, h.tRecord]
    exact List.takeWhile_prefix _
  have hentry : ∀ r, (Queues.entry exact r).converted = Queues.entry machine r := fun _ => rfl
  constructor
  · refine (SortedQueue.pushAll_perm _ _ _).trans (.trans ?_
      ((SortedQueue.pushAll_perm _ _ _).map _).symm)
    simp only [hadmits, List.map_append, List.map_map, Function.comp_def, hentry]
    exact h.queue.append_left _
  · have hsplit : y.admitted machine slot ++ (y.next machine slot).tRecord =
        x.admitted exact slot ++ (x.next exact slot).tRecord := by
      simp only [Queues.admitted, Queues.next, List.takeWhile_append_dropWhile, h.tRecord]
    rw [hadmits] at hsplit
    exact List.append_cancel_left hsplit

/-- An entry of the queue is an old one, whose deadline was not over in an earlier slot, or was
just made from a record. -/
theorem mem_filled (h : Converts x y) {j : Job} (hj : j ∈ x.filled exact slot) :
    j.Bounded ∨ ∃ r ∈ x.admitted exact slot, j = Queues.entry exact r := by
  rcases SortedQueue.mem_pushAll.mp hj with hnew | hold
  · obtain ⟨r, hr, rfl⟩ := List.mem_map.mp hnew
    exact .inr ⟨r, hr, rfl⟩
  · exact .inl (h.bounded j hold)

theorem long_of_admitted (h : Converts x y) {r : ITaskEntry × Nat}
    (hr : r ∈ x.admitted exact slot) : r.1.IsLong :=
  h.long r ((List.takeWhile_sublist _).mem hr)

/-- What the code drops, the integers drop. -/
theorem isExpired_exact (h : Converts x y) (hslot : slot.IsUint64) {j : Job}
    (hj : j ∈ x.filled exact slot) (hexpired : Queues.isExpired slot j.converted = true) :
    Queues.isExpired slot j = true := by
  have := hslot.first_nonneg
  simp only [Queues.isExpired_iff] at *
  rcases h.mem_filled hj with hbounded | ⟨r, hr, rfl⟩
  · rwa [hbounded.converted_first] at hexpired
  · have := (h.long_of_admitted hr).deadline_lt
    rcases lt_or_ge r.1.deadline 0 with hneg | hpos
    · simp only [Queues.entry, exact_toUint64]
      omega
    · simpa [Job.converted, Queues.entry, toUint64_of_nonneg hpos (by omega)] using hexpired

theorem isExpired_machine (h : Converts x y)
    (hdeadline : ∀ r ∈ x.admitted exact slot,
      0 ≤ r.1.deadline ∨ 2 ^ 64 + r.1.deadline ≤ slot.first)
    {j : Job} (hj : j ∈ x.filled exact slot) (hexpired : Queues.isExpired slot j = true) :
    Queues.isExpired slot j.converted = true := by
  rw [Queues.isExpired_iff] at *
  rcases h.mem_filled hj with hbounded | ⟨r, hr, rfl⟩
  · rwa [hbounded.converted_first]
  · have := (h.long_of_admitted hr).deadline_le
    have := (h.long_of_admitted hr).deadline_lt
    simp only [Queues.entry, Job.converted, exact_toUint64] at *
    rcases lt_or_ge r.1.deadline 0 with hneg | hpos
    · rw [toUint64_of_neg (by omega) hneg]
      have := hdeadline r hr
      omega
    · rwa [toUint64_of_nonneg hpos (by omega)]

theorem expired_iff (h : Converts x y) (hslot : slot.IsUint64)
    (hfilled : (y.filled machine slot).Perm ((x.filled exact slot).map Job.converted)) :
    (y.trace machine slot).expired = (x.trace exact slot).expired ↔
      ∀ r ∈ x.admitted exact slot,
        0 ≤ r.1.deadline ∨ 2 ^ 64 + r.1.deadline ≤ slot.first := by
  have hmachine : ((y.expired machine slot).map (·.record)).Perm
      (((x.filled exact slot).filter fun j => Queues.isExpired slot j.converted).map
        (·.record)) := by
    rw [Queues.expired, SortedQueue.takeWhile_eq_filter Queues.isExpired_of_le
      (y.pairwise_filled machine slot h.sorted')]
    refine ((hfilled.filter _).map _).trans (.of_eq ?_)
    rw [List.filter_map, List.map_map]
    rfl
  have hexact : x.expired exact slot = (x.filled exact slot).filter (Queues.isExpired slot) :=
    SortedQueue.takeWhile_eq_filter Queues.isExpired_of_le
      (x.pairwise_filled exact slot h.sorted)
  simp only [Queues.trace, Multiset.coe_eq_coe, hexact]
  rw [hmachine.congr_left, SortedQueue.map_filter_perm_iff _
    fun j hj => h.isExpired_exact hslot hj]
  constructor
  · intro hall r hr
    have := hslot.first_nonneg
    have := (h.long_of_admitted hr).deadline_le
    rcases lt_or_ge r.1.deadline 0 with hneg | hpos
    · have hj := hall (Queues.entry exact r)
        (SortedQueue.mem_pushAll.mpr (.inl (List.mem_map_of_mem hr)))
      simp only [Queues.isExpired_iff, Queues.entry, Job.converted, exact_toUint64,
        toUint64_of_neg (show -2 ^ 64 ≤ r.1.deadline by omega) hneg] at hj
      omega
    · exact .inl hpos
  · exact fun hall j hj => h.isExpired_machine hall hj

/-- If the same is dropped, then the live jobs are the same, and none of them was changed in its
deadline. -/
theorem live (h : Converts x y) (hslot : slot.IsUint64)
    (hfilled : (y.filled machine slot).Perm ((x.filled exact slot).map Job.converted))
    (hdeadline : ∀ r ∈ x.admitted exact slot,
      0 ≤ r.1.deadline ∨ 2 ^ 64 + r.1.deadline ≤ slot.first) :
    (y.live machine slot).Perm ((x.live exact slot).map Job.converted) ∧
      ∀ j ∈ x.live exact slot, j.Bounded := by
  have hexact : x.live exact slot = (x.filled exact slot).filter (! Queues.isExpired slot ·) :=
    SortedQueue.dropWhile_eq_filter Queues.isExpired_of_le
      (x.pairwise_filled exact slot h.sorted)
  have hsame : ∀ j ∈ x.filled exact slot,
      Queues.isExpired slot j.converted = Queues.isExpired slot j := by
    intro j hj
    have hiff : Queues.isExpired slot j.converted = true ↔ Queues.isExpired slot j = true :=
      ⟨h.isExpired_exact hslot hj, h.isExpired_machine hdeadline hj⟩
    cases hx : Queues.isExpired slot j <;> simp_all
  constructor
  · rw [Queues.live, SortedQueue.dropWhile_eq_filter Queues.isExpired_of_le
      (y.pairwise_filled machine slot h.sorted'), hexact]
    refine (hfilled.filter _).trans (.of_eq ?_)
    rw [List.filter_map]
    exact congrArg _ (List.filter_congr fun j hj => by simp [hsame j hj])
  · intro j hj
    have hfirst := Queues.lt_first_of_mem_live h.sorted hj
    have := hslot.first_nonneg
    rw [hexact] at hj
    rcases h.mem_filled (List.mem_filter.mp hj).1 with hbounded | ⟨r, hr, rfl⟩
    · exact hbounded
    · have hlong := h.long_of_admitted hr
      simp only [Queues.entry, exact_toUint64] at hfirst
      exact ⟨by simp only [Queues.entry, exact_toUint64]; omega, hlong.deadline_lt,
        hlong.burst_le, hlong.burst_lt⟩

/-- The length of the slot, as the code and the integers have it. -/
theorem tSlot_cases (hslot : slot.IsUint64) :
    (-2 ^ 63 ≤ slot.second - slot.first ∧ slot.second - slot.first < 2 ^ 63 ∧
        Queues.tSlot machine slot = slot.second - slot.first) ∨
      (2 ^ 63 ≤ slot.second - slot.first ∧ Queues.tSlot machine slot < 0) ∨
      (slot.second - slot.first < -2 ^ 63 ∧ 0 < Queues.tSlot machine slot) := by
  obtain ⟨_, _, _, _⟩ := hslot
  rcases lt_or_ge (slot.second - slot.first) (2 ^ 63) with hlt | hge
  · rcases lt_or_ge (slot.second - slot.first) (-2 ^ 63) with hlt' | hge'
    · have htime : Queues.tSlot machine slot = slot.second - slot.first + 2 ^ 64 :=
        toLong_toUint64 (by omega) (by omega) (by omega)
      omega
    · exact .inl ⟨hge', hlt, toLong_toUint64 hge' hlt rfl⟩
  · have htime : Queues.tSlot machine slot = slot.second - slot.first - 2 ^ 64 :=
      toLong_toUint64 (by omega) (by omega) (by omega)
    omega

/-- If the live jobs are the same, then the same is served exactly when the length of the slot is
a `long` and no negative burst is served. -/
theorem served_iff (h : Converts x y) (hslot : slot.IsUint64)
    (hlive : (y.live machine slot).Perm ((x.live exact slot).map Job.converted))
    (hbounded : ∀ j ∈ x.live exact slot, j.Bounded) :
    ((y.trace machine slot).served = (x.trace exact slot).served ↔
        (x.live exact slot ≠ [] →
          -2 ^ 63 ≤ slot.second - slot.first ∧ slot.second - slot.first < 2 ^ 63) ∧
        ∀ piece ∈ (x.trace exact slot).served, 0 ≤ piece.time) ∧
      ((y.trace machine slot).served = (x.trace exact slot).served →
        (y.next machine slot).edfPQueue.Perm
          ((x.next exact slot).edfPQueue.map Job.converted)) := by
  have htime : Queues.tSlot exact slot = slot.second - slot.first := rfl
  have hmachine := serve_eq_nil_iff machine (Queues.tSlot machine slot) (y.live machine slot)
  have hexact := serve_eq_nil_iff exact (Queues.tSlot exact slot) (x.live exact slot)
  by_cases hne : x.live exact slot = []
  · have hnil' : y.live machine slot = [] := by
      rw [hne] at hlive
      exact hlive.eq_nil
    simp [Queues.trace, Queues.next, hne, hnil', serve]
  have hne' : y.live machine slot ≠ [] := by
    intro heq
    rw [heq] at hlive
    exact hne (List.map_eq_nil_iff.mp hlive.symm.eq_nil)
  rcases tSlot_cases hslot with ⟨hle, hlt, heq⟩ | ⟨hlong, hneg⟩ | ⟨hshort, hpos⟩
  · obtain ⟨hiff, hqueue⟩ := serve_machine_iff _ hle hlt hbounded
      (x.pairwise_live exact slot h.sorted) (y.pairwise_live machine slot h.sorted') hlive
    simp only [Queues.trace, Queues.next, heq, htime]
    exact ⟨hiff.trans (iff_and_self.mpr fun _ _ => ⟨hle, hlt⟩),
      fun hsame => hqueue (hiff.mp hsame)⟩
  all_goals
    have hdiffer : (y.trace machine slot).served ≠ (x.trace exact slot).served := by
      simp only [Queues.trace]
      intro hsame
      rw [hsame, hexact] at hmachine
      simp only [hne, hne', false_or] at hmachine
      omega
    refine ⟨iff_of_false hdiffer ?_, fun hsame => absurd hsame hdiffer⟩
    rintro ⟨hlength, -⟩
    have := hlength hne
    omega

/-- One slot: the same happens exactly when the slot is faithful, and then the simulations go on
from states that agree. -/
theorem slot_iff (h : Converts x y) (hslot : slot.IsUint64) :
    (y.trace machine slot = x.trace exact slot ↔ x.Faithful slot) ∧
      (y.trace machine slot = x.trace exact slot →
        Converts (x.next exact slot) (y.next machine slot)) := by
  have hsplit : y.trace machine slot = x.trace exact slot ↔
      (y.trace machine slot).admitted = (x.trace exact slot).admitted ∧
      (y.trace machine slot).expired = (x.trace exact slot).expired ∧
      (y.trace machine slot).served = (x.trace exact slot).served := by
    cases y.trace machine slot
    cases x.trace exact slot
    simp
  constructor
  · rw [hsplit]
    constructor
    · rintro ⟨hadmitted, hexpired, hserved⟩
      obtain ⟨hfilled, -⟩ := h.filled hadmitted
      have hdeadline := (h.expired_iff hslot hfilled).mp hexpired
      obtain ⟨hlive, hbounded⟩ := h.live hslot hfilled hdeadline
      obtain ⟨hlength, hburst⟩ := (h.served_iff hslot hlive hbounded).1.mp hserved
      exact ⟨(h.admitted_iff hslot).mp hadmitted, hdeadline, hlength, hburst⟩
    · rintro ⟨harrival, hdeadline, hlength, hburst⟩
      have hadmitted := (h.admitted_iff hslot).mpr harrival
      obtain ⟨hfilled, -⟩ := h.filled hadmitted
      obtain ⟨hlive, hbounded⟩ := h.live hslot hfilled hdeadline
      exact ⟨hadmitted, (h.expired_iff hslot hfilled).mpr hdeadline,
        (h.served_iff hslot hlive hbounded).1.mpr ⟨hlength, hburst⟩⟩
  · intro hsame
    obtain ⟨hadmitted, hexpired, hserved⟩ := hsplit.mp hsame
    obtain ⟨hfilled, hrest⟩ := h.filled hadmitted
    obtain ⟨hlive, hbounded⟩ := h.live hslot hfilled ((h.expired_iff hslot hfilled).mp hexpired)
    exact
      { tRecord := hrest
        queue := (h.served_iff hslot hlive hbounded).2 hserved
        bounded := bounded_serve _ hbounded
        long := fun r hr => h.long r ((List.dropWhile_sublist _).mem hr)
        sorted := x.pairwise_next exact slot h.sorted
        sorted' := y.pairwise_next machine slot h.sorted' }

theorem simulate_iff (h : Converts x y) {schedule : List Slot}
    (hslots : ∀ slot ∈ schedule, slot.IsUint64) :
    simulate machine schedule y = simulate exact schedule x ↔ Faithful schedule x := by
  induction schedule generalizing x y with
  | nil => exact iff_of_true rfl trivial
  | cons slot schedule ih =>
    obtain ⟨hiff, hnext⟩ := h.slot_iff (hslots slot List.mem_cons_self)
    simp only [simulate, Faithful, List.cons.injEq]
    rw [← hiff]
    refine and_congr_right fun hsame => ?_
    have hconverts := hnext hsame
    rw [hconverts.isDone]
    cases (x.next exact slot).isDone with
    | true => simp
    | false =>
      simpa using ih hconverts fun s hs => hslots s (List.mem_cons_of_mem _ hs)

end Converts

theorem converts_start {records : List ITaskEntry} (h : ∀ r ∈ records, r.IsLong) :
    Converts (Queues.start records) (Queues.start records) where
  tRecord := rfl
  queue := List.Perm.refl _
  bounded := by simp [Queues.start]
  long := by
    intro r hr
    exact h r.1 (List.fst_mem_of_mem_zipIdx hr)
  sorted := List.Pairwise.nil
  sorted' := List.Pairwise.nil

/-- A job that is over before every slot is not counted by the integer simulation. -/
theorem not_mem_counted_of_over {records : List ITaskEntry} {schedule : List Slot} {i : Nat}
    {r : ITaskEntry} (hr : records[i]? = some r)
    (hover : ∀ slot ∈ schedule, r.deadline ≤ slot.first) {t : SlotTrace}
    (ht : t ∈ simulate exact schedule (Queues.start records)) : i ∉ t.counted := by
  intro hcounted
  obtain ⟨piece, hpiece, rfl⟩ := List.mem_map.mp hcounted
  obtain ⟨k, hk⟩ := List.mem_iff_getElem?.mp ht
  obtain ⟨slot, r', hslot, hr', hlt, -⟩ := (Queues.Tracks.start exact records).window
    List.Pairwise.nil hk (List.mem_filter.mp hpiece).1
  obtain rfl : r = r' := Option.some.inj (hr.symm.trans hr')
  have := hover slot (List.mem_of_getElem? hslot)
  rw [exact_toUint64] at hlt
  omega

/-- `CalculateMatchCount` does what the simulation over the integers does: it returns the same
count, it admits, drops, serves and completes the same jobs in the same slots, and it counts no
job that is over before every slot. -/
structure MatchesExact (records : List ITaskEntry) (schedule : List Slot) : Prop where
  count : calculateMatchCount machine records schedule = calculateMatchCount exact records schedule
  jobs : simulate machine schedule (Queues.start records) =
    simulate exact schedule (Queues.start records)
  expired : ∀ i r, records[i]? = some r → (∀ slot ∈ schedule, r.deadline ≤ slot.first) →
    ∀ t ∈ simulate machine schedule (Queues.start records), i ∉ t.counted

/-- The conversions between `long` and `uint64_t` change nothing exactly when no slot of the
integer simulation meets one of the numbers that they change. -/
theorem matchesExact_iff {records : List ITaskEntry} (hrecords : ∀ r ∈ records, r.IsLong)
    {schedule : List Slot} (hslots : ∀ slot ∈ schedule, slot.IsUint64) :
    MatchesExact records schedule ↔ Faithful schedule (Queues.start records) := by
  rw [← (converts_start hrecords).simulate_iff hslots]
  refine ⟨MatchesExact.jobs, fun hsame => ⟨?_, hsame, ?_⟩⟩
  · rw [calculateMatchCount, calculateMatchCount, hsame]
  · intro i r hr hover t ht
    rw [hsame] at ht
    exact not_mem_counted_of_over hr hover ht

/-- Records without negative numbers meet no conversion that changes them, if the slots are not
longer than a `long`. -/
theorem faithful_of_nonneg {schedule : List Slot} {x : Queues}
    (hslots : ∀ slot ∈ schedule,
      slot.first ≤ slot.second ∧ slot.second - slot.first < 2 ^ 63)
    (hrecords : ∀ r ∈ x.tRecord, 0 ≤ r.1.arrival ∧ 0 ≤ r.1.deadline ∧ 0 ≤ r.1.burst)
    (hqueue : ∀ j ∈ x.edfPQueue, 0 ≤ j.second) : Faithful schedule x := by
  induction schedule generalizing x with
  | nil => trivial
  | cons slot schedule ih =>
    have hlive : ∀ j ∈ x.live exact slot, 0 ≤ j.second := by
      intro j hj
      rcases SortedQueue.mem_pushAll.mp ((List.dropWhile_sublist _).mem hj) with hnew | hold
      · obtain ⟨r, hr, rfl⟩ := List.mem_map.mp hnew
        exact (hrecords r ((List.takeWhile_sublist _).mem hr)).2.2
      · exact hqueue j hold
    obtain ⟨hserved, hrest⟩ :=
      serve_nonneg exact (Queues.tSlot exact slot) (fun _ => id) hlive
    obtain ⟨hle, hlt⟩ := hslots slot List.mem_cons_self
    refine ⟨⟨fun r hr => ?_, fun r hr => ?_, fun _ => ⟨by omega, hlt⟩, hserved⟩, fun _ => ?_⟩
    · exact .inl (hrecords r ((List.takeWhile_sublist _).mem hr)).1
    · exact .inl (hrecords r ((List.takeWhile_sublist _).mem hr)).2.1
    · exact ih (fun s hs => hslots s (List.mem_cons_of_mem _ hs))
        (fun r hr => hrecords r ((List.dropWhile_sublist _).mem hr)) hrest

/-- Two jobs, of which the second only fits into the slot in part. -/
theorem matchesExact_twoJobs : MatchesExact [⟨20, 5, 3⟩, ⟨30, 8, 4⟩] [⟨0, 10⟩] :=
  (matchesExact_iff (by decide) (by decide)).mpr
    (faithful_of_nonneg (by decide) (by decide) (by decide))

/-- A job whose deadline was over before the cycle began is counted, because its deadline turns
into one of the far future. -/
theorem not_matchesExact_overdue :
    ¬ MatchesExact [⟨-5, 1, 0⟩] [⟨0, 10⟩] ∧
      calculateMatchCount machine [⟨-5, 1, 0⟩] [⟨0, 10⟩] = 1 ∧
      calculateMatchCount exact [⟨-5, 1, 0⟩] [⟨0, 10⟩] = 0 :=
  ⟨fun h => absurd h.count (by decide), by decide, by decide⟩

end JamSched.Rib
