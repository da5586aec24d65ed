import JamSched.Rib.MatchAllocation

/-!
# Times inside a slot

The decider looks at the clock once for each slot: a record is admitted if it arrives before the
slot ends, and dropped if its deadline is not after the beginning of the slot. If a slot is run
from its beginning on, a job may therefore be served before it arrives or after its deadline, but
only if the arrival, or the deadline, lies strictly inside the slot that serves it.
-/
namespace JamSched.Rib

open Arithmetic

/-- The piece takes the slot from `start` to `stop`, if the pieces are run one after the other from
the beginning of the slot on. -/
def SlotTrace.Runs (t : SlotTrace) (slot : Slot) (piece : Piece) (start stop : Int) : Prop :=
  ∃ before after, t.served = before ++ piece :: after ∧
    start = slot.first + (before.map (·.time)).sum ∧ stop = start + piece.time

/-- A piece of a job that is counted: in the slot at position `k`, it runs from `start` to `stop`
for the record `r`. -/
structure CountedPiece (records : List ITaskEntry) (schedule : List Slot) (slot : Slot)
    (piece : Piece) (start stop : Int) (r : ITaskEntry) : Prop where
  runs : ∃ (k : Nat) (t : SlotTrace), schedule[k]? = some slot ∧
    (simulate machine schedule (Queues.start records))[k]? = some t ∧ t.Runs slot piece start stop
  counted : ∃ t ∈ simulate machine schedule (Queues.start records), piece.record ∈ t.counted
  record : records[piece.record]? = some r

/-- Every job that is counted starts no earlier than it arrives, and is finished no later than its
deadline. -/
def InTime (records : List ITaskEntry) (schedule : List Slot) : Prop :=
  ∀ slot piece start stop r, CountedPiece records schedule slot piece start stop r →
    r.arrival ≤ start ∧ (piece.completed = true → stop ≤ r.deadline)

/-- Slots that do not overlap are listed in the order of their ends. -/
theorem pairwise_second_le {schedule : List Slot} (hslots : ∀ slot ∈ schedule, slot.Proper)
    (hdisjoint : schedule.Pairwise (·.second ≤ ·.first)) :
    schedule.Pairwise (·.second ≤ ·.second) :=
  hdisjoint.imp_of_mem fun _ hb hab => hab.trans (hslots _ hb).first_le

/-- The pieces of a slot lie in the slot. -/
theorem SlotTrace.Runs.bounds {t : SlotTrace} {slot : Slot} {piece : Piece} {start stop : Int}
    (h : t.Runs slot piece start stop) (hfits : t.FitsIn slot) :
    slot.first ≤ start ∧ start ≤ stop ∧ stop ≤ slot.second := by
  obtain ⟨before, after, hserved, rfl, rfl⟩ := h
  obtain ⟨hsum, hnonneg⟩ := hfits
  rw [hserved] at hsum hnonneg
  have hbefore : 0 ≤ (before.map (·.time)).sum := List.sum_nonneg (by
    intro n hn
    obtain ⟨p, hp, rfl⟩ := List.mem_map.mp hn
    exact hnonneg p (List.mem_append_left _ hp))
  have hafter : 0 ≤ (after.map (·.time)).sum := List.sum_nonneg (by
    intro n hn
    obtain ⟨p, hp, rfl⟩ := List.mem_map.mp hn
    exact hnonneg p (List.mem_append_right _ (List.mem_cons_of_mem _ hp)))
  have hpiece := hnonneg piece (List.mem_append_right _ List.mem_cons_self)
  simp only [List.map_append, List.map_cons, List.sum_append, List.sum_cons] at hsum
  omega

/-- A job that is counted is served inside slots that begin before its deadline and end after its
arrival. It starts no earlier than it arrives, unless the arrival lies strictly inside the slot
that serves it, and it is finished no later than its deadline, unless the deadline lies strictly
inside that slot. -/
theorem countedPiece_inTime {records : List ITaskEntry} (hrecords : ∀ r ∈ records, r.Nonneg)
    {schedule : List Slot} (hslots : ∀ slot ∈ schedule, slot.Proper)
    (hdisjoint : schedule.Pairwise (·.second ≤ ·.first)) {slot : Slot} {piece : Piece}
    {start stop : Int} {r : ITaskEntry}
    (h : CountedPiece records schedule slot piece start stop r) :
    (slot.first ≤ start ∧ start ≤ stop ∧ stop ≤ slot.second) ∧
      (slot.first < r.deadline ∧ r.arrival < slot.second) ∧
      (r.arrival ≤ start ∨ slot.first < r.arrival ∧ r.arrival < slot.second) ∧
      (stop ≤ r.deadline ∨ slot.first < r.deadline ∧ r.deadline < slot.second) := by
  obtain ⟨k, t, hslot, ht, hruns⟩ := h.runs
  obtain ⟨slot', hslot', hfits⟩ := (timely_start hrecords).exists_fitsIn hslots ht
  obtain rfl : slot = slot' := Option.some.inj (hslot.symm.trans hslot')
  have hbounds := hruns.bounds hfits
  have hmem : piece ∈ t.served := by
    obtain ⟨before, after, hserved, -⟩ := hruns
    simp [hserved]
  have hwindow := (within_of_piece hrecords ht hmem).inWindow
    (pairwise_second_le hslots hdisjoint) slot r hslot h.record
  refine ⟨hbounds, hwindow, ?_, ?_⟩ <;> omega

/-- A job that arrives when the slot has begun. -/
theorem countedPiece_inTime_lateArrival : ∃ piece start stop,
    CountedPiece [⟨100, 1, 5⟩] [⟨0, 10⟩] ⟨0, 10⟩ piece start stop ⟨100, 1, 5⟩ ∧
      (stop ≤ 100 ∨ (0 : Int) < 100 ∧ (100 : Int) < 10) := by
  have hserves : CountedPiece [⟨100, 1, 5⟩] [⟨0, 10⟩] ⟨0, 10⟩ ⟨0, 1, true⟩ 0 1 ⟨100, 1, 5⟩ :=
    ⟨⟨0, _, rfl, rfl, [], [], rfl, rfl, rfl⟩, ⟨_, List.mem_cons_self, by decide⟩, rfl⟩
  exact ⟨_, _, _, hserves, (countedPiece_inTime (by decide) (by decide) (by decide) hserves).2.2.2⟩

/-- A job that arrives after the time at which it is served, and one whose deadline is over when it
is finished. Both are counted. -/
theorem not_inTime_insideSlot :
    (¬ InTime [⟨100, 1, 5⟩] [⟨0, 10⟩] ∧ calculateMatchCount machine [⟨100, 1, 5⟩] [⟨0, 10⟩] = 1) ∧
      ¬ InTime [⟨3, 5, 0⟩] [⟨0, 10⟩] ∧
        calculateMatchCount machine [⟨3, 5, 0⟩] [⟨0, 10⟩] = 1 := by
  refine ⟨⟨fun h => ?_, by decide⟩, fun h => ?_, by decide⟩
  · have hstart := (h ⟨0, 10⟩ ⟨0, 1, true⟩ 0 1 ⟨100, 1, 5⟩
      ⟨⟨0, _, rfl, rfl, [], [], rfl, rfl, rfl⟩, ⟨_, List.mem_cons_self, by decide⟩, rfl⟩).1
    exact absurd hstart (by decide)
  · have hstop := (h ⟨0, 10⟩ ⟨0, 5, true⟩ 0 5 ⟨3, 5, 0⟩
      ⟨⟨0, _, rfl, rfl, [], [], rfl, rfl, rfl⟩, ⟨_, List.mem_cons_self, by decide⟩, rfl⟩).2 rfl
    exact absurd hstop (by decide)

end JamSched.Rib
