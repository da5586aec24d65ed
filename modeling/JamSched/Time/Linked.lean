import JamSched.Time.Collect
import Mathlib.Data.List.Flatten

/-!
# The invariant of the timing wheel

A timeout is in the one list that its `pending` names, in a slot if it is due later and in the
expired queue if it is due, and the words tell which slots are in use. While `timeouts_update` works
through what it has collected, these timeouts are in no list and their `pending` is stale.
-/
namespace JamSched.Timeouts

open Bits Ticks

variable {S T : Timeouts} {p q : Ptr} {l m : TimeoutList} {i k : Fin 4} {j : Fin 64}
  {todo : List Ptr} {expires now : TimeoutT} {f : Timeout → Timeout}

/-- `todo` are the timeouts that were taken out of their lists and not scheduled anew yet. -/
structure WellFormed (T : Timeouts) (todo : List Ptr) : Prop where
  mem : ∀ p l, p ∈ T.list l ↔ (T.timeout p).pending = some l ∧ p ∉ todo
  nodup : ∀ l, (T.list l).Nodup
  inUse : ∀ i, InUse T i
  fits : ∀ p i j, p ∈ T.list (.wheel i j) →
    Fits T.curtime.toNat (T.timeout p).expires.toNat i j
  due : ∀ p ∈ T.list .expired, (T.timeout p).expires ≤ T.curtime

section Link

@[simp] theorem list_link : (T.link p expires).list l =
    if l = T.place expires then T.list l ++ [p] else T.list l := by
  simp only [link, list_setInUse, list_insertTail, list_modify]
  grind

@[simp] theorem curtime_link : (T.link p expires).curtime = T.curtime := by simp [link]

@[simp] theorem timeout_link : (T.link p expires).timeout q =
    if q = p then { T.timeout p with expires, pending := some (T.place expires) }
    else T.timeout q := by
  simp only [link, timeout_setInUse, timeout_insertTail, timeout_modify]
  grind

theorem InUse.setInUse (h : InUse S i) (hl : T.list l ≠ []) (hpending : T.pending i = S.pending i)
    (hlist : ∀ j, .wheel i j ≠ l → T.list (.wheel i j) = S.list (.wheel i j)) :
    InUse (T.setInUse l) i := by
  intro j
  have hj (hne : .wheel i j ≠ l) :
      (T.pending i)[(j : Nat)] = true ↔ T.list (.wheel i j) ≠ [] := by
    rw [hpending, hlist j hne]
    exact h j
  rw [list_setInUse]
  cases l with
  | expired => exact hj (by simp)
  | wheel k m =>
    by_cases hk : i = k
    · subst hk
      by_cases hm : j = m
      · subst hm
        simpa [setInUse] using hl
      · simpa [setInUse, hm] using hj (by simp [hm])
    · simpa [setInUse, hk] using hj (by simp [hk])

theorem InUse.clearIfEmpty (h : InUse S i) (hpending : T.pending i = S.pending i)
    (hlist : ∀ j, .wheel i j ≠ l ∨ T.list l ≠ [] →
      (T.list (.wheel i j) ≠ [] ↔ S.list (.wheel i j) ≠ [])) : InUse (T.clearIfEmpty l) i := by
  intro j
  have hj (hor : .wheel i j ≠ l ∨ T.list l ≠ []) :
      (T.pending i)[(j : Nat)] = true ↔ T.list (.wheel i j) ≠ [] := by
    rw [hpending, hlist j hor]
    exact h j
  rw [list_clearIfEmpty]
  unfold Timeouts.clearIfEmpty
  split
  · next k m =>
    split
    · next hnil =>
      by_cases hk : i = k
      · subst hk
        by_cases hm : j = m
        · subst hm
          simpa using hnil
        · simpa [hm] using hj (.inl (by simp [hm]))
      · simpa [hk] using hj (.inl (by simp [hk]))
    · next hne => exact hj (.inr hne)
  · exact hj (.inl (by simp))

theorem InUse.link (h : InUse T i) : InUse (T.link p expires) i :=
  h.setInUse (by simp) (by simp) fun j hne => by simp [hne]

/-- A timeout that is in no list is put into the one that is right for it. -/
theorem WellFormed.link (h : WellFormed T (p :: todo)) (hp : p ∉ todo) :
    WellFormed (T.link p expires) todo where
  mem q l := by
    have hmem := h.mem q l
    rw [list_link, timeout_link]
    grind
  nodup l := by
    have hmem := h.mem p l
    have hnodup := h.nodup l
    rw [list_link]
    grind
  inUse i := (h.inUse i).link
  fits q i j hq := by
    have hmem := h.mem q (.wheel i j)
    have hfits := h.fits q i j
    rw [list_link] at hq
    rw [curtime_link, timeout_link]
    split
    · next hqp =>
      have hplace : T.place expires = .wheel i j := by grind
      exact fits_of_place hplace
    · next hqp => exact hfits (by grind)
  due q hq := by
    have hmem := h.mem q .expired
    have hdue := h.due q
    rw [list_link] at hq
    rw [curtime_link, timeout_link]
    split
    · next hqp =>
      have hplace : T.place expires = .expired := by grind
      exact place_eq_expired_iff.mp hplace
    · next hqp => exact hdue (by grind)

end Link

section Del

theorem WellFormed.eq_of_mem (h : WellFormed T todo) (hl : p ∈ T.list l) (hm : p ∈ T.list m) :
    l = m := by
  have hl := ((h.mem p l).mp hl).1
  have hm := ((h.mem p m).mp hm).1
  grind

theorem WellFormed.list_del (h : WellFormed T todo) (hp : p ∉ todo) :
    (T.del p).list l = (T.list l).erase p := by
  have hmem := h.mem p l
  unfold del
  split
  · next hnone => exact (List.erase_of_not_mem (by simp [hmem, hnone])).symm
  · next m hm =>
    rw [list_modify, list_clearIfEmpty, list_unlink]
    split
    · next hlm => rw [hlm]
    · next hlm => exact (List.erase_of_not_mem (by grind)).symm

@[simp] theorem curtime_del : (T.del p).curtime = T.curtime := by
  unfold del
  split <;> simp

@[simp] theorem timeout_del : (T.del p).timeout q =
    if q = p then { T.timeout p with pending := none } else T.timeout q := by
  unfold del
  split
  · next hnone =>
    split
    · next hqp =>
      subst hqp
      cases hq : T.timeout q
      simp_all
    · rfl
  · simp

/-- A timeout that is deleted is in no list, and nothing else changes. -/
theorem WellFormed.del (h : WellFormed T todo) (hp : p ∉ todo) : WellFormed (T.del p) todo where
  mem q l := by
    have hmem := h.mem q l
    have hnodup := h.nodup l
    rw [h.list_del hp, timeout_del, hnodup.mem_erase_iff]
    grind
  nodup l := by
    rw [h.list_del hp]
    exact (h.nodup l).erase p
  inUse i := by
    unfold Timeouts.del
    split
    · exact h.inUse i
    · next l hl =>
      refine (h.inUse i).clearIfEmpty (congrFun pending_unlink i) fun j hj => ?_
      rw [list_unlink, if_pos rfl] at hj
      rw [list_unlink]
      grind
  fits q i j hq := by
    rw [h.list_del hp, (h.nodup _).mem_erase_iff] at hq
    rw [timeout_del, if_neg hq.1, curtime_del]
    exact h.fits q i j hq.2
  due q hq := by
    rw [h.list_del hp, (h.nodup _).mem_erase_iff] at hq
    rw [timeout_del, if_neg hq.1, curtime_del]
    exact h.due q hq.2

theorem WellFormed.out (h : WellFormed T todo) (hp : (T.timeout p).pending = none) :
    WellFormed T (p :: todo) where
  mem q l := by
    have hmem := h.mem q l
    grind
  nodup := h.nodup
  inUse := h.inUse
  fits := h.fits
  due := h.due

theorem WellFormed.sched (h : WellFormed T todo) (hp : p ∉ todo) :
    WellFormed (T.sched p expires) todo :=
  ((h.del hp).out (by simp)).link hp

/-- Members that neither the lists nor the time depend on. -/
theorem WellFormed.modify (h : WellFormed T todo)
    (hpending : (f (T.timeout p)).pending = (T.timeout p).pending)
    (hexpires : (T.timeout p).pending ≠ none →
      (f (T.timeout p)).expires = (T.timeout p).expires) :
    WellFormed (T.modify p f) todo where
  mem q l := by
    have hmem := h.mem q l
    rw [list_modify, timeout_modify]
    grind
  nodup := h.nodup
  inUse := h.inUse
  fits q i j hq := by
    have hmem := h.mem q (.wheel i j)
    rw [list_modify] at hq
    have hfits := h.fits q i j hq
    rw [curtime_modify, timeout_modify]
    grind
  due q hq := by
    have hmem := h.mem q .expired
    rw [list_modify] at hq
    have hdue := h.due q hq
    rw [curtime_modify, timeout_modify]
    grind

theorem WellFormed.timeoutInit (h : WellFormed T todo) (hp : (T.timeout p).pending = none)
    (flags : Nat) : WellFormed (T.timeoutInit p flags) todo :=
  h.modify hp.symm (absurd hp)

theorem WellFormed.add (h : WellFormed T []) (timeout : TimeoutT) :
    WellFormed (T.add p timeout) [] := by
  unfold Timeouts.add
  have hinterval : WellFormed (if (T.timeout p).isInt then
      T.modify p fun t => { t with interval := if 1 < timeout then timeout else 1 } else T) [] := by
    split
    · exact h.modify rfl fun _ => rfl
    · exact h
  dsimp only
  split <;> exact hinterval.sched List.not_mem_nil

end Del

section Update

theorem del_of_none (h : (T.timeout p).pending = none) : T.del p = T := by simp [del, h]

/-- What happens to the members of a timeout that is in no list. -/
theorem WellFormed.modify_of_mem (h : WellFormed T todo) (hp : p ∈ todo) :
    WellFormed (T.modify p f) todo where
  mem q l := by
    have hmem := h.mem q l
    rw [list_modify, timeout_modify]
    grind
  nodup := h.nodup
  inUse := h.inUse
  fits q i j hq := by
    have hmem := h.mem q (.wheel i j)
    rw [list_modify] at hq
    have hfits := h.fits q i j hq
    rw [curtime_modify, timeout_modify]
    grind
  due q hq := by
    have hmem := h.mem q .expired
    rw [list_modify] at hq
    have hdue := h.due q hq
    rw [curtime_modify, timeout_modify]
    grind

@[simp] theorem place_modify : (T.modify p f).place expires = T.place expires := rfl

/-- The round of the last loop of `timeouts_update` for one timeout. -/
def anew (T : Timeouts) (p : Ptr) : Timeouts :=
  (T.modify p fun t => { t with pending := none }).link p (T.timeout p).expires

theorem resched_cons : T.resched (p :: todo) = (T.anew p).resched todo := by
  rw [resched, List.foldl_cons, sched, del_of_none (by simp)]
  rfl

@[simp] theorem curtime_anew : (T.anew p).curtime = T.curtime := by simp [anew]

@[simp] theorem timeout_anew : (T.anew p).timeout q =
    if q = p then { T.timeout p with pending := some (T.place (T.timeout p).expires) }
    else T.timeout q := by
  simp only [anew, timeout_link, timeout_modify, place_modify]
  split <;> simp_all

@[simp] theorem list_anew : (T.anew p).list l =
    if l = T.place (T.timeout p).expires then T.list l ++ [p] else T.list l := by
  rw [anew, list_link]
  rfl

theorem WellFormed.anew (h : WellFormed T (p :: todo)) (hp : p ∉ todo) :
    WellFormed (T.anew p) todo :=
  (h.modify_of_mem List.mem_cons_self).link hp

/-- What `timeouts_update` has collected is scheduled anew, each timeout once. -/
theorem WellFormed.resched (h : WellFormed T todo) (hnodup : todo.Nodup) :
    WellFormed (T.resched todo) [] := by
  induction todo generalizing T with
  | nil => exact h
  | cons p todo ih =>
    rw [List.nodup_cons] at hnodup
    rw [resched_cons]
    exact ih (h.anew hnodup.1) hnodup.2

theorem WellFormed.nodup_inSlots (h : WellFormed T todo) : T.inSlots.Nodup := by
  refine List.nodup_flatMap.mpr ⟨fun i _ => ?_, ?_⟩
  · refine List.nodup_flatMap.mpr ⟨fun j _ => h.nodup _, ?_⟩
    refine (List.nodup_finRange 64).imp fun hne p hp hq => ?_
    have heq := h.eq_of_mem hp hq
    grind
  · refine (List.nodup_finRange 4).imp fun hne p hp hq => ?_
    simp only [List.mem_flatMap, List.mem_finRange, true_and] at hp hq
    obtain ⟨j, hp⟩ := hp
    obtain ⟨k, hq⟩ := hq
    have heq := h.eq_of_mem hp hq
    grind

/-- The timeouts of a set of slots are in the order of all. -/
theorem inMarked_sublist (marks : Fin 4 → WheelT) :
    ((List.finRange 4).flatMap (T.inMarked marks)).Sublist T.inSlots :=
  List.Sublist.flatMap_right _ fun _ _ => List.filter_sublist.flatMap _

/-- The state of `timeouts_update` between its two loops. -/
theorem WellFormed.clear (h : WellFormed T []) {marks : Fin 4 → WheelT} (hle : T.curtime ≤ now)
    (hmarks : T.Covers now marks) :
    WellFormed { T.clear marks with curtime := now }
      ((List.finRange 4).flatMap (T.inMarked marks)) where
  mem p l := by
    have hmem := h.mem p
    have htodo : p ∈ (List.finRange 4).flatMap (T.inMarked marks) ↔
        ∃ (i : Fin 4) (j : Fin 64), (marks i)[(j : Nat)] = true ∧ p ∈ T.list (.wheel i j) := by
      simp [mem_inMarked]
    rw [htodo]
    show p ∈ (T.clear marks).list l ↔ (T.timeout p).pending = some l ∧ _
    cases l with
    | expired =>
      rw [list_clear_expired]
      grind
    | wheel i j =>
      rw [list_clear_wheel]
      grind
  nodup l := by
    show ((T.clear marks).list l).Nodup
    cases l with
    | expired => exact h.nodup _
    | wheel i j =>
      rw [list_clear_wheel]
      split
      · exact List.nodup_nil
      · exact h.nodup _
  inUse i := (h.inUse i).clear
  fits p i j hp := by
    rw [list_clear_wheel] at hp
    have hbit : (marks i)[(j : Nat)] = false := by grind
    rw [if_neg (by simp [hbit])] at hp
    have hfits := h.fits p i j hp
    refine hfits.mono (BitVec.le_def.mp hle) ?_
    by_contra hdue
    have hmarked := hmarks i j _ hfits (Nat.le_of_not_lt hdue)
    rw [hbit] at hmarked
    cases hmarked
  due p hp := BitVec.le_trans (h.due p hp) hle

theorem ascending_finRange : Ascending (List.finRange 4) := by
  simp [Ascending, List.finRange_succ]

theorem update_of_collect {S : Timeouts}
    (h : collect now (List.finRange 4) (now - T.curtime) [] T = (todo, S)) :
    T.update now = Timeouts.resched { S with curtime := now } todo := by
  rw [update, h]

/-- `timeouts_update` takes the timeouts of some slots, those of all slots that hold something due
among them, and schedules them anew at the new time. -/
theorem WellFormed.update_eq (h : WellFormed T []) (hle : T.curtime ≤ now) :
    ∃ marks : Fin 4 → WheelT,
      T.update now = Timeouts.resched { T.clear marks with curtime := now }
        ((List.finRange 4).flatMap (T.inMarked marks)) ∧ T.Covers now marks := by
  have helapsed : now.toNat - T.curtime.toNat ≤ (now - T.curtime).toNat :=
    (BitVec.toNat_sub_of_le hle).ge
  have hround : ∀ i ∈ (List.finRange 4).head?, i = 0 ∨ 64 ^ i.val ≤ (now - T.curtime).toNat := by
    intro i hi
    rw [List.finRange_succ, List.head?_cons, Option.mem_some_iff] at hi
    exact .inl hi.symm
  obtain ⟨marks, hcollect, -, hdue⟩ := collect_spec [] h.inUse hle helapsed
    ascending_finRange hround
  refine ⟨marks, ?_, fun i j expires => hdue i (List.mem_finRange i) j expires⟩
  rw [List.nil_append] at hcollect
  exact update_of_collect hcollect

theorem WellFormed.update (h : WellFormed T []) (hle : T.curtime ≤ now) :
    WellFormed (T.update now) [] := by
  obtain ⟨marks, hupdate, hmarks⟩ := h.update_eq hle
  rw [hupdate]
  exact (h.clear hle hmarks).resched (h.nodup_inSlots.sublist (inMarked_sublist marks))

@[simp] theorem curtime_resched : (T.resched todo).curtime = T.curtime := by
  induction todo generalizing T with
  | nil => rfl
  | cons p todo ih => rw [resched_cons, ih, curtime_anew]

/-- The same timeout, in some list if it was in one. -/
structure Moved (t t' : Timeout) : Prop where
  flags : t'.flags = t.flags
  expires : t'.expires = t.expires
  interval : t'.interval = t.interval
  linked : t'.pending = none ↔ t.pending = none

theorem Moved.isInt {t t' : Timeout} (h : Moved t t') : t'.isInt = t.isInt := by
  rw [Timeout.isInt, Timeout.isInt, h.flags]

theorem timeout_resched (h : ∀ p ∈ todo, (T.timeout p).pending ≠ none) :
    Moved (T.timeout q) ((T.resched todo).timeout q) := by
  induction todo generalizing T with
  | nil => exact ⟨rfl, rfl, rfl, Iff.rfl⟩
  | cons p todo ih =>
    have hrest : ∀ r ∈ todo, ((T.anew p).timeout r).pending ≠ none := by
      intro r hr
      have hr := h r (List.mem_cons_of_mem _ hr)
      rw [timeout_anew]
      split <;> simp_all
    have hq := ih hrest
    have hp := h p List.mem_cons_self
    rw [resched_cons]
    rw [timeout_anew] at hq
    split at hq
    · next hqp =>
      subst hqp
      exact ⟨hq.flags, hq.expires, hq.interval, hq.linked.trans (by simp [hp])⟩
    · exact hq

theorem WellFormed.pending_ne_none (h : WellFormed T []) {marks : Fin 4 → WheelT}
    (hp : p ∈ (List.finRange 4).flatMap (T.inMarked marks)) : (T.timeout p).pending ≠ none := by
  simp only [List.mem_flatMap, mem_inMarked] at hp
  obtain ⟨i, -, j, -, hp⟩ := hp
  simp [((h.mem p _).mp hp).1]

/-- Advancing the wheel changes only in which lists the timeouts are. -/
theorem WellFormed.timeout_update (h : WellFormed T []) (hle : T.curtime ≤ now) (q : Ptr) :
    Moved (T.timeout q) ((T.update now).timeout q) := by
  obtain ⟨marks, hupdate, -⟩ := h.update_eq hle
  rw [hupdate]
  exact timeout_resched (T := { T.clear marks with curtime := now }) fun p hp =>
    h.pending_ne_none hp

theorem WellFormed.curtime_update (h : WellFormed T []) (hle : T.curtime ≤ now) :
    (T.update now).curtime = now := by
  obtain ⟨marks, hupdate, -⟩ := h.update_eq hle
  rw [hupdate, curtime_resched]

end Update

section Get

/-- A timeout with an interval is linked again when it is taken out of the expired queue. -/
def again (T : Timeouts) (p : Ptr) : Timeouts :=
  if (T.timeout p).isInt ∧ 0 < (T.timeout p).interval then T.readd p else T

/-- `timeouts_get` deletes the first timeout of the expired queue, and links it again. -/
theorem WellFormed.get_eq (h : WellFormed T []) {xs : List Ptr} (hxs : T.list .expired = p :: xs) :
    T.get = some (p, (T.del p).again p) := by
  have hpending := ((h.mem p .expired).mp (by simp [hxs])).1
  have hdel : T.del p =
      (T.unlink .expired p).modify p fun t => { t with pending := none } := by
    simp [Timeouts.del, hpending, clearIfEmpty]
  rw [Timeouts.get, hxs, hdel]
  rfl

theorem WellFormed.again (h : WellFormed T []) : WellFormed (T.again p) [] := by
  unfold Timeouts.again readd
  split
  · dsimp only
    split <;> exact h.sched List.not_mem_nil
  · exact h

theorem WellFormed.get (h : WellFormed T []) {r : Ptr × Timeouts} (hr : T.get = some r) :
    WellFormed r.2 [] := by
  cases hxs : T.list .expired with
  | nil => simp [Timeouts.get, hxs] at hr
  | cons p xs =>
    rw [h.get_eq hxs] at hr
    cases hr
    exact (h.del List.not_mem_nil).again

end Get

section Where

/-- A timeout is in the expired queue exactly if it is linked and due. -/
theorem WellFormed.mem_expired_iff (h : WellFormed T []) :
    p ∈ T.list .expired ↔
      (T.timeout p).pending ≠ none ∧ (T.timeout p).expires ≤ T.curtime := by
  have hmem := h.mem p
  constructor
  · intro hp
    exact ⟨by simp [((hmem _).mp hp).1], h.due p hp⟩
  · rintro ⟨hlinked, hdue⟩
    obtain ⟨l, hl⟩ := Option.ne_none_iff_exists'.mp hlinked
    have hp := (hmem l).mpr ⟨hl, List.not_mem_nil⟩
    cases l with
    | expired => exact hp
    | wheel i j => exact absurd (h.fits p i j hp).lt (Nat.not_lt.mpr (BitVec.le_def.mp hdue))

/-- A timeout is in a slot exactly if it is linked and not due. -/
theorem WellFormed.mem_inSlots_iff (h : WellFormed T []) :
    p ∈ T.inSlots ↔ (T.timeout p).pending ≠ none ∧ T.curtime < (T.timeout p).expires := by
  have hmem := h.mem p
  simp only [inSlots, List.mem_flatMap, List.mem_finRange, true_and]
  constructor
  · rintro ⟨i, j, hp⟩
    exact ⟨by simp [((hmem _).mp hp).1], BitVec.lt_def.mpr (h.fits p i j hp).lt⟩
  · rintro ⟨hlinked, hlt⟩
    obtain ⟨l, hl⟩ := Option.ne_none_iff_exists'.mp hlinked
    have hp := (hmem l).mpr ⟨hl, List.not_mem_nil⟩
    cases l with
    | expired => exact absurd (h.due p hp) (BitVec.not_le.mpr hlt)
    | wheel i j => exact ⟨i, j, hp⟩

end Where

end JamSched.Timeouts
