import JamSched.Time.Refinement

/-!
# Emptying the expired queue

The loop over `timeouts_get` in `NotifyAllTimeouts` and in the destructor of `Timer`. Timeouts with
an interval are linked again in the middle of the loop, but for a time that is still to come.
-/
namespace JamSched.Timeouts

open Machine

variable {T T' : Timeouts} {p q : Ptr} {xs : List Ptr}

/-- `while ((timeOut = timeouts_get(..)))`: what the loop gets, for so many rounds at most. -/
def getAll : Nat → Timeouts → List Ptr × Timeouts
  | 0, T => ([], T)
  | n + 1, T =>
    match T.get with
    | none => ([], T)
    | some (p, T) => (p :: (getAll n T).1, (getAll n T).2)

/-- The next firing of a timeout does not wrap around. -/
def NoWrap (T : Timeouts) (p : Ptr) : Prop :=
  (T.timeout p).isInt = true → 0 < (T.timeout p).interval →
    T.curtime.toNat + (T.timeout p).interval.toNat < 2 ^ 64

section Periodic

/-- A timeout that has expired is to fire next at the first of the times that are a multiple of its
interval later and that are still to come. -/
theorem next_spec (hinterval : 0 < (T.timeout p).interval)
    (hdue : (T.timeout p).expires ≤ T.curtime)
    (hwrap : T.curtime.toNat + (T.timeout p).interval.toNat < 2 ^ 64) :
    (∃ k, (T.deadlines.next p).toNat =
      (T.timeout p).expires.toNat + (k + 1) * (T.timeout p).interval.toNat) ∧
    T.curtime < T.deadlines.next p ∧
    (T.deadlines.next p).toNat ≤ T.curtime.toNat + (T.timeout p).interval.toNat := by
  rw [BitVec.le_def] at hdue
  have hinterval : 0 < (T.timeout p).interval.toNat := BitVec.lt_def.mp hinterval
  have hsum : ((T.timeout p).expires + (T.timeout p).interval).toNat =
      (T.timeout p).expires.toNat + (T.timeout p).interval.toNat := by
    rw [BitVec.toNat_add, Nat.mod_eq_of_lt (by omega)]
  by_cases hle : (T.timeout p).expires + (T.timeout p).interval ≤ T.curtime
  · have hnext : T.deadlines.next p = T.curtime + ((T.timeout p).interval -
        (T.curtime - ((T.timeout p).expires + (T.timeout p).interval)) %
          (T.timeout p).interval) := if_pos hle
    have hmod : ((T.curtime - ((T.timeout p).expires + (T.timeout p).interval)) %
        (T.timeout p).interval).toNat = (T.curtime.toNat - ((T.timeout p).expires.toNat +
          (T.timeout p).interval.toNat)) % (T.timeout p).interval.toNat := by
      rw [BitVec.toNat_umod, BitVec.toNat_sub_of_le hle, hsum]
    rw [BitVec.le_def, hsum] at hle
    generalize (T.timeout p).expires.toNat = e at *
    generalize hi : (T.timeout p).interval.toNat = i at *
    generalize hc : T.curtime.toNat = c at *
    have hlt := Nat.mod_lt (c - (e + i)) hinterval
    have hdiv := Nat.div_add_mod (c - (e + i)) i
    have htoNat : (T.deadlines.next p).toNat = c + (i - (c - (e + i)) % i) := by
      rw [hnext, BitVec.toNat_add, BitVec.toNat_sub_of_le (by rw [BitVec.le_def, hmod]; omega),
        hmod, hi, hc, Nat.mod_eq_of_lt (by omega)]
    rw [BitVec.lt_def, htoNat, hc]
    refine ⟨⟨(c - (e + i)) / i + 1, ?_⟩, by omega, by omega⟩
    rw [Nat.add_mul, Nat.add_mul, Nat.one_mul, Nat.mul_comm _ i]
    omega
  · have hnext : T.deadlines.next p = (T.timeout p).expires + (T.timeout p).interval := if_neg hle
    rw [BitVec.le_def, hsum, Nat.not_le] at hle
    rw [BitVec.lt_def, hnext, hsum]
    exact ⟨⟨0, by omega⟩, hle, by omega⟩

end Periodic

section Loop

theorem again_of_not (h : ¬ ((T.timeout p).isInt = true ∧ 0 < (T.timeout p).interval)) :
    T.again p = T := if_neg h

theorem again_eq (h : (T.timeout p).isInt = true ∧ 0 < (T.timeout p).interval) :
    T.again p = T.sched p (T.deadlines.next p) := (if_pos h).trans readd_eq_sched

/-- What becomes of a timeout that the loop gets. -/
structure Fired (curtime : TimeoutT) (t t' : Timeout) : Prop where
  flags : t'.flags = t.flags
  interval : t'.interval = t.interval
  /-- It is linked again if it has an interval, and only then. -/
  linked : t'.pending ≠ none ↔ t.isInt = true ∧ 0 < t.interval
  /-- Then it is for a time to come, a multiple of the interval after the last one. -/
  later : t'.pending ≠ none → curtime < t'.expires ∧
    ∃ k, t'.expires.toNat = t.expires.toNat + (k + 1) * t.interval.toNat

theorem Moved.fired {t t₁ t₂ : Timeout} {curtime : TimeoutT} (h : Moved t t₁)
    (hfired : Fired curtime t₁ t₂) : Fired curtime t t₂ where
  flags := hfired.flags.trans h.flags
  interval := hfired.interval.trans h.interval
  linked := by
    rw [← h.isInt, ← h.interval]
    exact hfired.linked
  later := by
    rw [← h.expires, ← h.interval]
    exact hfired.later

/-- What one round of the loop does. -/
structure Gotten (T : Timeouts) (p : Ptr) (T' : Timeouts) : Prop where
  curtime : T'.curtime = T.curtime
  others : ∀ q, q ≠ p → T'.timeout q = T.timeout q
  fired : Fired T.curtime (T.timeout p) (T'.timeout p)

theorem WellFormed.gotten (h : WellFormed T []) (hxs : T.list .expired = p :: xs)
    (hwrap : T.NoWrap p) : Gotten T p ((T.del p).again p) ∧
      ((T.del p).again p).list .expired = xs := by
  have hdue := h.due p (by simp [hxs])
  have hdel := h.del (p := p) List.not_mem_nil
  have hlist : (T.del p).list .expired = xs := by
    rw [h.list_del List.not_mem_nil, hxs, List.erase_cons_head]
  by_cases hint : (T.timeout p).isInt = true ∧ 0 < (T.timeout p).interval
  · have hnext := next_spec (T := T.del p) (p := p) (by simpa using hint.2) (by simpa using hdue)
      (by simpa using hwrap hint.1 hint.2)
    rw [curtime_del] at hnext
    have hplace : (T.del p).place ((T.del p).deadlines.next p) ≠ .expired := by
      rw [Ne, place_eq_expired_iff, curtime_del, BitVec.not_le]
      exact hnext.2.1
    rw [again_eq (by simpa [Timeout.isInt] using hint), Timeouts.sched,
      del_of_none (T := T.del p) (by simp)]
    refine ⟨⟨?_, fun q hq => ?_, ?_, ?_, ?_, fun _ => ?_⟩, ?_⟩
    · rw [curtime_link, curtime_del]
    · rw [timeout_link, if_neg hq, timeout_del, if_neg hq]
    · simp
    · simp
    · simpa using hint
    · have hlater := And.intro hnext.2.1 hnext.1
      simpa using hlater
    · rw [list_link, if_neg hplace.symm, hlist]
  · rw [again_of_not (by simpa [Timeout.isInt] using hint)]
    refine ⟨⟨curtime_del, fun q hq => ?_, ?_, ?_, ?_, fun hlinked => ?_⟩, hlist⟩
    · rw [timeout_del, if_neg hq]
    · simp
    · simp
    · simpa using hint
    · simp at hlinked

/-- What the whole loop does. -/
structure Emptied (T T' : Timeouts) : Prop where
  expired : T'.list .expired = []
  curtime : T'.curtime = T.curtime
  others : ∀ q, q ∉ T.list .expired → T'.timeout q = T.timeout q
  fired : ∀ p ∈ T.list .expired, Fired T.curtime (T.timeout p) (T'.timeout p)

/-- The loop gets every timeout that has expired, each once and in the order of the queue, although
timeouts are linked again meanwhile. -/
theorem WellFormed.getAll (h : WellFormed T []) (hwrap : ∀ p ∈ T.list .expired, T.NoWrap p)
    {n : Nat} (hn : (T.list .expired).length < n) :
    (getAll n T).1 = T.list .expired ∧ WellFormed (getAll n T).2 [] ∧
      Emptied T (getAll n T).2 := by
  induction n generalizing T with
  | zero => exact absurd hn (Nat.not_lt_zero _)
  | succ n ih =>
    cases hxs : T.list .expired with
    | nil =>
      have hget : T.get = none := by simp [Timeouts.get, hxs]
      simp only [Timeouts.getAll, hget]
      exact ⟨trivial, h, hxs, rfl, fun _ _ => rfl, by simp [hxs]⟩
    | cons p xs =>
      obtain ⟨hgotten, hrest⟩ := h.gotten hxs (hwrap p (by simp [hxs]))
      have hnodup := h.nodup .expired
      rw [hxs, List.nodup_cons] at hnodup
      have hne : ∀ q ∈ xs, q ≠ p := fun q hq heq => hnodup.1 (heq ▸ hq)
      have hT' := h.get (h.get_eq hxs)
      have hwrap' : ∀ q ∈ ((T.del p).again p).list .expired, ((T.del p).again p).NoWrap q := by
        intro q hq
        rw [hrest] at hq
        have hq' := hwrap q (by simp [hxs, hq])
        rw [NoWrap, hgotten.others q (hne q hq), hgotten.curtime]
        exact hq'
      obtain ⟨hall, hwf, hemptied⟩ := ih hT' hwrap' (by
        rw [hrest]
        rw [hxs, List.length_cons] at hn
        exact Nat.lt_of_succ_lt_succ hn)
      simp only [Timeouts.getAll, h.get_eq hxs]
      refine ⟨congrArg (p :: ·) (hall.trans hrest), hwf, hemptied.expired,
        hemptied.curtime.trans hgotten.curtime, fun q hq => ?_, fun q hq => ?_⟩
      · rw [hxs, List.mem_cons, not_or] at hq
        rw [hemptied.others q (by rw [hrest]; exact hq.2), hgotten.others q hq.1]
      · rw [hxs, List.mem_cons] at hq
        rcases hq with rfl | hq
        · rw [hemptied.others q (by rw [hrest]; exact hnodup.1)]
          exact hgotten.fired
        · have hfired := hemptied.fired q (by rw [hrest]; exact hq)
          rwa [hgotten.curtime, hgotten.others q (hne q hq)] at hfired

end Loop

section Notify

/-- The number of rounds after which `timeouts_get` finds nothing more. -/
def rounds (T : Timeouts) : Nat := (T.list .expired).length + 1

/-- The timeouts that a loop over `timeouts_get` gets after `timeouts_update`, and what becomes of
all timeouts. -/
structure Notified (T : Timeouts) (now : TimeoutT) (r : List Ptr × Timeouts) : Prop where
  nodup : r.1.Nodup
  mem : ∀ p, p ∈ r.1 ↔ (T.timeout p).pending ≠ none ∧ (T.timeout p).expires ≤ now
  fired : ∀ p ∈ r.1, Fired now (T.timeout p) (r.2.timeout p)
  others : ∀ p, p ∉ r.1 → Moved (T.timeout p) (r.2.timeout p)
  expired : r.2.list .expired = []

theorem WellFormed.notified (h : WellFormed T []) {now : TimeoutT} (hle : T.curtime ≤ now)
    (hwrap : ∀ p, (T.timeout p).pending ≠ none → (T.timeout p).isInt = true →
      0 < (T.timeout p).interval → now.toNat + (T.timeout p).interval.toNat < 2 ^ 64) :
    Notified T now (Timeouts.getAll (T.update now).rounds (T.update now)) := by
  have hupdated := h.update hle
  have hmoved := h.timeout_update hle
  have hcurtime := h.curtime_update hle
  have hnoWrap : ∀ p ∈ (T.update now).list .expired, (T.update now).NoWrap p := by
    intro p hp
    have hlinked := (hupdated.mem_expired_iff.mp hp).1
    rw [Ne, (hmoved p).linked] at hlinked
    rw [NoWrap, (hmoved p).isInt, (hmoved p).interval, hcurtime]
    exact hwrap p hlinked
  obtain ⟨hgot, -, hemptied⟩ := hupdated.getAll (n := (T.update now).rounds) hnoWrap
    (Nat.lt_succ_self _)
  refine ⟨?_, fun p => ?_, fun p hp => ?_, fun p hp => ?_, hemptied.expired⟩
  · rw [hgot]
    exact hupdated.nodup _
  · rw [hgot, hupdated.mem_expired_iff, hcurtime, (hmoved p).expires, Ne, (hmoved p).linked]
  · have hfired := hemptied.fired p (hgot ▸ hp)
    rw [hcurtime] at hfired
    exact (hmoved p).fired hfired
  · rw [hemptied.others p (hgot ▸ hp)]
    exact hmoved p

/-- A timeout that fires at 10, 20 and so on. -/
def periodic : Timeouts := (Timeouts.timeoutInit {} 0 1).add 0 10

end Notify

end JamSched.Timeouts
