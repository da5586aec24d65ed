import JamSched.Time.Linked
import JamSched.Core.Wheel
import JamSched.Machine.Simulation

/-!
# The timing wheel refines a list of deadlines

`Deadlines` says what the timing wheel is for: an unordered list of entries with their deadlines,
all of which are compared with the time whenever it advances, and a queue of the entries that are
due. In every run of calls, `timeouts_get` returns from the four wheels what it may return from
the list.
-/
namespace JamSched

open Machine

/-- The timeouts as their users see them. -/
structure Deadlines where
  wheel : Wheel Ptr TimeoutT
  flags : Ptr → Nat
  expires : Ptr → TimeoutT
  interval : Ptr → TimeoutT

/-- A call of the wheel; `get` with what it returns. -/
inductive Timeouts.Call where
  | timeoutInit (p : Ptr) (flags : Nat)
  | add (p : Ptr) (timeout : TimeoutT)
  | del (p : Ptr)
  | update (curtime : TimeoutT)
  | get (p : Option Ptr)

namespace Deadlines

variable (S : Deadlines)

def sched (p : Ptr) (expires : TimeoutT) : Deadlines :=
  { S with
    wheel := (S.wheel.del p).add p expires
    expires := Function.update S.expires p expires }

/-- The first of the times `expires + interval`, `expires + 2 * interval` and so on to come. -/
def next (p : Ptr) : TimeoutT :=
  let expires := S.expires p + S.interval p
  if expires ≤ S.wheel.curtime then
    S.wheel.curtime + (S.interval p - (S.wheel.curtime - expires) % S.interval p)
  else expires

def isInt (p : Ptr) : Bool := S.flags p &&& 1 ≠ 0

def isAbs (p : Ptr) : Bool := S.flags p &&& 2 ≠ 0

def add (p : Ptr) (timeout : TimeoutT) : Deadlines :=
  let S' := if S.isInt p then
      { S with interval := Function.update S.interval p (if 1 < timeout then timeout else 1) }
    else S
  S'.sched p (if S.isAbs p then timeout else S.wheel.curtime + timeout)

/-- Timeouts with an interval go back on the list. -/
def again (p : Ptr) : Deadlines :=
  if S.isInt p ∧ 0 < S.interval p then S.sched p (S.next p) else S

def call : Timeouts.Call → Option Deadlines
  | .timeoutInit p flags => some { S with
      flags := Function.update S.flags p flags
      expires := Function.update S.expires p 0
      interval := Function.update S.interval p 0 }
  | .add p timeout => some (S.add p timeout)
  | .del p => some { S with wheel := S.wheel.del p }
  | .update curtime => some { S with wheel := S.wheel.update curtime }
  | .get none => if S.wheel.expired = [] then some S else none
  | .get (some p) => match S.wheel.get with
    | some (q, wheel) => if q = p then some ({ S with wheel }.again p) else none
    | none => none

/-- The list may be in another order. -/
structure Reorder (S S' : Deadlines) : Prop where
  wheel : S.wheel.Reorder S'.wheel
  flags : S'.flags = S.flags
  expires : S'.expires = S.expires
  interval : S'.interval = S.interval

/-- A call, whatever the order of the list is. -/
def Calls (S : Deadlines) (c : Timeouts.Call) (S' : Deadlines) : Prop :=
  ∃ S₀, S.Reorder S₀ ∧ S₀.call c = some S'

variable {S} {S₁ S₂ : Deadlines} {p : Ptr} {expires : TimeoutT}

theorem Reorder.refl : S.Reorder S := ⟨.refl _, rfl, rfl, rfl⟩

theorem Reorder.trans (h : S.Reorder S₁) (h' : S₁.Reorder S₂) : S.Reorder S₂ where
  wheel := h.wheel.trans h'.wheel
  flags := h'.flags.trans h.flags
  expires := h'.expires.trans h.expires
  interval := h'.interval.trans h.interval

theorem Reorder.sched (h : S.Reorder S₁) : (S.sched p expires).Reorder (S₁.sched p expires) where
  wheel := (h.wheel.del p).add p expires
  flags := h.flags
  expires := by simp only [Deadlines.sched, h.expires]
  interval := h.interval

theorem Reorder.again (h : S.Reorder S₁) : (S.again p).Reorder (S₁.again p) := by
  have hnext : S₁.next p = S.next p := by
    simp only [next, h.wheel.curtime, h.expires, h.interval]
  have hint : S₁.isInt p = S.isInt p := by rw [isInt, isInt, h.flags]
  simp only [Deadlines.again, hint, h.interval, hnext]
  split
  · exact h.sched
  · exact h

end Deadlines

namespace Timeouts

open Deadlines

variable {T T' : Timeouts} {p q : Ptr} {expires now : TimeoutT}

theorem get_isNone : T.get.isNone = true ↔ T.list .expired = [] := by
  unfold Timeouts.get
  split <;> simp_all

/-- A call of the timing wheel. Callers initialize no timeout that is linked, and the clock is
steady. -/
def step (T : Timeouts) : Call → Option Timeouts
  | .timeoutInit p flags =>
    if (T.timeout p).pending = none then some (T.timeoutInit p flags) else none
  | .add p timeout => some (T.add p timeout)
  | .del p => some (T.del p)
  | .update curtime => if T.curtime ≤ curtime then some (T.update curtime) else none
  | .get none => if T.get.isNone then some T else none
  | .get (some p) => T.get.bind fun r => if r.1 = p then some r.2 else none

theorem wellFormed_init : WellFormed {} [] where
  mem p l := by simp
  nodup l := List.nodup_nil
  inUse i j := by simp
  fits p i j hp := by cases hp
  due p hp := by cases hp

theorem WellFormed.step (h : WellFormed T []) {c : Call} (hc : T.step c = some T') :
    WellFormed T' [] := by
  cases c with
  | timeoutInit p flags =>
    simp only [Timeouts.step] at hc
    split at hc
    · next hp =>
      cases hc
      exact h.timeoutInit hp flags
    · cases hc
  | add p timeout =>
    cases hc
    exact h.add timeout
  | del p =>
    cases hc
    exact h.del List.not_mem_nil
  | update curtime =>
    simp only [Timeouts.step] at hc
    split at hc
    · next hle =>
      cases hc
      exact h.update hle
    · cases hc
  | get r =>
    cases r with
    | none =>
      simp only [Timeouts.step] at hc
      split at hc
      · cases hc
        exact h
      · cases hc
    | some p =>
      obtain ⟨r, hr, hif⟩ := Option.bind_eq_some_iff.mp hc
      split at hif
      · cases hif
        exact h.get hr
      · cases hif

theorem WellFormed.run {cs : List Call} (hr : Machine.run Timeouts.step {} cs = some T) :
    WellFormed T [] :=
  run_invariant (I := fun T => WellFormed T []) (fun _ _ _ h hc => h.step hc) wellFormed_init hr

section Abstraction

/-- What the users see of the timing wheel. -/
def deadlines (T : Timeouts) : Deadlines where
  wheel :=
    { curtime := T.curtime
      pending := T.inSlots.map fun p => (p, (T.timeout p).expires)
      expired := T.list .expired }
  flags p := (T.timeout p).flags
  expires p := (T.timeout p).expires
  interval p := (T.timeout p).interval

theorem WellFormed.nodup_pending (h : WellFormed T []) :
    T.deadlines.wheel.pending.Nodup :=
  (h.nodup_inSlots.map fun _ _ heq => (Prod.mk.inj heq).1)

theorem WellFormed.mem_pending (h : WellFormed T []) {e : Ptr × TimeoutT} :
    e ∈ T.deadlines.wheel.pending ↔ (T.timeout e.1).pending ≠ none ∧
      (T.timeout e.1).expires = e.2 ∧ T.curtime < e.2 := by
  have hin := h.mem_inSlots_iff (p := e.1)
  simp only [deadlines, List.mem_map]
  grind

/-- A list is that of the pending timeouts, in some order, if it has the same entries. -/
theorem WellFormed.pending_perm (h : WellFormed T []) {l : List (Ptr × TimeoutT)} (hl : l.Nodup)
    (hmem : ∀ e, e ∈ l ↔ (T.timeout e.1).pending ≠ none ∧ (T.timeout e.1).expires = e.2 ∧
      T.curtime < e.2) : T.deadlines.wheel.pending.Perm l :=
  (List.perm_ext_iff_of_nodup h.nodup_pending hl).mpr fun e => h.mem_pending.trans (hmem e).symm

theorem WellFormed.deadlines_del (h : WellFormed T []) (p : Ptr) :
    { T.deadlines with wheel := T.deadlines.wheel.del p : Deadlines }.Reorder
      (T.del p).deadlines where
  wheel := by
    refine ⟨curtime_del, ?_, ?_⟩
    · show (T.del p).list .expired = (T.list .expired).filter fun b => b ≠ p
      rw [h.list_del List.not_mem_nil, (h.nodup _).erase_eq_filter]
      exact List.filter_congr fun q _ => by by_cases hq : q = p <;> simp [hq]
    · refine (h.del List.not_mem_nil).pending_perm (h.nodup_pending.filter _) fun e => ?_
      show e ∈ T.deadlines.wheel.pending.filter (fun e => e.1 ≠ p) ↔ _
      rw [List.mem_filter, h.mem_pending, timeout_del, curtime_del]
      grind
  flags := by
    funext q
    simp only [deadlines, timeout_del]
    grind
  expires := by
    funext q
    simp only [deadlines, timeout_del]
    grind
  interval := by
    funext q
    simp only [deadlines, timeout_del]
    grind

theorem WellFormed.wheel_link (h : WellFormed T []) (hp : (T.timeout p).pending = none)
    (expires : TimeoutT) :
    (T.deadlines.wheel.add p expires).Reorder (T.link p expires).deadlines.wheel := by
  have hlink : WellFormed (T.link p expires) [] := (h.out hp).link List.not_mem_nil
  have hplace : T.place expires = .expired ↔ ¬ T.curtime < expires := by
    rw [place_eq_expired_iff, BitVec.not_lt]
  have hexpired : (T.link p expires).list .expired =
      if T.curtime < expires then T.list .expired else T.list .expired ++ [p] := by
    rw [list_link]
    grind
  unfold Wheel.add
  split
  · next hlt =>
    refine ⟨curtime_link, hexpired.trans (if_pos hlt), hlink.pending_perm ?_ fun e => ?_⟩
    · refine List.nodup_append.mpr ⟨h.nodup_pending, List.nodup_singleton _, ?_⟩
      intro e he e' he'
      have hlinked := (h.mem_pending.mp he).1
      grind
    · have hlt : T.curtime < expires := hlt
      rw [List.mem_append, h.mem_pending, List.mem_singleton, timeout_link, curtime_link]
      grind
  · next hge =>
    refine ⟨curtime_link, hexpired.trans (if_neg hge),
      hlink.pending_perm h.nodup_pending fun e => ?_⟩
    have hge : ¬ T.curtime < expires := hge
    rw [h.mem_pending, timeout_link, curtime_link]
    grind

theorem WellFormed.deadlines_sched (h : WellFormed T []) (p : Ptr) (expires : TimeoutT) :
    (T.deadlines.sched p expires).Reorder (T.sched p expires).deadlines where
  wheel := by
    have hdel := h.del (p := p) List.not_mem_nil
    exact ((h.deadlines_del p).wheel.add p expires).trans (hdel.wheel_link (by simp) expires)
  flags := by
    funext q
    simp only [deadlines, Timeouts.sched, timeout_link, timeout_del]
    grind [Deadlines.sched]
  expires := by
    funext q
    simp only [deadlines, Timeouts.sched, timeout_link, timeout_del, Deadlines.sched,
      Function.update_apply]
    grind
  interval := by
    funext q
    simp only [deadlines, Timeouts.sched, timeout_link, timeout_del, Deadlines.sched]
    grind

/-- What was collected and is due goes to the expired queue, in the order of the slots. -/
theorem expired_resched {todo : List Ptr} : (T.resched todo).list .expired =
    T.list .expired ++ todo.filter fun p => ¬ T.curtime < (T.timeout p).expires := by
  induction todo generalizing T with
  | nil => simp [resched]
  | cons p todo ih =>
    have hrest : (todo.filter fun q => ¬ T.curtime < ((T.anew p).timeout q).expires) =
        todo.filter fun q => ¬ T.curtime < (T.timeout q).expires := by
      refine List.filter_congr fun q _ => ?_
      rw [timeout_anew]
      split <;> simp_all
    have hplace : T.place (T.timeout p).expires = .expired ↔ (T.timeout p).expires ≤ T.curtime :=
      place_eq_expired_iff
    rw [resched_cons, ih, curtime_anew, hrest, list_anew, List.filter_cons]
    rw [← BitVec.not_lt] at hplace
    by_cases hp : T.curtime < (T.timeout p).expires
    · have hne : .expired ≠ T.place (T.timeout p).expires := fun heq => hplace.mp heq.symm hp
      simp [hne, hp]
    · simp [hplace.mpr hp, hp]

/-- All that is due was collected. -/
theorem WellFormed.filter_inMarked (h : WellFormed T []) {marks : Fin 4 → WheelT}
    (hmarks : T.Covers now marks) :
    (((List.finRange 4).flatMap (T.inMarked marks)).filter fun p => ¬ now < (T.timeout p).expires) =
      T.inSlots.filter fun p => ¬ now < (T.timeout p).expires := by
  simp only [inSlots, inMarked, List.filter_flatMap]
  refine List.flatMap_congr fun i _ => ?_
  refine flatMap_filter_of_eq_nil fun j hj => ?_
  refine List.filter_eq_nil_iff.mpr fun p hp => ?_
  have hfits := h.fits p i j hp
  have hlt : now < (T.timeout p).expires := by
    by_contra hdue
    have hdue := Nat.le_of_not_lt (mt BitVec.lt_def.mpr hdue)
    have hmarked := hmarks i j _ hfits (Ticks.tick_mono hdue)
    rw [hj] at hmarked
    cases hmarked
  simp [hlt]

theorem WellFormed.deadlines_update (h : WellFormed T []) (hle : T.curtime ≤ now) :
    { T.deadlines with wheel := T.deadlines.wheel.update now : Deadlines }.Reorder
      (T.update now).deadlines := by
  have hupdated := h.update hle
  have hmoved := h.timeout_update hle
  obtain ⟨marks, hupdate, hmarks⟩ := h.update_eq hle
  have hexpired : (T.update now).list .expired = T.list .expired ++
      T.inSlots.filter fun p => ¬ now < (T.timeout p).expires := by
    rw [hupdate, expired_resched, ← h.filter_inMarked hmarks]
    rfl
  refine ⟨⟨h.curtime_update hle, ?_, ?_⟩, ?_, ?_, ?_⟩
  · show (T.update now).list .expired = _
    rw [hexpired]
    simp [deadlines, Wheel.update, List.filter_map, Function.comp_def]
  · refine hupdated.pending_perm (h.nodup_pending.filter _) fun e => ?_
    have hmoved := hmoved e.1
    show e ∈ T.deadlines.wheel.pending.filter (fun e => now < e.2) ↔ _
    have hlinked := hmoved.linked
    have hlt (hnow : now < e.2) : T.curtime < e.2 :=
      BitVec.lt_def.mpr (Nat.lt_of_le_of_lt hle hnow)
    rw [List.mem_filter, h.mem_pending, h.curtime_update hle, hmoved.expires]
    grind
  · funext q
    exact (hmoved q).flags
  · funext q
    exact (hmoved q).expires
  · funext q
    exact (hmoved q).interval

end Abstraction

section Simulation

theorem deadlines_modify_interval {x : TimeoutT} :
    (T.modify p fun t => { t with interval := x }).deadlines =
      { T.deadlines with interval := Function.update T.deadlines.interval p x } := by
  have hupdate (q : Ptr) : (T.modify p fun t => { t with interval := x }).timeout q =
      { T.timeout q with interval := Function.update T.deadlines.interval p x q } := by
    rw [timeout_modify, Function.update_apply]
    split
    · next hqp => rw [hqp]
    · rfl
  simp only [deadlines, hupdate]
  rfl

theorem add_eq_sched {timeout : TimeoutT} : T.add p timeout =
    (if (T.timeout p).isInt then
      T.modify p fun t => { t with interval := if 1 < timeout then timeout else 1 }
    else T).sched p (if (T.timeout p).isAbs then timeout else T.curtime + timeout) := by
  unfold add
  dsimp only
  by_cases habs : (T.timeout p).isAbs = true
  · rw [if_pos habs, if_pos habs]
  · rw [if_neg habs, if_neg habs]
    split <;> rfl

@[simp] theorem flags_add {timeout : TimeoutT} :
    ((T.add p timeout).timeout q).flags = (T.timeout q).flags := by
  rw [add_eq_sched, sched, timeout_link, timeout_del]
  split <;> grind [timeout_del, timeout_modify]

theorem WellFormed.deadlines_add (h : WellFormed T []) (p : Ptr) (timeout : TimeoutT) :
    (T.deadlines.add p timeout).Reorder (T.add p timeout).deadlines := by
  rw [add_eq_sched]
  unfold Deadlines.add
  by_cases hint : (T.timeout p).isInt = true
  · have hmodify := h.modify (p := p) (f := fun t =>
      { t with interval := if 1 < timeout then timeout else 1 }) rfl fun _ => rfl
    have hsched := hmodify.deadlines_sched p
    rw [deadlines_modify_interval] at hsched
    have hint' : T.deadlines.isInt p = true := hint
    simp only [hint, hint', if_true]
    exact hsched _
  · have hint' : ¬ T.deadlines.isInt p = true := hint
    simp only [hint, hint']
    exact h.deadlines_sched p _

theorem readd_eq_sched : T.readd p = T.sched p (T.deadlines.next p) :=
  (apply_ite (T.sched p) _ _ _).symm

theorem WellFormed.deadlines_again (h : WellFormed T []) (p : Ptr) :
    (T.deadlines.again p).Reorder (T.again p).deadlines := by
  by_cases hagain : (T.timeout p).isInt = true ∧ 0 < (T.timeout p).interval
  · have hleft : T.deadlines.again p = T.deadlines.sched p (T.deadlines.next p) := if_pos hagain
    have hright : T.again p = T.readd p := if_pos hagain
    rw [hleft, hright, readd_eq_sched]
    exact h.deadlines_sched p _
  · have hleft : T.deadlines.again p = T.deadlines := if_neg hagain
    have hright : T.again p = T := if_neg hagain
    rw [hleft, hright]
    exact .refl

theorem WellFormed.deadlines_get (h : WellFormed T []) {r : Ptr × Timeouts} (hr : T.get = some r) :
    ∃ wheel, T.deadlines.wheel.get = some (r.1, wheel) ∧
      ({ T.deadlines with wheel } : Deadlines).Reorder (T.del r.1).deadlines ∧
      r.2 = (T.del r.1).again r.1 := by
  cases hxs : T.list .expired with
  | nil => simp [Timeouts.get, hxs] at hr
  | cons p xs =>
    rw [h.get_eq hxs] at hr
    cases hr
    have hdel := h.deadlines_del p
    have hnodup := h.nodup .expired
    have hnotMem : p ∉ T.inSlots := by
      have hexpired := h.mem_expired_iff (p := p)
      have hslots := h.mem_inSlots_iff (p := p)
      have hlt := BitVec.not_le (x := (T.timeout p).expires) (y := T.curtime)
      grind
    refine ⟨T.deadlines.wheel.del p, ?_, hdel, rfl⟩
    rw [hxs, List.nodup_cons] at hnodup
    have hpending : T.deadlines.wheel.pending.filter (fun e => e.1 ≠ p) =
        T.deadlines.wheel.pending := by
      refine List.filter_eq_self.mpr fun e he => ?_
      obtain ⟨q, hq, rfl⟩ := List.mem_map.mp he
      have hne : q ≠ p := fun heq => hnotMem (heq ▸ hq)
      simpa using hne
    have hexpired : (p :: xs).filter (fun q => q ≠ p) = xs := by
      rw [List.filter_cons_of_neg (by simp)]
      refine List.filter_eq_self.mpr fun q hq => ?_
      have hne : q ≠ p := fun heq => hnodup.1 (heq ▸ hq)
      simpa using hne
    have hwheel : T.deadlines.wheel.expired = p :: xs := hxs
    simp only [Wheel.get, Wheel.del, hwheel, hpending, hexpired]

theorem WellFormed.deadlines_timeoutInit (h : WellFormed T [])
    (hp : (T.timeout p).pending = none) (flags : Nat) :
    ({ T.deadlines with
      flags := Function.update T.deadlines.flags p flags
      expires := Function.update T.deadlines.expires p 0
      interval := Function.update T.deadlines.interval p 0 } : Deadlines).Reorder
        (T.timeoutInit p flags).deadlines := by
  have htimeout (q : Ptr) : (T.timeoutInit p flags).timeout q =
      if q = p then { flags } else T.timeout q := timeout_modify
  have hpending : (T.timeoutInit p flags).deadlines.wheel.pending =
      T.deadlines.wheel.pending := by
    refine List.map_congr_left fun q hq => ?_
    have hlinked := (h.mem_inSlots_iff.mp hq).1
    have hne : q ≠ p := fun heq => hlinked (heq ▸ hp)
    rw [htimeout, if_neg hne]
  refine ⟨⟨rfl, rfl, .of_eq hpending⟩, ?_, ?_, ?_⟩
  all_goals
    funext q
    simp only [deadlines, htimeout, Function.update_apply]
    split <;> rfl

theorem WellFormed.call (h : WellFormed T []) {c : Call} (hc : T.step c = some T') :
    ∃ S, T.deadlines.call c = some S ∧ S.Reorder T'.deadlines := by
  cases c with
  | timeoutInit p flags =>
    simp only [Timeouts.step] at hc
    split at hc
    · next hp =>
      cases hc
      exact ⟨_, rfl, h.deadlines_timeoutInit hp flags⟩
    · cases hc
  | add p timeout =>
    cases hc
    exact ⟨_, rfl, h.deadlines_add p timeout⟩
  | del p =>
    cases hc
    exact ⟨_, rfl, h.deadlines_del p⟩
  | update curtime =>
    simp only [Timeouts.step] at hc
    split at hc
    · next hle =>
      cases hc
      exact ⟨_, rfl, h.deadlines_update hle⟩
    · cases hc
  | get r =>
    cases r with
    | none =>
      simp only [Timeouts.step] at hc
      split at hc
      · next hnone =>
        cases hc
        exact ⟨T.deadlines, if_pos (get_isNone.mp hnone), .refl⟩
      · cases hc
    | some p =>
      obtain ⟨r, hr, hif⟩ := Option.bind_eq_some_iff.mp hc
      split at hif
      · next hp =>
        subst hp
        cases hif
        obtain ⟨wheel, hget, hdel, hagain⟩ := h.deadlines_get hr
        refine ⟨({ T.deadlines with wheel } : Deadlines).again r.1, ?_, ?_⟩
        · simp [Deadlines.call, hget]
        · rw [hagain]
          exact hdel.again.trans ((h.del List.not_mem_nil).deadlines_again r.1)
      · cases hif

/-- A timeout of the lowest wheels expires, one of a wheel above moves down. -/
def cascadeRun : List Call :=
  [.timeoutInit 0 2, .add 0 100, .timeoutInit 1 2, .add 1 5000, .update 150, .get (some 0),
    .get none]

set_option maxRecDepth 20000 in
theorem cascadeRun_some : (run step {} cascadeRun).isSome = true := by decide

end Simulation

end Timeouts

end JamSched
