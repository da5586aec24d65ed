import JamSched.Sync.Channel

/-!
# Wake-ups on a channel

Pushes and pops share a condition variable, and each call wakes one task. If the channel has no
capacity only pops wait, and whoever is woken can use what was pushed. With a capacity the woken
task can be one that cannot go on, which sleeps again and wakes nobody; this is so from three tasks
on, and not for one that pushes and one that pops.
-/
namespace JamSched.Sync

open Machine

namespace Channel

variable {V : Type} {cap this : Nat} {s t : Channel V} {p : Ptr} {l : Label V} {op : Op V}

/-- No task can go on in its call. -/
def Stuck (cap this : Nat) (s : Channel V) : Prop := ∀ p, step cap this s (.next p) = none

/-- Then `mtx` is free, and who is in a call is asleep and has not been woken. -/
theorem Inv.stuck (h : Inv cap s) (hs : Stuck cap this s) :
    s.mtx = none ∧ ∀ p, s.pc p = .idle ∨ ∃ op, s.pc p = .asleep op ∧ p ∈ s.waitList := by
  have hm : s.mtx = none := by
    cases hm : s.mtx with
    | none => rfl
    | some p =>
      have hp := (h.holder p).mpr hm
      have hnext := hs p
      cases hc : s.pc p <;> simp [Channel.step, hc, Pc.holds] at hp hnext
  refine ⟨hm, fun p => ?_⟩
  have hnext := hs p
  cases hc : s.pc p <;> simp [Channel.step, hc, hm] at hnext ⊢
  simp [h.linked p, hc, Pc.sleeps, hnext]

/-! ## Without capacity -/

/-- An element that the holder of `mtx` has pushed and not yet announced, or is about to take. -/
def Pc.inFlight : Pc V → Nat
  | .notify _ | .act .pop => 1
  | _ => 0

def inFlight (s : Channel V) : Nat := s.mtx.elim 0 fun p => (s.pc p).inFlight

/-- While a task is in the wait list, each element is matched by a task on its way to it. -/
def Announced (s : Channel V) : Prop :=
  s.waitList ≠ [] → s.queue.length ≤ s.notified.length + s.inFlight

section Announced

theorem inFlight_goto_of_ne (hm : s.mtx ≠ some p) {u : Channel V} (hmtx : u.mtx = s.mtx)
    (hpc : u.pc = s.pc) (c : Pc V) : (u.goto p c).inFlight = s.inFlight := by
  simp only [inFlight, goto_mtx, hmtx]
  cases hq : s.mtx with
  | none => rfl
  | some q =>
    have hqp : q ≠ p := fun heq => hm (heq ▸ hq)
    simp [goto_pc, hqp, hpc]

theorem notifyOne_mtx : (s.notifyOne this).mtx = s.mtx := by
  simp only [notifyOne]
  split
  · rfl
  · split <;> rfl

/-- The tasks on their way grow with the elements. -/
theorem Announced.of_le (ha : Announced s) (hwait : t.waitList ≠ [] → s.waitList ≠ [])
    (hle : t.queue.length + s.notified.length + s.inFlight ≤
      s.queue.length + t.notified.length + t.inFlight) : Announced t := by
  intro hl
  have hs := ha (hwait hl)
  omega

/-- The holder of `mtx` goes on. -/
theorem Announced.move (ha : Announced s) {u : Channel V} {c : Pc V} (hm : u.mtx = some p)
    (hwait : u.waitList = s.waitList)
    (hle : u.queue.length + s.notified.length + s.inFlight ≤
      s.queue.length + u.notified.length + c.inFlight) : Announced (u.goto p c) := by
  refine ha.of_le (fun hne => hwait ▸ hne) ?_
  have hself : (u.goto p c).inFlight = c.inFlight := by simp [inFlight, goto_mtx, hm, goto_pc]
  rw [hself]
  exact hle

/-- Another task goes on. -/
theorem Announced.other (ha : Announced s) (hm : s.mtx ≠ some p) {u : Channel V} {c : Pc V}
    (hmtx : u.mtx = s.mtx) (hpc : u.pc = s.pc) (hwait : u.waitList = s.waitList)
    (hqueue : u.queue = s.queue) (hnotified : u.notified = s.notified) :
    Announced (u.goto p c) := by
  refine ha.of_le (fun hne => hwait ▸ hne) (Nat.le_of_eq ?_)
  rw [inFlight_goto_of_ne hm hmtx hpc, goto_queue, goto_notified, hqueue, hnotified]

/-- A wake-up in front of `unlock` or `store`. -/
theorem Announced.notify (ha : Announced s) (h : Inv cap s) {c : Pc V}
    (hin : s.inFlight ≤ ((s.notifyOne this).goto p c).inFlight + 1) :
    Announced ((s.notifyOne this).goto p c) := by
  cases hl : s.waitList with
  | nil =>
    rw [notifyOne_nil hl]
    exact fun hne => absurd hl hne
  | cons q w =>
    refine ha.of_le (fun _ => by simp [hl]) ?_
    rw [notifyOne_cons hl (h.untimed q (by simp [hl]))] at hin ⊢
    simp only [goto_queue, goto_notified, List.length_cons]
    omega

theorem Inv.free (h : Inv cap s) {c : Pc V} (hp : s.pc p = c) (hc : c.holds = false) :
    s.mtx ≠ some p := by
  rw [Ne, ← h.holder p, hp, hc]
  simp

theorem Inv.held (h : Inv cap s) {c : Pc V} (hp : s.pc p = c) (hc : c.holds = true) :
    s.mtx = some p ∧ s.inFlight = c.inFlight := by
  have hm := (h.holder p).mp (hp ▸ hc)
  exact ⟨hm, by rw [inFlight, hm, Option.elim, hp]⟩

/-- Nobody waits to push. -/
theorem Inv.pops (h : Inv 0 s) (hp : (s.pc p).waits = some op) : op = .pop := by
  cases op with
  | push v => exact absurd (h.bounded p v hp) (Nat.lt_irrefl 0)
  | pop => rfl

/-- A woken task that finds an element takes it with it. -/
theorem Announced.test (ha : Announced s) (h : Inv 0 s) (hp : s.pc p = .test .pop) :
    Announced ({ s with notified := s.notified.erase p }.goto p
      (if s.pred 0 .pop then .act .pop else .link .pop)) := by
  obtain ⟨hm, hin⟩ := h.held hp rfl
  cases hpred : s.pred 0 .pop with
  | true =>
    have herase := List.length_erase (a := p) (l := s.notified)
    refine ha.move hm rfl ?_
    simp only [hin, if_true, Pc.inFlight, herase]
    split <;> omega
  | false =>
    have hempty : s.queue = [] := h.blocked hp hpred
    exact fun _ => by simp [goto_queue, hempty]

theorem Announced.act (ha : Announced s) (h : Inv cap s) (hp : s.pc p = .act op) :
    Announced ((s.act p op).goto p (.notify op)) := by
  obtain ⟨hm, hin⟩ := h.held hp rfl
  cases op with
  | push v =>
    refine ha.move hm rfl ?_
    simp only [hin, Pc.inFlight, Channel.act, List.length_append, List.length_singleton]
    omega
  | pop =>
    cases hq : s.queue with
    | nil => exact fun _ => by simp [goto_queue, Channel.act, hq]
    | cons v queue =>
      simp only [Channel.act, hq]
      refine ha.move hm rfl ?_
      simp only [hin, hq, Pc.inFlight, List.length_cons]
      omega

theorem Announced.step (h : Inv 0 s) (ha : Announced s) (ht : step 0 this s l = some t) :
    Announced t := by
  have hmutex {p : Ptr} {m : Option Ptr} (c : Pc V) (hnone : s.inFlight = 0) :
      Announced ({ s with mtx := m }.goto p c) := by
    refine ha.of_le id ?_
    simp only [goto_queue, goto_notified]
    omega
  cases l with
  | call p op | close p =>
    simp only [Channel.step] at ht
    split at ht
    · next hp =>
      cases ht
      exact ha.other (h.free hp rfl) rfl rfl rfl rfl rfl
    · cases ht
  | next p =>
    cases hp : s.pc p <;>
      simp only [Channel.step, hp, Option.ite_none_right_eq_some, Option.some.injEq,
        reduceCtorEq] at ht
    case lock op | relock op =>
      obtain ⟨hm, rfl⟩ := ht
      exact hmutex _ (by simp [inFlight, hm])
    case asleep op =>
      obtain ⟨-, rfl⟩ := ht
      exact ha.other (h.free hp rfl) rfl rfl rfl rfl rfl
    all_goals subst ht
    case check op | store =>
      exact ha.other (h.free hp rfl) rfl rfl rfl rfl rfl
    case full v | release op | unlock => exact hmutex _ (h.held hp rfl).2
    case test op =>
      obtain rfl := h.pops (p := p) (by rw [hp]; rfl)
      exact ha.test h hp
    case link op =>
      obtain rfl := h.pops (p := p) (by rw [hp]; rfl)
      have hempty : s.queue = [] := h.linking p _ hp
      exact fun _ => by simp [goto_queue, Channel.link, hempty]
    case act op => exact ha.act h hp
    case notify op =>
      have hin : s.inFlight = 1 := (h.held hp rfl).2
      exact ha.notify h (by omega)
    case closing =>
      refine ha.notify h ?_
      rw [inFlight_goto_of_ne (h.free hp rfl) notifyOne_mtx notifyOne_pc]
      omega

end Announced

/-! ## One task that pushes and one that pops -/

/-- The call that a task is in, up to its `notify_one`. -/
def Pc.current : Pc V → Option (Op V)
  | .check op | .lock op | .test op | .link op | .release op | .asleep op | .relock op | .act op
  | .notify op => some op
  | .full v => some (.push v)
  | .idle | .unlock | .closing | .store => none

/-- The task that makes such calls, if `a` pushes and `b` pops. -/
def Op.task (a b : Ptr) : Op V → Ptr
  | .push _ => a
  | .pop => b

/-- All pushes are calls of `a`, all pops are calls of `b`. -/
def Alone (a b : Ptr) (s : Channel V) : Prop := ∀ p op, (s.pc p).current = some op → p = op.task a b

/-- It is `a` that calls `>>`, and `b` that calls `<<`. -/
def Label.Alone (a b : Ptr) : Label V → Prop
  | .call p op => p = op.task a b
  | _ => True

/-- The holder of `mtx` is about to wake a task. -/
def Notifying (s : Channel V) : Prop := ∃ q op, s.pc q = .notify op

/-- Who is in the wait list cannot go on, unless it is woken next. -/
def Served (cap : Nat) (s : Channel V) : Prop :=
  ∀ p ∈ s.waitList, ∀ op, (s.pc p).current = some op → op.Blocked cap s.queue ∨ s.Notifying

section Served

variable {a b : Ptr}

attribute [local grind =] goto_pc goto_mtx goto_queue goto_isClosed goto_waitList goto_cvStatus
  goto_enabled goto_pushed goto_popped goto_notified Function.update_apply Pc.holds Pc.current
  Op.Blocked Op.task Pc.sleeps

theorem Alone.step (ha : Alone a b s) (hl : l.Alone a b) (ht : step cap this s l = some t) :
    Alone a b t := by
  have hmove {u : Channel V} {p : Ptr} {c : Pc V} (hu : u.pc = s.pc)
      (hc : ∀ op, c.current = some op → (s.pc p).current = some op) : Alone a b (u.goto p c) := by
    intro q op hq
    rw [goto_pc, hu] at hq
    split at hq
    · next hqp => exact ha q op (hqp ▸ hc op hq)
    · exact ha q op hq
  cases l with
  | call p op =>
    simp only [Channel.step] at ht
    split at ht <;> cases ht
    intro q op' hq
    rw [goto_pc] at hq
    split at hq
    · next hqp =>
      cases hq
      exact hqp.trans hl
    · exact ha q op' hq
  | close p =>
    simp only [Channel.step] at ht
    split at ht <;> cases ht
    exact hmove rfl (by simp [Pc.current])
  | next p =>
    cases hc : s.pc p <;>
      simp only [Channel.step, hc, Option.ite_none_right_eq_some, Option.some.injEq,
        reduceCtorEq] at ht
    case lock op =>
      obtain ⟨-, rfl⟩ := ht
      refine hmove rfl ?_
      cases op <;> simp [hc, Op.entry, Pc.current]
    case asleep op =>
      obtain ⟨-, rfl⟩ := ht
      exact hmove rfl (by simp [hc, Pc.current])
    case relock op =>
      obtain ⟨-, rfl⟩ := ht
      exact hmove rfl (by simp [hc, Pc.current])
    all_goals subst ht
    case check op =>
      refine hmove rfl ?_
      cases op <;> grind [checked]
    case full v =>
      refine hmove rfl ?_
      split <;> simp [hc, Pc.current]
    case test op =>
      refine hmove rfl ?_
      split <;> simp [hc, Pc.current]
    case act op =>
      refine hmove ?_ (by simp [hc, Pc.current])
      cases op with
      | push v => rfl
      | pop =>
        simp only [act]
        split <;> rfl
    case notify op => exact hmove notifyOne_pc (by simp [Pc.current])
    case closing => exact hmove notifyOne_pc (by simp [Pc.current])
    all_goals exact hmove rfl (by simp [hc, Pc.current])

/-- Two tasks that call: while one of them wakes a task, nobody but the other is in the list. -/
theorem Alone.waitList (ha : Alone a b s) (h : Inv cap s) (hp : s.pc p = .notify op) {q : Ptr}
    {w : List Ptr} (hl : s.waitList = q :: w) : w = [] := by
  have hcalls {x : Ptr} (hx : x ∈ s.waitList) : x ≠ p ∧ (x = a ∨ x = b) := by
    obtain ⟨hsleeps, -⟩ := (h.linked x).mp hx
    obtain ⟨op', hop⟩ : ∃ op, (s.pc x).current = some op := by
      cases hc : s.pc x <;> simp_all [Pc.sleeps, Pc.current]
    refine ⟨fun hxp => by simp [hxp, hp, Pc.sleeps] at hsleeps, ?_⟩
    have htask := ha x op' hop
    cases op' with
    | push v => exact .inl htask
    | pop => exact .inr htask
  have hself : p = a ∨ p = b := by
    have htask := ha p op (by rw [hp]; rfl)
    cases op with
    | push v => exact .inl htask
    | pop => exact .inr htask
  cases w with
  | nil => rfl
  | cons x w =>
    have hq := hcalls (x := q) (by simp [hl])
    have hx := hcalls (x := x) (by simp [hl])
    have hnodup := h.waitList_nodup
    have hqx : q ≠ x := by
      rintro rfl
      simp [hl] at hnodup
    grind

/-- The task at `p` moves on, the queue stays as it is. -/
theorem Served.goto (hs : Served cap s) {u : Channel V} {c : Pc V} (hpc : u.pc = s.pc)
    (hqueue : u.queue = s.queue) (hwait : ∀ q ∈ u.waitList, q ∈ s.waitList)
    (hp : ∀ op, s.pc p ≠ .notify op) (hc : p ∈ u.waitList → c.current = (s.pc p).current) :
    Served cap (u.goto p c) := by
  intro q hq op hop
  rw [goto_waitList] at hq
  have hcurrent : (s.pc q).current = some op := by
    rw [goto_pc, hpc] at hop
    split at hop
    · next hqp =>
      subst hqp
      rw [← hc hq, hop]
    · exact hop
  rw [goto_queue, hqueue]
  obtain hblocked | ⟨x, op', hx⟩ := hs q (hwait q hq) op hcurrent
  · exact .inl hblocked
  · have hxp : x ≠ p := fun heq => hp op' (heq ▸ hx)
    exact .inr ⟨x, op', by rw [goto_pc, if_neg hxp, hpc, hx]⟩

theorem Inv.notMem_waitList (h : Inv cap s) {c : Pc V} (hp : s.pc p = c)
    (hc : c.sleeps = false) : p ∉ s.waitList := by
  rw [h.linked p, hp, hc]
  simp

/-- The task enters the list because its call cannot go on. -/
theorem Served.link (hs : Served cap s) (h : Inv cap s) (hp : s.pc p = .link op) :
    Served cap ((s.link p).goto p (.release op)) := by
  intro q hq op' hop
  obtain hq | hq := List.mem_append.mp hq
  · have hqp : q ≠ p := fun heq => h.notMem_waitList hp rfl (heq ▸ hq)
    rw [goto_pc, if_neg hqp] at hop
    obtain hblocked | ⟨x, op', hx⟩ := hs q hq op' hop
    · exact .inl hblocked
    · have hxp : x ≠ p := fun heq => by simp [heq, hp] at hx
      exact .inr ⟨x, op', by rw [goto_pc, if_neg hxp]; exact hx⟩
  · rw [goto_pc, if_pos (List.mem_singleton.mp hq)] at hop
    cases hop
    exact .inl (h.linking p op hp)

/-- The list is empty behind the wake-up. -/
theorem Served.notify (h : Inv cap s) (ha : Alone a b s) (hp : s.pc p = .notify op) :
    Served cap ((s.notifyOne this).goto p .unlock) := by
  cases hl : s.waitList with
  | nil =>
    rw [notifyOne_nil hl]
    exact fun q hq => by simp [goto_waitList, hl] at hq
  | cons q w =>
    rw [notifyOne_cons hl (h.untimed q (by simp [hl])), ha.waitList h hp hl]
    exact fun q hq => by simp [goto_waitList] at hq

/-- Whoever stays in the list behind the wake-up of `close` is served as before. -/
theorem Served.closing (hs : Served cap s) (h : Inv cap s) (hp : s.pc p = .closing) :
    Served cap ((s.notifyOne this).goto p .store) := by
  have hfree := h.notMem_waitList hp rfl
  cases hl : s.waitList with
  | nil =>
    rw [notifyOne_nil hl]
    exact hs.goto rfl rfl (fun _ hq => hq) (by simp [hp]) fun hmem => absurd hmem hfree
  | cons q w =>
    rw [notifyOne_cons hl (h.untimed q (by simp [hl]))]
    refine hs.goto rfl rfl (fun x hx => hl ▸ List.mem_cons_of_mem q hx) (by simp [hp])
      fun hmem => absurd (hl ▸ List.mem_cons_of_mem q hmem) hfree

theorem Served.step (hs : Served cap s) (h : Inv cap s) (ha : Alone a b s)
    (ht : step cap this s l = some t) : Served cap t := by
  have hmove {u : Channel V} {p : Ptr} {c c' : Pc V} (hp : s.pc p = c) (hpc : u.pc = s.pc)
      (hqueue : u.queue = s.queue) (hwait : u.waitList = s.waitList)
      (hn : ∀ op, c ≠ .notify op) (hc : c.sleeps = true → c'.current = c.current) :
      Served cap (u.goto p c') := by
    refine hs.goto hpc hqueue (fun q hq => hwait ▸ hq) (fun op => hp ▸ hn op) fun hmem => ?_
    rw [hwait] at hmem
    rw [hp]
    exact hc (hp ▸ ((h.linked p).mp hmem).1)
  cases l with
  | call p op | close p =>
    simp only [Channel.step] at ht
    split at ht
    · next hp =>
      cases ht
      exact hmove hp rfl rfl rfl (by simp) (by simp [Pc.sleeps])
    · cases ht
  | next p =>
    cases hp : s.pc p <;>
      simp only [Channel.step, hp, Option.ite_none_right_eq_some, Option.some.injEq,
        reduceCtorEq] at ht
    case lock op =>
      obtain ⟨-, rfl⟩ := ht
      exact hmove hp rfl rfl rfl (by simp) (by simp [Pc.sleeps])
    case asleep op =>
      obtain ⟨-, rfl⟩ := ht
      exact hmove hp rfl rfl rfl (by simp) fun _ => rfl
    case relock op =>
      obtain ⟨-, rfl⟩ := ht
      exact hmove hp rfl rfl rfl (by simp) (by simp [Pc.sleeps])
    all_goals subst ht
    case link op => exact hs.link h hp
    case act op => exact fun _ _ _ _ => .inr ⟨p, op, by rw [goto_pc, if_pos rfl]⟩
    case notify op => exact .notify h ha hp
    case closing => exact hs.closing h hp
    case release op => exact hmove hp rfl rfl rfl (by simp) fun _ => rfl
    all_goals exact hmove hp rfl rfl rfl (by simp) (by simp [Pc.sleeps])

end Served

/-! ## Both -/

/-- If the channel has no capacity, or if one task pushes and one pops, no wake-up is lost: where
no task can go on, each is idle, or pops from an empty queue, or pushes into a full one. -/
theorem no_lost_wakeup (cvStatus : Ptr → CvStatus) {ls : List (Label V)}
    (hcap : cap = 0 ∨ ∃ a b, ∀ l ∈ ls, l.Alone a b)
    (hr : run (step cap this) { cvStatus } ls = some s) (hs : Stuck cap this s) (p : Ptr) :
    s.pc p = .idle ∨ ∃ op, s.pc p = .asleep op ∧ op.Blocked cap s.queue := by
  have h : Inv cap s := run_invariant (fun _ _ _ h ht => h.step ht) (inv_initial cvStatus) hr
  obtain ⟨hm, hpc⟩ := h.stuck hs
  refine (hpc p).imp_right fun ⟨op, hp, hmem⟩ => ⟨op, hp, ?_⟩
  obtain rfl | ⟨a, b, hcalls⟩ := hcap
  · have ha : Announced s := (run_invariant (I := fun s => Inv 0 s ∧ Announced s)
      (fun _ _ _ ⟨h, ha⟩ ht => ⟨h.step ht, ha.step h ht⟩)
      ⟨inv_initial cvStatus, fun hl => absurd rfl hl⟩ hr).2
    cases op with
    | push v => exact absurd (h.bounded p v (by rw [hp]; rfl)) (Nat.lt_irrefl 0)
    | pop =>
      -- Whoever has been notified could go on.
      have hnone : s.notified = [] := by
        refine List.eq_nil_iff_forall_not_mem.mpr fun q hq => ?_
        have hwoken := h.woken q hq
        obtain hidle | ⟨op, hasleep, hlinked⟩ := hpc q
        · simp [Woken, hidle, Pc.sleeps, Pc.resumes] at hwoken
        · have he := ((h.linked q).mp hlinked).2
          simp [Woken, hasleep, he, Pc.sleeps, Pc.resumes] at hwoken
      have hle := ha fun hl => by simp [hl] at hmem
      rw [hnone, inFlight, hm] at hle
      exact List.length_eq_zero_iff.mp (Nat.le_zero.mp hle)
  · have hserved : Served cap s := (run_invariant_along
      (I := fun s => Inv cap s ∧ Alone a b s ∧ Served cap s) (P := fun _ l => l.Alone a b)
      (fun _ _ _ ⟨h, ha, hs⟩ hl ht => ⟨h.step ht, ha.step hl ht, hs.step h ha ht⟩)
      ⟨inv_initial cvStatus, by simp [Alone, Pc.current], fun q hq => by cases hq⟩
      (along_of_mem hcalls) hr).2.2
    refine (hserved p hmem op (by rw [hp]; rfl)).resolve_right fun ⟨q, op', hq⟩ => ?_
    obtain hidle | ⟨op, hasleep, -⟩ := hpc q
    · simp [hidle] at hq
    · simp [hasleep] at hq

/-- Task 2 waits for an element. -/
def popRun : List (Label Nat) := .call 2 .pop :: List.replicate 5 (.next 2)

theorem no_lost_wakeup_popRun : ∃ s : Channel Nat,
    run (step 1 9) {} popRun = some s ∧ s.pc 2 = .asleep .pop ∧
      (s.pc 2 = .idle ∨ ∃ op, s.pc 2 = .asleep op ∧ op.Blocked 1 s.queue) := by
  have hcalls : ∀ l ∈ popRun, l.Alone 1 2 := by
    intro l hl
    simp only [popRun, List.mem_cons, List.mem_replicate] at hl
    obtain rfl | ⟨-, rfl⟩ := hl
    · rfl
    · trivial
  refine ⟨_, rfl, rfl, no_lost_wakeup (fun _ => .zero) (.inr ⟨1, 2, hcalls⟩)
    (show run (step 1 9) {} popRun = some _ from rfl) (fun p => ?_) 2⟩
  match p with
  | 0 => rfl
  | 1 => rfl
  | 2 => rfl
  | _ + 3 => rfl

/-- Tasks 1 and 3 push into a channel of capacity 1, task 2 pops. -/
def crossedRun : List (Label Nat) :=
  [[.call 1 (.push 5)], List.replicate 6 (.next 1), [.call 1 (.push 6)],
    List.replicate 6 (.next 1), [.call 3 (.push 7)], List.replicate 6 (.next 3), [.call 2 .pop],
    List.replicate 6 (.next 2), [.call 2 .pop], List.replicate 5 (.next 2),
    List.replicate 6 (.next 1), List.replicate 5 (.next 3)].flatten

/-- The wake-up of a push reaches the other push, and in the end the queue is full while both wait,
that push and the pop. -/
theorem lost_wakeup : ∃ s : Channel Nat, run (step 1 9) {} crossedRun = some s ∧
    Stuck 1 9 s ∧ s.pc 2 = .asleep .pop ∧ s.queue = [6] := by
  refine ⟨_, rfl, fun p => ?_, rfl, rfl⟩
  match p with
  | 0 => rfl
  | 1 => rfl
  | 2 => rfl
  | 3 => rfl
  | _ + 4 => rfl

end Channel

end JamSched.Sync
