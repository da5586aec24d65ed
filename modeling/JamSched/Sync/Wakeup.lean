import JamSched.Sync.CondVar

/-!
# A timed wait is ended once

The notifiers and the timer settle over `cvStatus` who wakes a task in `wait_until`. The count of
the calls of `EnableImmediately` for the task, with those that a notifier or the timer is already
bound to make, is one exactly when the word has left its first value.
-/
namespace JamSched.Sync

open Machine

variable {s t : CondVar} {p q : Ptr} {l : Label}

namespace CondVar

/-- Calls of `EnableImmediately` for `p` that a notifier or the timer is bound to make. -/
def pending (s : CondVar) (p : Ptr) : Nat :=
  (match s.wListLock with
    | some (.claimed _ q) => if q = p then 1 else 0
    | _ => 0) + if s.sl = some p then 1 else 0

/-- A notifier is between `pop_front` of `p` and the end of its work for it, or the timer is
between the exchange and `EnableImmediately` of `p`. -/
def Busy (s : CondVar) (p : Ptr) : Prop :=
  (∃ all, s.wListLock = some (.popped all p) ∨ s.wListLock = some (.claimed all p)) ∨
    s.sl = some p

end CondVar

/-- What is kept about a task from the beginning of a `wait_until` to its next wait or sleep. -/
structure Settled (s : CondVar) (p : Ptr) : Prop where
  status : s.cvStatus p = .cv s.this ∨ s.cvStatus p = .notified ∨ s.cvStatus p = .timedOut
  once : s.enables p + s.pending p = if s.cvStatus p = .cv s.this then 0 else 1
  armed : s.armed p = true → s.cvStatus p ≠ .timedOut
  arming : s.phase p = .arming →
    s.cvStatus p = .cv s.this ∧ s.armed p = false ∧ s.wListLock = some (.waiter p)
  holder : ∀ all, s.wListLock = some (.popped all p) → s.popped p = true
  popped : s.popped p = true →
    (∃ all, s.wListLock = some (.popped all p)) ∨ s.cvStatus p ≠ .cv s.this
  called : s.called p = true → s.cvStatus p ≠ .cv s.this
  cause : s.cvStatus p ≠ .cv s.this → s.popped p = true ∨ s.called p = true

/-- The invariant of the protocol. -/
def Inv (s : CondVar) : Prop := ∀ p, s.timedWait p = true → Settled s p

/-- No notifier works for `p`. -/
def Free (lock : Option Holder) (p : Ptr) : Prop :=
  ∀ all, lock ≠ some (.popped all p) ∧ lock ≠ some (.claimed all p)

theorem pending_of_free (h : Free s.wListLock p) :
    s.pending p = if s.sl = some p then 1 else 0 := by
  unfold CondVar.pending
  split
  · rename_i all q hlock
    have hq : q ≠ p := by
      rintro rfl
      exact (h all).2 hlock
    simp [hq]
  · simp

/-- Only a task that holds `wListLock` itself has yet to set the timer. -/
theorem Settled.not_arming (h : Settled s p) (hlock : s.wListLock ≠ some (.waiter p)) :
    s.phase p ≠ .arming := by
  intro hph
  exact hlock (h.arming hph).2.2

/-- Nothing happens to the task itself, and no notifier works for it before or after. -/
theorem Settled.frame (h : Settled s p) (hthis : t.this = s.this)
    (hst : t.cvStatus p = s.cvStatus p) (hen : t.enables p = s.enables p)
    (hpo : t.popped p = s.popped p) (hca : t.called p = s.called p)
    (harm : t.armed p = true → s.armed p = true) (hsl : t.sl = some p ↔ s.sl = some p)
    (hfs : Free s.wListLock p) (hft : Free t.wListLock p)
    (hph : t.phase p = .arming → s.phase p = .arming ∧ t.wListLock = s.wListLock) :
    Settled t p where
  status := by simpa only [hst, hthis] using h.status
  once := by
    have := h.once
    rw [pending_of_free hfs] at this
    simpa only [pending_of_free hft, hen, hst, hthis, hsl] using this
  armed ha := by simpa only [hst] using h.armed (harm ha)
  arming ha := by
    obtain ⟨hps, hlock⟩ := hph ha
    obtain ⟨h₁, h₂, h₃⟩ := h.arming hps
    refine ⟨by rw [hst, hthis, h₁], Bool.eq_false_iff.mpr fun hc => ?_, hlock.trans h₃⟩
    simp [harm hc] at h₂
  holder all hall := absurd hall (hft all).1
  popped hp := by
    rcases h.popped (hpo ▸ hp) with ⟨all, hall⟩ | hne
    · exact absurd hall (hfs all).1
    · exact .inr (by rwa [hst, hthis])
  called hc := by simpa only [hst, hthis] using h.called (hca ▸ hc)
  cause hne := by simpa only [hpo, hca] using h.cause (by rwa [← hst, ← hthis])

/-- A task changes its phase, and entries may be unlinked. -/
theorem Settled.setPhase (h : Settled s p) {armed : Ptr → Bool} {waitList : List Ptr} {ph : Phase}
    (harm : armed p = true → s.armed p = true)
    (hph : Function.update s.phase q ph p = .arming → s.phase p = .arming) :
    Settled ({ s with armed, waitList }.setPhase q ph) p where
  status := h.status
  once := h.once
  armed ha := h.armed (harm ha)
  arming ha := by
    obtain ⟨hst, hunarmed, hlock⟩ := h.arming (hph ha)
    refine ⟨hst, Bool.eq_false_iff.mpr fun hc => ?_, hlock⟩
    simp [harm hc] at hunarmed
  holder := h.holder
  popped := h.popped
  called := h.called
  cause := h.cause

theorem Inv.wait (h : Inv s) (ht : Step s (.wait q) t) : Inv t := by
  cases ht with
  | wait _ hlock =>
    intro p htimed
    by_cases hpq : p = q
    · simp [hpq, CondVar.setPhase, CondVar.enqueue] at htimed
    · have hs := h p (by simpa [CondVar.setPhase, CondVar.enqueue, hpq] using htimed)
      refine hs.frame ?_ ?_ ?_ ?_ ?_ ?_ ?_ ?_ ?_ ?_ <;>
        simp [CondVar.setPhase, CondVar.enqueue, hpq, hlock, Free]

theorem Inv.waitUntil (h : Inv s) (ht : Step s (.waitUntil q) t) : Inv t := by
  cases ht with
  | waitUntil _ hlock _ harmed hsl =>
    intro p htimed
    by_cases hpq : p = q
    · subst hpq
      refine ⟨?_, ?_, ?_, ?_, ?_, ?_, ?_, ?_⟩ <;>
        simp [CondVar.setPhase, CondVar.enqueue, CondVar.pending, harmed, hsl]
    · have hs := h p (by simpa [CondVar.setPhase, CondVar.enqueue, hpq] using htimed)
      refine hs.frame ?_ ?_ ?_ ?_ ?_ ?_ ?_ ?_ ?_ ?_
      all_goals simp [CondVar.setPhase, CondVar.enqueue, hpq, hlock, Free]
      intro hph
      simp [(hs.arming hph).2.2] at hlock

theorem Inv.setTimeout (h : Inv s) (ht : Step s (.setTimeout q) t) : Inv t := by
  cases ht with
  | setTimeout hph =>
    intro p htimed
    have hs := h p htimed
    by_cases hpq : p = q
    · subst hpq
      obtain ⟨hst, -, -⟩ := hs.arming hph
      refine ⟨hs.status, hs.once, ?_, ?_, hs.holder, hs.popped, hs.called, hs.cause⟩ <;>
        simp [CondVar.setPhase, hst]
    · exact hs.setPhase (by simp [hpq]) (by simp [hpq])

theorem Inv.unlock (h : Inv s) (ht : Step s (.unlock q) t) : Inv t := by
  cases ht with
  | unlock _ hlock =>
    intro p htimed
    have hs := h p htimed
    refine hs.frame ?_ ?_ ?_ ?_ ?_ ?_ ?_ ?_ ?_ ?_
    all_goals simp [CondVar.setPhase, hlock, Free, Function.update_apply]
    intro hph
    split at hph
    · cases hph
    · next hpq =>
      have hholds := (hs.arming hph).2.2
      rw [hlock, Option.some.injEq, Holder.waiter.injEq] at hholds
      exact absurd hholds.symm hpq

theorem Inv.notify (h : Inv s) {all : Bool} (ht : Step s (.notify all) t) : Inv t := by
  cases ht with
  | notify hlock =>
    intro p htimed
    have hs := h p htimed
    refine hs.frame rfl rfl rfl rfl rfl id Iff.rfl ?_ ?_ ?_
    · simp [hlock, Free]
    · simp [Free]
    · intro hph
      exact absurd hph (hs.not_arming (by simp [hlock]))

theorem Inv.popFront (h : Inv s) (ht : Step s .popFront t) : Inv t := by
  have harm {all : Bool} (hlock : s.wListLock = some (.notify all)) (p : Ptr) (hs : Settled s p) :
      s.phase p ≠ .arming := hs.not_arming (by simp [hlock])
  cases ht with
  | popNone hlock =>
    intro p htimed
    have hs := h p htimed
    refine hs.frame rfl rfl rfl rfl rfl id Iff.rfl ?_ ?_ ?_
    all_goals simp [hlock, Free, harm hlock p hs]
  | @popFront all q l hlock =>
    intro p htimed
    have hs := h p htimed
    by_cases hpq : p = q
    · have hfree : Free s.wListLock p := by simp [hlock, Free]
      have honce := hs.once
      rw [pending_of_free hfree] at honce
      refine ⟨hs.status, ?_, hs.armed, fun hph => absurd hph (harm hlock p hs), ?_, ?_, ?_, ?_⟩
      · simpa [CondVar.pending] using honce
      · simp [hpq]
      · simp [hpq]
      · exact hs.called
      · simp [hpq]
    · refine hs.frame rfl rfl rfl ?_ rfl id Iff.rfl ?_ ?_ ?_
      all_goals simp [hlock, Free, harm hlock p hs, hpq, Ne.symm hpq]

theorem free_goOn (s : CondVar) (all : Bool) (p : Ptr) : Free (s.goOn all).wListLock p := by
  intro b
  cases all <;> simp [CondVar.goOn]

/-- The popped task itself: the word decides whether the notifier wakes it. -/
theorem Settled.compareExchange (h : Settled s p) {all : Bool}
    (hlock : s.wListLock = some (.popped all p)) :
    Settled (if ((s.cvStatus p).notify s.this).2 then
      { s with
        cvStatus := Function.update s.cvStatus p ((s.cvStatus p).notify s.this).1
        wListLock := some (.claimed all p) }
      else CondVar.goOn { s with
        cvStatus := Function.update s.cvStatus p ((s.cvStatus p).notify s.this).1 } all) p := by
  have hpop := h.holder all hlock
  have harm : s.phase p ≠ .arming := h.not_arming (by simp [hlock])
  have honce := h.once
  by_cases hst : s.cvStatus p = .cv s.this
  · have hpend : s.pending p = if s.sl = some p then 1 else 0 := by
      simp [CondVar.pending, hlock]
    rw [hpend, if_pos hst] at honce
    obtain ⟨hen, hsl⟩ := Nat.add_eq_zero_iff.mp honce
    rw [hst, CvStatus.notify_this, if_pos rfl]
    refine ⟨?_, ?_, ?_, fun hph => absurd hph harm, ?_, ?_, ?_, ?_⟩ <;>
      simp_all [CondVar.pending]
  · have hkeep : (s.cvStatus p).notify s.this = (s.cvStatus p, false) := by
      rcases h.status with hs | hs | hs
      · exact absurd hs hst
      · simp [hs]
      · simp [hs]
    rw [hkeep, if_neg (by simp), Function.update_eq_self]
    refine ⟨h.status, ?_, h.armed, fun hph => absurd hph harm, fun b hb => ?_, fun _ => .inr hst,
      fun _ => hst, fun _ => .inl hpop⟩
    · rw [pending_of_free (free_goOn s all p)]
      simp only [CondVar.pending, hlock, Nat.zero_add] at honce
      exact honce
    · exact absurd hb (free_goOn s all p b).1

theorem Inv.compareExchange (h : Inv s) (ht : Step s .compareExchange t) : Inv t := by
  cases ht with
  | @compareExchange all q hlock =>
    intro p htimed
    have hs := h p (by split at htimed <;> exact htimed)
    by_cases hpq : p = q
    · subst hpq
      exact hs.compareExchange hlock
    · have hfs : Free s.wListLock p := by simp [hlock, Free, Ne.symm hpq]
      have harm : s.phase p ≠ .arming := hs.not_arming (by simp [hlock])
      split
      · refine hs.frame rfl ?_ rfl rfl rfl id Iff.rfl hfs ?_ (fun hph => absurd hph harm)
        · simp [hpq]
        · simp [Free, Ne.symm hpq]
      · refine hs.frame rfl ?_ rfl rfl rfl id Iff.rfl hfs (free_goOn _ all p)
          (fun hph => absurd hph harm)
        simp [CondVar.goOn, hpq]

theorem Inv.enable (h : Inv s) (ht : Step s .enable t) : Inv t := by
  cases ht with
  | @enable all q hlock =>
    intro p htimed
    have hs := h p htimed
    have harm : s.phase p ≠ .arming := hs.not_arming (by simp [hlock])
    have hft := free_goOn (s.enableImmediately q) all p
    by_cases hpq : p = q
    · subst hpq
      have honce := hs.once
      refine ⟨hs.status, ?_, hs.armed, fun hph => absurd hph harm, fun b hb => absurd hb (hft b).1,
        fun hp => .inr ?_, hs.called, hs.cause⟩
      · rw [pending_of_free hft]
        simp only [CondVar.pending, hlock, if_true] at honce
        simp only [CondVar.goOn, CondVar.enableImmediately, Function.update_self]
        grind
      · rcases hs.popped hp with ⟨b, hb⟩ | hne
        · simp [hlock] at hb
        · exact hne
    · refine hs.frame rfl rfl ?_ rfl rfl id Iff.rfl ?_ hft (fun hph => absurd hph harm)
      · simp [CondVar.goOn, CondVar.enableImmediately, hpq]
      · simp [hlock, Free, Ne.symm hpq]

/-- The task of the callback itself: the word decides whether the timer wakes it. -/
theorem Settled.timeoutCallback (h : Settled s p) (hsl : s.sl = none) (harmed : s.armed p = true) :
    Settled { s with
      armed := Function.update s.armed p false
      cvStatus := Function.update s.cvStatus p (s.cvStatus p).timeout.1
      called := Function.update s.called p true
      sl := if (s.cvStatus p).timeout.2 then some p else none } p := by
  have harm : s.phase p ≠ .arming := by
    intro hph
    simp [(h.arming hph).2.1] at harmed
  have honce := h.once
  refine ⟨?_, ?_, ?_, fun hph => absurd hph harm, h.holder, ?_, ?_, ?_⟩
  · simp [CvStatus.timeout]
  · have hne := h.armed harmed
    rcases h.status with hst | hst | hst
    · simp_all [CondVar.pending, CvStatus.timeout]
    · simp_all [CondVar.pending, CvStatus.timeout]
    · exact absurd hst hne
  · simp
  · simp [CvStatus.timeout]
  · simp [CvStatus.timeout]
  · simp

theorem Inv.timeoutCallback (h : Inv s) (ht : Step s (.timeoutCallback q) t) : Inv t := by
  cases ht with
  | timeoutCallback hsl harmed =>
    intro p htimed
    have hs := h p htimed
    by_cases hpq : p = q
    · subst hpq
      exact hs.timeoutCallback hsl harmed
    · have honce := hs.once
      refine ⟨?_, ?_, ?_, ?_, hs.holder, ?_, ?_, ?_⟩ <;> simp only [Function.update_of_ne hpq]
      · exact hs.status
      · simp only [CondVar.pending, hsl] at honce ⊢
        grind
      · exact hs.armed
      · exact hs.arming
      · exact hs.popped
      · exact hs.called
      · exact hs.cause

theorem Inv.timeoutEnable (h : Inv s) (ht : Step s .timeoutEnable t) : Inv t := by
  cases ht with
  | @timeoutEnable q hsl =>
    intro p htimed
    have hs := h p htimed
    have honce := hs.once
    refine ⟨hs.status, ?_, hs.armed, hs.arming, hs.holder, hs.popped, hs.called, hs.cause⟩
    by_cases hpq : p = q
    · subst hpq
      simp only [CondVar.pending, hsl, if_true] at honce
      simp only [CondVar.pending, CondVar.enableImmediately, Function.update_self]
      grind
    · simp only [CondVar.pending, hsl] at honce
      simp only [CondVar.pending, CondVar.enableImmediately, Function.update_of_ne hpq]
      grind

/-- A task goes on to a phase behind the setting of the timer, or out of the wait. -/
theorem Inv.setPhase (h : Inv s) {armed : Ptr → Bool} {waitList : List Ptr} {ph : Phase}
    (hph : ph ≠ .arming) (harm : ∀ p, armed p = true → s.armed p = true) :
    Inv ({ s with armed, waitList }.setPhase q ph) := by
  intro p htimed
  refine (h p htimed).setPhase (harm p) ?_
  rw [Function.update_apply]
  split
  · intro harming
    exact absurd harming hph
  · exact id

theorem Inv.resume (h : Inv s) {expired : Bool} (ht : Step s (.resume q expired) t) :
    Inv t := by
  cases ht with
  | resume => exact h.setPhase (by simp) fun _ => id
  | resumeTimed =>
    refine h.setPhase (by simp) fun p ha => ?_
    rw [Function.update_apply] at ha
    split at ha
    · next hpq =>
      subst hpq
      exact (Bool.and_eq_true_iff.mp ha).1
    · exact ha

theorem Inv.waitEnd (h : Inv s) {timeout : Bool} (ht : Step s (.waitEnd q timeout) t) :
    Inv t := by
  cases ht with
  | waitEnd => exact h.setPhase (by simp) fun _ => id
  | waitTimeout => exact h.setPhase (by simp) fun _ => id

theorem Inv.elsewhere (h : Inv s) {w : CvStatus} (ht : Step s (.elsewhere q w) t) :
    Inv t := by
  cases ht
  intro p htimed
  have hpq : p ≠ q := by
    rintro rfl
    simp at htimed
  have hs := h p (by simpa [hpq] using htimed)
  refine ⟨?_, ?_, ?_, ?_, hs.holder, ?_, ?_, ?_⟩ <;> simp only [Function.update_of_ne hpq]
  · exact hs.status
  · exact hs.once
  · exact hs.armed
  · exact hs.arming
  · exact hs.popped
  · exact hs.called
  · exact hs.cause

theorem Inv.step (h : Inv s) (ht : Sync.step s l = some t) : Inv t := by
  have hstep := step_cases ht
  cases l with
  | wait => exact h.wait hstep
  | waitUntil => exact h.waitUntil hstep
  | setTimeout => exact h.setTimeout hstep
  | unlock => exact h.unlock hstep
  | notify => exact h.notify hstep
  | popFront => exact h.popFront hstep
  | compareExchange => exact h.compareExchange hstep
  | enable => exact h.enable hstep
  | timeoutCallback => exact h.timeoutCallback hstep
  | timeoutEnable => exact h.timeoutEnable hstep
  | resume => exact h.resume hstep
  | waitEnd => exact h.waitEnd hstep
  | elsewhere => exact h.elsewhere hstep

/-- In every interleaving of waits, of calls of `notify_one` and `notify_all`, and of the timer,
from the beginning of a `wait_until` to the next wait or sleep of the task: the task is passed to
`EnableImmediately` at most once; when neither a notifier nor the timer is at work for it, it was
passed exactly once if a notifier has popped it or the callback of the wait has run, and not at
all otherwise. -/
theorem woken_once {this : Nat} {heap : Heap} {cvStatus : Ptr → CvStatus} {ls : List Label}
    (hr : run Sync.step (initial this heap cvStatus) ls = some s)
    (hp : s.timedWait p = true) :
    s.enables p ≤ 1 ∧
      (¬ s.Busy p → s.enables p = if s.popped p = true ∨ s.called p = true then 1 else 0) := by
  have hinv : Inv s := by
    refine run_invariant (I := Inv) (fun _ _ _ h ht => h.step ht) ?_ hr
    intro q hq
    simp [initial] at hq
  have hs := hinv p hp
  have honce := hs.once
  refine ⟨?_, fun hbusy => ?_⟩
  · split at honce <;> omega
  · obtain ⟨hlock, hsl⟩ := not_or.mp hbusy
    have hfree : Free s.wListLock p := fun all =>
      ⟨fun hl => hlock ⟨all, .inl hl⟩, fun hl => hlock ⟨all, .inr hl⟩⟩
    rw [pending_of_free hfree, if_neg hsl, Nat.add_zero] at honce
    rw [honce]
    by_cases hst : s.cvStatus p = .cv s.this
    · have hpop : s.popped p ≠ true := fun h => by
        rcases hs.popped h with ⟨all, hl⟩ | hne
        · exact (hfree all).1 hl
        · exact hne hst
      have hcall : s.called p ≠ true := fun h => hs.called h hst
      simp [hst, hpop, hcall]
    · rw [if_neg hst, if_pos (hs.cause hst)]

/-- A notifier has popped task 0 when the timer calls back; the timer comes first to the word. -/
def lateNotifyRun : List Label :=
  [.waitUntil 0, .setTimeout 0, .unlock 0, .notify false, .popFront, .timeoutCallback 0,
    .compareExchange, .timeoutEnable]

theorem woken_once_lateNotifyRun :
    ∃ s, run Sync.step (initial 1 (fun _ => {}) fun _ => .zero) lateNotifyRun = some s ∧
      s.popped 0 = true ∧ s.called 0 = true ∧ s.enables 0 = 1 := by
  have hend : (run Sync.step (initial 1 (fun _ => {}) fun _ => .zero) lateNotifyRun).map (fun s =>
      (s.timedWait 0, s.popped 0, s.called 0, s.wListLock, s.sl)) =
        some (true, true, true, none, none) := by decide
  obtain ⟨s, hs, heq⟩ := Option.map_eq_some_iff.mp hend
  simp only [Prod.mk.injEq] at heq
  obtain ⟨htimed, hpop, hcall, hlock, hsl⟩ := heq
  have hfree : ¬ s.Busy 0 := by simp [CondVar.Busy, hlock, hsl]
  have honce := (woken_once (p := 0) hs htimed).2 hfree
  exact ⟨s, hs, hpop, hcall, by simpa [hpop] using honce⟩

end JamSched.Sync
