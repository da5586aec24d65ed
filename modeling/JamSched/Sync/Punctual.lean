import JamSched.Sync.WaitUntil

/-!
# A wait until an exact time

Where the clock stands still between the two readings of `convert`, and no entry is left over from
an earlier wait, the target of the timer is `timeoutTime` itself. A task then goes on because a
notifier has popped it or because the time has come, and the last reading tells the two apart.
-/
namespace JamSched.Sync.Clocked

open Machine

variable {s t : Clocked} {p q : Ptr} {l : ClockLabel}

/-- The two readings of `convert` agree, and a wait begins with the entry of the task unlinked. -/
def Exact (s : Clocked) : ClockLabel → Prop
  | .waitUntil p _ => s.cv.armed p = false ∧ s.cv.sl ≠ some p
  | .sleepUntil _ now₁ now₂ => now₁ = now₂
  | _ => True

/-- The timer calls back no task before its time, and a task goes on only if it was notified or
called back. -/
structure Punctual (s : Clocked) : Prop where
  inv : Inv s.cv
  stale : ∀ p, s.stale p = false
  timedWait : ∀ p, (s.cv.phase p).timed = true → s.cv.timedWait p = true
  awake : ∀ p, s.cv.phase p = .awake → 0 < s.cv.enables p
  armed : ∀ p, (s.cv.phase p).timed = true → s.cv.armed p = true →
    s.target p = s.timeoutTime p
  called : ∀ p, (s.cv.phase p).timed = true → s.cv.called p = true → s.timeoutTime p ≤ s.now
  left : ∀ p, (s.closing p).isSome = true → s.Left p

/-- A task is awake because a notifier has popped it or its time has come. -/
theorem Punctual.popped_or_le (h : Punctual s) (hp : s.cv.phase p = .awake) :
    s.cv.popped p = true ∨ s.timeoutTime p ≤ s.now := by
  have htimed : (s.cv.phase p).timed = true := by simp [hp, Phase.timed]
  have hs := h.inv p (h.timedWait p htimed)
  have hne : s.cv.cvStatus p ≠ .cv s.cv.this := by
    intro hst
    have honce := hs.once
    rw [if_pos hst] at honce
    have := h.awake p hp
    omega
  exact (hs.cause hne).imp id (h.called p htimed)

theorem Punctual.other {l : Label} (h : Punctual s) (hl : Linking s) (ht : Step s (.other l) t) :
    Punctual t := by
  cases ht with
  | @other l cv hu hw hcv =>
    have hkeep (p : Ptr) (hp : (cv.phase p).timed = true ∨ (s.closing p).isSome = true) :
        Keeps s.cv cv p := by
      refine keeps_step hcv hu (fun hmem => ?_) hl.nodup
      rcases hp with hp | hp
      · simp [not_timed_of_waiting hcv hmem] at hp
      · simp [hw p hmem] at hp
    refine ⟨h.inv.step hcv, h.stale, fun p hp => ?_, fun p hp => ?_, fun p hp ha => ?_,
      fun p hp hca => ?_, fun p hp => ?_⟩
    · have hk := hkeep p (.inl hp)
      rw [hk.timedWait hp]
      exact h.timedWait p (hk.timed hp)
    · have hph : cv.phase p = .awake := hp
      have hk := hkeep p (.inl (by simp [hph, Phase.timed]))
      refine Nat.lt_of_lt_of_le ?_ hk.enables
      exact (hk.awake hp).elim (h.awake p) id
    · have hk := hkeep p (.inl hp)
      exact h.armed p (hk.timed hp) (hk.armed ha)
    · have hk := hkeep p (.inl hp)
      exact h.called p (hk.timed hp) (hk.called ▸ hca)
    · rcases (hkeep p (.inr hp)).linked with ⟨hpo, -⟩ | ⟨hpo, -⟩
      · have := h.left p hp
        rwa [Left, ← hpo] at this
      · exact .inl hpo

/-- With its entry unlinked, a task begins its wait as the condition variable has it. -/
theorem step_waitUntil (cv : CondVar) (hidle : cv.phase q = .idle) (hlock : cv.wListLock = none)
    (hmem : q ∉ cv.waitList) (harmed : cv.armed q = false) (hsl : cv.sl ≠ some q) :
    Sync.step cv (.waitUntil q) = some (cv.waitUntil q) := by
  have hupdate : Function.update cv.armed q false = cv.armed :=
    Function.update_eq_self_iff.mpr harmed.symm
  simp only [Sync.step, hidle, hlock, hmem, harmed, CondVar.waitUntil, hupdate]
  simp [CondVar.enqueue, hsl]

theorem Punctual.waitUntil {time : Int} (h : Punctual s)
    (he : Exact s (.waitUntil q time)) (ht : Step s (.waitUntil q time) t) : Punctual t := by
  obtain ⟨harmed, hsl⟩ := he
  cases ht with
  | waitUntil hidle hclosing hlock hmem =>
    refine ⟨h.inv.step (step_waitUntil s.cv hidle hlock hmem harmed hsl), fun p => ?_, fun p => ?_,
      fun p => ?_, fun p => ?_, fun p => ?_, fun p hp => ?_⟩
    all_goals
      by_cases hpq : p = q
      · subst hpq
        simp_all [CondVar.waitUntil, CondVar.setPhase, CondVar.enqueue, h.stale]
      simp only [CondVar.waitUntil, CondVar.setPhase, CondVar.enqueue, Left,
        Function.update_of_ne hpq]
    · exact h.stale p
    · exact h.timedWait p
    · exact h.awake p
    · exact h.armed p
    · exact h.called p
    · exact h.left p hp

theorem Punctual.sleepUntil {now₁ now₂ : Int} (h : Punctual s)
    (he : Exact s (.sleepUntil q now₁ now₂)) (ht : Step s (.sleepUntil q now₁ now₂) t) :
    Punctual t := by
  obtain rfl : now₁ = now₂ := he
  cases ht with
  | sleepUntil hle hcv =>
    have hinv := h.inv.step hcv
    cases Sync.step_cases hcv with
    | setTimeout hph =>
      have htimed : (s.cv.phase q).timed = true := by simp [hph, Phase.timed]
      have hback (p : Ptr) (hp : ((s.cv.setPhase q .leaving).phase p).timed = true) :
          (s.cv.phase p).timed = true := by
        by_cases hpq : p = q
        · exact hpq ▸ htimed
        · simpa [CondVar.setPhase, hpq] using hp
      refine ⟨hinv, h.stale, fun p hp => h.timedWait p (hback p hp), fun p hp => ?_,
        fun p hp ha => ?_, fun p hp hca => ?_, h.left⟩
      · by_cases hpq : p = q
        · simp [CondVar.setPhase, hpq] at hp
        · exact h.awake p (by simpa [CondVar.setPhase, hpq] using hp)
      · by_cases hpq : p = q
        · simp only [hpq, convert, Function.update_self]
          omega
        · simp only [Function.update_of_ne hpq]
          exact h.armed p (hback p hp) (by simpa [CondVar.setPhase, hpq] using ha)
      · have := h.called p (hback p hp) hca
        exact Int.le_trans this (Int.le_max_left s.now now₁)

theorem Punctual.timeoutCallback {now : Int} (h : Punctual s)
    (ht : Step s (.timeoutCallback q now) t) : Punctual t := by
  cases ht with
  | timeoutCallback hnow htarget hcv =>
    have hinv := h.inv.step hcv
    cases Sync.step_cases hcv with
    | timeoutCallback hsl harmed =>
      refine ⟨hinv, h.stale, h.timedWait, h.awake, fun p hp ha => ?_, fun p hp hca => ?_, h.left⟩
      · by_cases hpq : p = q
        · simp [hpq] at ha
        · exact h.armed p hp (by simpa [hpq] using ha)
      · by_cases hpq : p = q
        · subst hpq
          exact h.armed p hp harmed ▸ htarget
        · exact Int.le_trans (h.called p hp (by simpa [hpq] using hca)) hnow

theorem Punctual.waitEnd {now : Int} (h : Punctual s) (ht : Step s (.waitEnd q now) t) :
    Punctual t := by
  cases ht with
  | waitEnd hnow hcv =>
    have hinv := h.inv.step hcv
    obtain ⟨hph, rfl⟩ := waitEnd_cv hcv
    have hback (p : Ptr) (hp : ((Function.update s.cv.phase q .idle) p).timed = true) :
        (s.cv.phase p).timed = true := by
      by_cases hpq : p = q
      · simp [hpq, Phase.timed] at hp
      · simpa [hpq] using hp
    refine ⟨hinv, h.stale, fun p hp => h.timedWait p (hback p hp), fun p hp => ?_,
      fun p hp ha => h.armed p (hback p hp) ha, fun p hp hc => ?_, fun p hp => ?_⟩
    · have hpq : p ≠ q := by
        rintro rfl
        simp at hp
      exact h.awake p (by simpa [hpq] using hp)
    · exact Int.le_trans (h.called p (hback p hp) hc) hnow
    · by_cases hpq : p = q
      · subst hpq
        refine (h.popped_or_le hph).imp id fun hle => .inr ?_
        exact ⟨now, by simp, Int.le_trans hle hnow⟩
      · have hold := h.left p (by simpa [hpq] using hp)
        refine hold.imp id (Or.imp (fun hsw => by simp [hsw]) ?_)
        simp [hpq]

theorem Punctual.returns (h : Punctual s) (ht : Step s (.returns q) t) : Punctual t := by
  cases ht with
  | returns =>
    refine ⟨h.inv, h.stale, h.timedWait, h.awake, h.armed, h.called, fun p hp => ?_⟩
    have hpq : p ≠ q := by
      rintro rfl
      simp at hp
    simpa [Left, hpq] using h.left p (by simpa [hpq] using hp)

theorem Punctual.step (h : Punctual s) (hl : Linking s) (he : Exact s l)
    (ht : s.step l = some t) : Punctual t := by
  have hstep := step_cases ht
  cases l with
  | waitUntil => exact h.waitUntil he hstep
  | sleepUntil => exact h.sleepUntil he hstep
  | timeoutCallback => exact h.timeoutCallback hstep
  | stray p => simp [Clocked.step, h.stale p] at ht
  | waitEnd => exact h.waitEnd hstep
  | returns => exact h.returns hstep
  | other => exact h.other hl hstep

/-- Where `convert` makes of a time point the same time point, and no entry is left over from an
earlier wait, whenever `wait_until` returns its task is not linked. -/
theorem returnsUnlinked_of_exact {this : Nat} {heap : Heap} {cvStatus : Ptr → CvStatus} {now : Int}
    {ls : List ClockLabel} (hr : run step (initial this heap cvStatus now) ls = some s)
    (he : Along step Exact (initial this heap cvStatus now) ls) :
    Along step ReturnsUnlinked (initial this heap cvStatus now) ls := by
  have hinit : Punctual (initial this heap cvStatus now) := by
    refine ⟨fun p hp => ?_, fun p => rfl, fun p hp => ?_, fun p hp => ?_, fun p hp => ?_,
      fun p hp => ?_, fun p hp => ?_⟩
    all_goals simp [initial, Sync.initial, Phase.timed] at hp
  refine along_invariant_along (I := fun s => Punctual s ∧ Linking s) ?_ ?_
    ⟨hinit, linking_initial this heap cvStatus now⟩ (he.and (along_enabled hr))
  · rintro s l t ⟨h, hl⟩ he ht
    exact ⟨h.step hl he.1 ht, hl.step ht⟩
  · rintro s l ⟨h, hl⟩ he
    obtain ⟨t, ht⟩ := he.2
    refine (hl.returns_iff ht).mpr ?_
    cases l with
    | returns p =>
      simp only [Clocked.step] at ht
      split at ht
      · next hc => exact h.left p hc
      · cases ht
    | _ => trivial

end JamSched.Sync.Clocked
