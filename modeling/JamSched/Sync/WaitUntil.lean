import JamSched.Sync.Wakeup

/-!
# wait_until

The clock beside the condition variable. `SleepUntil` makes a new target for the timer out of two
readings of the clock, and at its end `wait_until` reads the clock once more to tell whether to
unlink the task; it does not look at who has woken it. The second reading of `convert` may be later
than the first, and then the timer calls back before `timeoutTime`: nothing has taken the task off
the wait list, and `wait_until` does not do it either.
-/
namespace JamSched.Sync

open Machine

/-- `convert` of a time point, with the two readings of the clock in the order of its text. -/
def convert (timeoutTime now₁ now₂ : Int) : Int := now₁ + (timeoutTime - now₂)

structure Clocked where
  cv : CondVar
  /-- The latest reading of the clock. -/
  now : Int := 0
  timeoutTime : Ptr → Int := fun _ => 0
  /-- The time of the entry of the task in the timer. -/
  target : Ptr → Int := fun _ => 0
  /-- The last reading of `wait_until`, kept until it returns. -/
  closing : Ptr → Option Int := fun _ => none
  /-- A waiter with the same `id` has unlinked the task since its wait began. -/
  swept : Ptr → Bool := fun _ => false
  /-- The expired queue leads to the entry from before the wait began. -/
  stale : Ptr → Bool := fun _ => false

inductive ClockLabel where
  /-- `wait_until`, up to the call of `SleepUntil`; `timeoutTime` is already converted. -/
  | waitUntil (p : Ptr) (timeoutTime : Int)
  /-- `SleepUntil`, up to the link of the entry. -/
  | sleepUntil (p : Ptr) (now₁ now₂ : Int)
  | timeoutCallback (p : Ptr) (now : Int)
  /-- `TimeoutCallback` through an entry that was expired before the wait began. -/
  | stray (p : Ptr)
  /-- The last reading of the clock, and what `wait_until` does upon it. -/
  | waitEnd (p : Ptr) (now : Int)
  /-- The caller's lock is taken again, and `wait_until` comes to its closing assertion. -/
  | returns (p : Ptr)
  /-- A step that reads no clock. -/
  | other (l : Label)
  deriving DecidableEq, Repr

/-- The steps without a label of their own above. -/
def Label.untimed : Label → Bool
  | .waitUntil _ | .setTimeout _ | .timeoutCallback _ | .waitEnd .. => false
  | _ => true

/-- The task that begins an untimed wait. -/
def Label.waiting : Label → Option Ptr
  | .wait p => some p
  | _ => none

/-- In `wait_until`, before the last reading of the clock. -/
def Phase.timed : Phase → Bool
  | .arming | .leaving | .asleep true | .awake => true
  | .idle | .asleep false => false

namespace CondVar

/-- A timed wait of `p` begins. -/
def waitUntil (s : CondVar) (p : Ptr) : CondVar :=
  { s.enqueue p (.cv s.this) true with
    wListLock := some (.waiter p)
    armed := Function.update s.armed p false }.setPhase p .arming

/-- The exchange of `TimeoutCallback`. -/
def exchange (s : CondVar) (p : Ptr) : CondVar :=
  { s with
    cvStatus := Function.update s.cvStatus p (s.cvStatus p).timeout.1
    called := Function.update s.called p true
    sl := if (s.cvStatus p).timeout.2 then some p else none }

end CondVar

namespace Clocked

/-- `timeout_init` does not unlink an entry that a wait has left in the expired queue. -/
def step (s : Clocked) : ClockLabel → Option Clocked
  | .waitUntil p timeoutTime =>
    if s.cv.phase p = .idle ∧ s.closing p = none ∧ s.cv.wListLock = none ∧
        p ∉ s.cv.waitList then
      some { s with
        cv := s.cv.waitUntil p
        timeoutTime := Function.update s.timeoutTime p timeoutTime
        swept := Function.update s.swept p false
        stale := Function.update s.stale p (s.stale p || s.cv.armed p) }
    else none
  | .sleepUntil p now₁ now₂ =>
    if now₁ ≤ now₂ then
      (Sync.step s.cv (.setTimeout p)).map fun cv => { s with
        cv, now := max s.now now₂
        target := Function.update s.target p (convert (s.timeoutTime p) now₁ now₂) }
    else none
  | .timeoutCallback p now =>
    if s.now ≤ now ∧ s.target p ≤ now then
      (Sync.step s.cv (.timeoutCallback p)).map fun cv => { s with cv, now }
    else none
  | .stray p =>
    if s.cv.sl = none ∧ s.stale p = true then
      some { s with cv := s.cv.exchange p, stale := Function.update s.stale p false }
    else none
  | .waitEnd p now =>
    if s.now ≤ now then
      let timeout := decide (s.timeoutTime p ≤ now)
      (Sync.step s.cv (.waitEnd p timeout)).map fun cv => { s with
        cv, now
        closing := Function.update s.closing p (some now)
        swept := fun q => s.swept q || timeout && taskEq (s.cv.heap q) (s.cv.heap p) && q != p }
    else none
  | .returns p =>
    if (s.closing p).isSome then some { s with closing := Function.update s.closing p none }
    else none
  | .other l =>
    if l.untimed ∧ ∀ p ∈ l.waiting, s.closing p = none then
      (Sync.step s.cv l).map fun cv => { s with cv }
    else none

/-- The steps with their guards and their effects. -/
inductive Step (s : Clocked) : ClockLabel → Clocked → Prop where
  | waitUntil {p timeoutTime} (hph : s.cv.phase p = .idle) (hclosing : s.closing p = none)
      (hlock : s.cv.wListLock = none) (hp : p ∉ s.cv.waitList) :
    Step s (.waitUntil p timeoutTime) { s with
      cv := s.cv.waitUntil p
      timeoutTime := Function.update s.timeoutTime p timeoutTime
      swept := Function.update s.swept p false
      stale := Function.update s.stale p (s.stale p || s.cv.armed p) }
  | sleepUntil {p now₁ now₂ cv} (hle : now₁ ≤ now₂)
      (hcv : Sync.step s.cv (.setTimeout p) = some cv) :
    Step s (.sleepUntil p now₁ now₂) { s with
      cv
      now := max s.now now₂
      target := Function.update s.target p (convert (s.timeoutTime p) now₁ now₂) }
  | timeoutCallback {p now cv} (hnow : s.now ≤ now) (htarget : s.target p ≤ now)
      (hcv : Sync.step s.cv (.timeoutCallback p) = some cv) :
    Step s (.timeoutCallback p now) { s with cv, now }
  | stray {p} (hsl : s.cv.sl = none) (hstale : s.stale p = true) :
    Step s (.stray p) { s with
      cv := s.cv.exchange p, stale := Function.update s.stale p false }
  | waitEnd {p now cv} (hnow : s.now ≤ now)
      (hcv : Sync.step s.cv (.waitEnd p (decide (s.timeoutTime p ≤ now))) = some cv) :
    Step s (.waitEnd p now) { s with
      cv, now
      closing := Function.update s.closing p (some now)
      swept := fun q => s.swept q ||
        decide (s.timeoutTime p ≤ now) && taskEq (s.cv.heap q) (s.cv.heap p) && q != p }
  | returns {p} (hp : (s.closing p).isSome = true) :
    Step s (.returns p) { s with closing := Function.update s.closing p none }
  | other {l cv} (hl : l.untimed = true) (hw : ∀ p ∈ l.waiting, s.closing p = none)
      (hcv : Sync.step s.cv l = some cv) : Step s (.other l) { s with cv }

theorem step_cases {s t : Clocked} {l : ClockLabel} (h : s.step l = some t) : Step s l t := by
  cases l with
  | waitUntil p timeoutTime =>
    simp only [step, Option.ite_none_right_eq_some, Option.some.injEq] at h
    obtain ⟨⟨hph, hclosing, hlock, hp⟩, rfl⟩ := h
    exact .waitUntil hph hclosing hlock hp
  | sleepUntil p now₁ now₂ =>
    simp only [step, Option.ite_none_right_eq_some, Option.map_eq_some_iff] at h
    obtain ⟨hle, cv, hcv, rfl⟩ := h
    exact .sleepUntil hle hcv
  | timeoutCallback p now =>
    simp only [step, Option.ite_none_right_eq_some, Option.map_eq_some_iff] at h
    obtain ⟨⟨hnow, htarget⟩, cv, hcv, rfl⟩ := h
    exact .timeoutCallback hnow htarget hcv
  | stray p =>
    simp only [step, Option.ite_none_right_eq_some, Option.some.injEq] at h
    obtain ⟨⟨hsl, hstale⟩, rfl⟩ := h
    exact .stray hsl hstale
  | waitEnd p now =>
    simp only [step, Option.ite_none_right_eq_some, Option.map_eq_some_iff] at h
    obtain ⟨hnow, cv, hcv, rfl⟩ := h
    exact .waitEnd hnow hcv
  | returns p =>
    simp only [step, Option.ite_none_right_eq_some, Option.some.injEq] at h
    obtain ⟨hp, rfl⟩ := h
    exact .returns hp
  | other l =>
    simp only [step, Option.ite_none_right_eq_some, Option.map_eq_some_iff] at h
    obtain ⟨⟨hl, hw⟩, cv, hcv, rfl⟩ := h
    exact .other hl hw hcv

end Clocked

/-- A clock that stands at `now`, and nobody waits. -/
def Clocked.initial (this : Nat) (heap : Heap) (cvStatus : Ptr → CvStatus) (now : Int) : Clocked :=
  { cv := Sync.initial this heap cvStatus, now }

/-- When `wait_until` returns, its task is not linked. -/
def ReturnsUnlinked (s : Clocked) : ClockLabel → Prop
  | .returns p => p ∉ s.cv.waitList
  | _ => True

/-- Since its wait began, a notifier has popped the task, or another waiter has unlinked it, or
the last reading has reached `timeoutTime`. -/
def Clocked.Left (s : Clocked) (p : Ptr) : Prop :=
  s.cv.popped p = true ∨ s.swept p = true ∨ ∃ now ∈ s.closing p, s.timeoutTime p ≤ now

def LeavesFirst (s : Clocked) : ClockLabel → Prop
  | .returns p => s.Left p
  | _ => True

instance (s : Clocked) (p : Ptr) : Decidable (s.Left p) :=
  inferInstanceAs (Decidable (_ ∨ _ ∨ _))

instance (s : Clocked) (l : ClockLabel) : Decidable (ReturnsUnlinked s l) :=
  match l with
  | .returns p => inferInstanceAs (Decidable (p ∉ s.cv.waitList))
  | .waitUntil .. | .sleepUntil .. | .timeoutCallback .. | .stray _ | .waitEnd .. | .other _ =>
    isTrue trivial

instance (s : Clocked) (l : ClockLabel) : Decidable (LeavesFirst s l) :=
  match l with
  | .returns p => inferInstanceAs (Decidable (s.Left p))
  | .waitUntil .. | .sleepUntil .. | .timeoutCallback .. | .stray _ | .waitEnd .. | .other _ =>
    isTrue trivial

/-! ## Steps of the condition variable -/

variable {s t : CondVar} {p q : Ptr} {l : Label}

/-- What a step that reads no clock keeps of a task, unless the task begins an untimed wait. -/
structure Keeps (s t : CondVar) (p : Ptr) : Prop where
  timed : (t.phase p).timed = true → (s.phase p).timed = true
  timedWait : (t.phase p).timed = true → t.timedWait p = s.timedWait p
  armed : t.armed p = true → s.armed p = true
  called : t.called p = s.called p
  enables : s.enables p ≤ t.enables p
  awake : t.phase p = .awake → s.phase p = .awake ∨ 0 < s.enables p
  linked : t.popped p = s.popped p ∧ (p ∈ t.waitList ↔ p ∈ s.waitList) ∨
    t.popped p = true ∧ p ∉ t.waitList

/-- Nothing that concerns the task itself changes. -/
theorem Keeps.of_eq (hph : t.phase p = s.phase p) (htw : t.timedWait p = s.timedWait p)
    (harm : t.armed p = s.armed p) (hca : t.called p = s.called p)
    (hen : s.enables p ≤ t.enables p) (hpo : t.popped p = s.popped p)
    (hl : p ∈ t.waitList ↔ p ∈ s.waitList) : Keeps s t p where
  timed h := hph ▸ h
  timedWait _ := htw
  armed h := harm ▸ h
  called := hca
  enables := hen
  awake h := .inl (hph ▸ h)
  linked := .inl ⟨hpo, hl⟩

theorem keeps_enableImmediately {wListLock : Option Holder} {sl : Option Ptr} :
    Keeps s { s.enableImmediately q with wListLock, sl } p := by
  refine .of_eq rfl rfl rfl rfl ?_ rfl Iff.rfl
  simp only [CondVar.enableImmediately, Function.update_apply]
  split <;> simp_all

/-- A task goes on inside of its wait. -/
theorem keeps_setPhase {armed : Ptr → Bool} {wListLock : Option Holder} {ph : Phase}
    (hph : p = q → ph.timed = true → (s.phase p).timed = true)
    (haw : p = q → ph = .awake → 0 < s.enables p)
    (harm : armed p = true → s.armed p = true) :
    Keeps s ({ s with armed, wListLock }.setPhase q ph) p where
  timed := by
    simp only [CondVar.setPhase, Function.update_apply]
    split
    · next hpq => exact hph hpq
    · exact id
  timedWait _ := rfl
  armed := harm
  called := rfl
  enables := Nat.le_refl _
  awake := by
    simp only [CondVar.setPhase, Function.update_apply]
    split
    · next hpq => exact fun h => .inr (haw hpq h)
    · exact .inl
  linked := .inl ⟨rfl, Iff.rfl⟩

theorem keeps_step (ht : step s l = some t) (hu : l.untimed = true) (hp : p ∉ l.waiting)
    (hnodup : s.waitList.Nodup) : Keeps s t p := by
  cases step_cases ht with
  | @wait q =>
    have hpq : p ≠ q := fun h => hp (by simp [Label.waiting, h])
    refine .of_eq ?_ ?_ rfl ?_ ?_ ?_ ?_ <;> simp [CondVar.setPhase, CondVar.enqueue, hpq]
  | popNone | notify => exact .of_eq rfl rfl rfl rfl (Nat.le_refl _) rfl Iff.rfl
  | @popFront all q l hlock hl =>
    rw [hl, List.nodup_cons] at hnodup
    by_cases hpq : p = q
    · subst hpq
      exact ⟨id, fun _ => rfl, id, rfl, Nat.le_refl _, .inl, .inr ⟨by simp, hnodup.1⟩⟩
    · exact .of_eq rfl rfl rfl rfl (Nat.le_refl _) (by simp [hpq]) (by simp [hl, hpq])
  | @unlock q hph => exact keeps_setPhase (fun h _ => by simp [h, hph, Phase.timed]) (by simp) id
  | compareExchange => split <;> exact .of_eq rfl rfl rfl rfl (Nat.le_refl _) rfl Iff.rfl
  | enable | timeoutEnable => exact keeps_enableImmediately
  | resume => exact keeps_setPhase (by simp [Phase.timed]) (by simp) id
  | @resumeTimed q expired hph hen =>
    refine keeps_setPhase (fun h _ => by simp [h, hph, Phase.timed]) (fun h _ => h ▸ hen) ?_
    simp only [Function.update_apply]
    split <;> simp_all
  | @elsewhere q w hph =>
    refine ⟨id, fun htimed => ?_, id, rfl, Nat.le_refl _, .inl, .inl ⟨rfl, Iff.rfl⟩⟩
    have hpq : p ≠ q := by
      rintro rfl
      simp [hph, Phase.timed] at htimed
    simp [hpq]
  | waitUntil | setTimeout | timeoutCallback | waitEnd | waitTimeout => cases hu

theorem nodup_step (ht : step s l = some t) (hu : l.untimed = true) (h : s.waitList.Nodup) :
    t.waitList.Nodup := by
  cases step_cases ht with
  | wait _ _ hq => exact List.nodup_append.mpr ⟨h, by simp, by grind⟩
  | popFront _ hl =>
    rw [hl] at h
    exact h.of_cons
  | compareExchange => split <;> exact h
  | waitUntil | setTimeout | timeoutCallback | waitEnd | waitTimeout => cases hu
  | _ => exact h

theorem not_timed_of_waiting (ht : step s l = some t) (hp : p ∈ l.waiting) :
    (t.phase p).timed = false := by
  cases step_cases ht with
  | @wait q =>
    obtain rfl : q = p := by simpa [Label.waiting] using hp
    simp [CondVar.setPhase, Phase.timed]
  | _ => cases hp

/-! ## Who is linked -/

namespace Clocked

variable {s t : Clocked} {p q : Ptr} {l : ClockLabel}

/-- In a `wait_until` that has not returned. -/
def Waits (s : Clocked) (p : Ptr) : Prop :=
  (s.cv.phase p).timed = true ∨ (s.closing p).isSome = true

/-- A task in `wait_until` is linked until a notifier, another waiter or it itself has unlinked
it. -/
structure Linking (s : Clocked) : Prop where
  nodup : s.cv.waitList.Nodup
  closing : ∀ p, (s.closing p).isSome = true → (s.cv.phase p).timed = false
  linked : ∀ p, s.Waits p → (p ∈ s.cv.waitList ↔ ¬ s.Left p)

/-- No wait begins, reads the clock at its end, or returns. -/
theorem Linking.frame (h : Linking s) (hnodup : t.cv.waitList.Nodup)
    (hclosing : t.closing = s.closing) (htime : t.timeoutTime = s.timeoutTime)
    (hswept : t.swept = s.swept)
    (hcv : ∀ p, t.Waits p → ((t.cv.phase p).timed = true → (s.cv.phase p).timed = true) ∧
      (t.cv.popped p = s.cv.popped p ∧ (p ∈ t.cv.waitList ↔ p ∈ s.cv.waitList) ∨
        t.cv.popped p = true ∧ p ∉ t.cv.waitList)) : Linking t where
  nodup := hnodup
  closing p hp := by
    have hs := h.closing p (hclosing ▸ hp)
    have ht := (hcv p (.inr hp)).1
    grind
  linked p hp := by
    obtain ⟨htimed, hlist⟩ := hcv p hp
    have hs := h.linked p (hp.imp htimed fun hc => hclosing ▸ hc)
    rcases hlist with ⟨hpo, hmem⟩ | ⟨hpo, hmem⟩
    · rw [hmem, hs, Left, Left, hpo, hclosing, htime, hswept]
    · exact iff_of_false hmem fun hn => hn (.inl hpo)

theorem Linking.other {l : Label} (h : Linking s) (ht : Step s (.other l) t) : Linking t := by
  cases ht with
  | other hl hw hcv =>
    refine h.frame (nodup_step hcv hl h.nodup) rfl rfl rfl fun p hp => ?_
    by_cases hmem : p ∈ l.waiting
    · rcases hp with hp | hp
      · simp [not_timed_of_waiting hcv hmem] at hp
      · simp [hw p hmem] at hp
    · have hk := keeps_step hcv hl hmem h.nodup
      exact ⟨hk.timed, hk.linked⟩

theorem Linking.waitUntil {time : Int} (h : Linking s) (ht : Step s (.waitUntil q time) t) :
    Linking t := by
  cases ht with
  | waitUntil hidle hclosing hlock hmem =>
    refine ⟨List.nodup_append.mpr ⟨h.nodup, by simp, by grind⟩, fun p hp => ?_, fun p hp => ?_⟩
    · have hpq : p ≠ q := by
        rintro rfl
        simp [hclosing] at hp
      simpa [CondVar.waitUntil, CondVar.setPhase, CondVar.enqueue, hpq] using h.closing p hp
    · by_cases hpq : p = q
      · subst hpq
        simp [CondVar.waitUntil, CondVar.setPhase, CondVar.enqueue, Left, hclosing]
      · have hs := h.linked p (by
          simpa [Waits, CondVar.waitUntil, CondVar.setPhase, CondVar.enqueue, hpq] using hp)
        simpa [CondVar.waitUntil, CondVar.setPhase, CondVar.enqueue, Left, hpq] using hs

theorem Linking.sleepUntil {now₁ now₂ : Int} (h : Linking s)
    (ht : Step s (.sleepUntil q now₁ now₂) t) : Linking t := by
  cases ht with
  | sleepUntil hle hcv =>
    cases Sync.step_cases hcv with
    | setTimeout hph =>
      refine h.frame h.nodup rfl rfl rfl fun p _ => ⟨?_, .inl ⟨rfl, Iff.rfl⟩⟩
      simp only [CondVar.setPhase, Function.update_apply]
      split
      · next hpq => simp [hpq, hph, Phase.timed]
      · exact id

theorem Linking.timeoutCallback {now : Int} (h : Linking s)
    (ht : Step s (.timeoutCallback q now) t) : Linking t := by
  cases ht with
  | timeoutCallback _ _ hcv =>
    cases Sync.step_cases hcv with
    | timeoutCallback => exact h.frame h.nodup rfl rfl rfl fun p _ => ⟨id, .inl ⟨rfl, Iff.rfl⟩⟩

theorem Linking.stray (h : Linking s) (ht : Step s (.stray q) t) : Linking t := by
  cases ht with
  | stray => exact h.frame h.nodup rfl rfl rfl fun p _ => ⟨id, .inl ⟨rfl, Iff.rfl⟩⟩

theorem Linking.returns (h : Linking s) (ht : Step s (.returns q) t) : Linking t := by
  cases ht with
  | returns hq =>
    refine ⟨h.nodup, fun p hp => ?_, fun p hp => ?_⟩
    · by_cases hpq : p = q
      · simp [hpq] at hp
      · exact h.closing p (by simpa [hpq] using hp)
    · have hpq : p ≠ q := by
        rintro rfl
        have hclosed := h.closing p hq
        simp_all [Waits]
      simpa [Left, hpq] using h.linked p (by simpa [Waits, hpq] using hp)

/-- The end of a wait: the task goes idle, and only it may unlink itself and its like. -/
theorem waitEnd_cv {timeout : Bool} {cv : CondVar}
    (h : Sync.step s.cv (.waitEnd q timeout) = some cv) :
    s.cv.phase q = .awake ∧ cv = { s.cv with
      phase := Function.update s.cv.phase q .idle
      waitList := if timeout then remove s.cv.heap s.cv.waitList q else s.cv.waitList } := by
  cases Sync.step_cases h with
  | waitEnd hph => exact ⟨hph, rfl⟩
  | waitTimeout hph => exact ⟨hph, rfl⟩

theorem Linking.waitEnd {now : Int} (h : Linking s) (ht : Step s (.waitEnd q now) t) :
    Linking t := by
  cases ht with
  | waitEnd hnow hcv =>
    obtain ⟨hph, rfl⟩ := waitEnd_cv hcv
    have hnone : s.closing q = none := by
      have := h.closing q
      simpa [hph, Phase.timed] using this
    refine ⟨?_, fun p hp => ?_, fun p hp => ?_⟩
    · dsimp only
      split
      · exact h.nodup.filter _
      · exact h.nodup
    · by_cases hpq : p = q
      · simp [hpq, Phase.timed]
      · simpa [hpq] using h.closing p (by simpa [hpq] using hp)
    · by_cases hpq : p = q
      · subst hpq
        have hs := h.linked p (.inl (by simp [hph, Phase.timed]))
        simp only [Left, hnone] at hs
        by_cases hle : s.timeoutTime p ≤ now
        · simp [hle, mem_remove, Left]
        · simpa [hle, Left] using hs
      · have hs := h.linked p (by simpa [Waits, hpq] using hp)
        simp only [Left] at hs
        by_cases hle : s.timeoutTime q ≤ now
        · simp only [hle, decide_true, if_true, mem_remove, hs]
          simp only [Left, Function.update_of_ne hpq, taskEq]
          simp [hpq]
          grind
        · simpa [hle, Left, hpq] using hs

theorem Linking.step (h : Linking s) (ht : s.step l = some t) : Linking t := by
  have hstep := step_cases ht
  cases l with
  | waitUntil => exact h.waitUntil hstep
  | sleepUntil => exact h.sleepUntil hstep
  | timeoutCallback => exact h.timeoutCallback hstep
  | stray => exact h.stray hstep
  | waitEnd => exact h.waitEnd hstep
  | returns => exact h.returns hstep
  | other => exact h.other hstep

theorem linking_initial (this : Nat) (heap : Heap) (cvStatus : Ptr → CvStatus) (now : Int) :
    Linking (initial this heap cvStatus now) where
  nodup := List.nodup_nil
  closing p hp := by cases hp
  linked p hp := by simp [Waits, initial, Sync.initial, Phase.timed] at hp

theorem Linking.returns_iff (h : Linking s) (ht : s.step l = some t) :
    ReturnsUnlinked s l ↔ LeavesFirst s l := by
  cases step_cases ht with
  | returns hp => exact (not_congr (h.linked _ (.inr hp))).trans not_not
  | _ => exact Iff.rfl

/-- In every run, of any tasks with any time points, with any readings of a clock that never goes
back: whenever `wait_until` returns, its task is not linked in the wait list, exactly when at every
return a notifier has popped the task, another waiter has unlinked it, or the last reading of the
clock has reached `timeoutTime`. -/
theorem returnsUnlinked_iff {this : Nat} {heap : Heap} {cvStatus : Ptr → CvStatus} {now : Int}
    {ls : List ClockLabel} (hr : run step (initial this heap cvStatus now) ls = some s) :
    Along step ReturnsUnlinked (initial this heap cvStatus now) ls ↔
      Along step LeavesFirst (initial this heap cvStatus now) ls := by
  exact along_congr_of_run (I := Linking) (fun s l t h _ ht => h.step ht)
    (fun s l t h ht => h.returns_iff ht) (linking_initial this heap cvStatus now) hr

/-- A task is notified, and a second one sleeps until its time. -/
def punctualRun : List ClockLabel :=
  [.waitUntil 0 10, .sleepUntil 0 2 2, .other (.unlock 0), .waitUntil 1 10, .sleepUntil 1 3 3,
    .other (.unlock 1), .other (.notify false), .other .popFront, .other .compareExchange,
    .other .enable, .other (.resume 0 false), .waitEnd 0 5, .returns 0, .timeoutCallback 1 10,
    .other .timeoutEnable, .other (.resume 1 false), .waitEnd 1 10, .returns 1]

theorem returnsUnlinked_punctualRun :
    Along step ReturnsUnlinked (initial 1 (fun _ => {}) (fun _ => .zero) 0) punctualRun := by
  have hrun : (run step (initial 1 (fun _ => {}) (fun _ => .zero) 0) punctualRun).isSome := by
    decide
  obtain ⟨s, hs⟩ := Option.isSome_iff_exists.mp hrun
  exact (returnsUnlinked_iff hs).mpr (by decide)

/-- Between the two readings of `convert` the clock goes from 2 to 3: the timer calls back at 9. -/
def earlyTargetRun : List ClockLabel :=
  [.waitUntil 0 10, .sleepUntil 0 2 3, .other (.unlock 0), .timeoutCallback 0 9,
    .other .timeoutEnable, .other (.resume 0 false), .waitEnd 0 9]

/-- The clock is read at 9, and `wait_until` returns with its task linked. -/
theorem not_returnsUnlinked_earlyTargetRun :
    (run step (initial 1 (fun _ => {}) (fun _ => .zero) 0) earlyTargetRun).map (fun s =>
      (s.cv.waitList, s.closing 0, s.timeoutTime 0)) = some ([0], some 9, 10) ∧
    ¬ Along step ReturnsUnlinked (initial 1 (fun _ => {}) (fun _ => .zero) 0)
      (earlyTargetRun ++ [.returns 0]) := by
  decide

end Clocked

end JamSched.Sync
