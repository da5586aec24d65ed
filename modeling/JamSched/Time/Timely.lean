import JamSched.Time.TimerWheel
import JamSched.Time.Interval

/-!
# Waking up on time

On the timing wheel, a task that sleeps or waits is called back at its time, neither before nor
after: as soon as the timer has gone through its expired queue, every task that is still asleep has
a target that is still to come. This takes that no task leaves `SetTimeout` with its entry in the
expired queue and none is deleted inside of it.
-/
namespace JamSched.Timer

open Machine Timeouts

variable {s t : OnWheel} {p q : Ptr} {l : Label} {now dt : Nat} {ph : Phase}

/-- The time that each task has asked for last. -/
def noteTarget (asked : Ptr → Nat) : Label → Ptr → Nat
  | .sleep p _ dt | .setTimeout p _ dt => Function.update asked p dt
  | _ => asked

/-- No task returns from `SetTimeout` while its entry is in the expired queue, and none is deleted
inside of a call of the timer. -/
def WheelClean (s : OnWheel) (l : Label) : Prop :=
  (∀ p ∈ l.returning, s.timeoutExpired p = false) ∧ ∀ p ∈ l.ended, s.phase p = .idle

instance (s : OnWheel) (l : Label) : Decidable (WheelClean s l) :=
  inferInstanceAs (Decidable ((∀ p ∈ l.returning, s.timeoutExpired p = false) ∧
    ∀ p ∈ l.ended, s.phase p = .idle))

/-- The task is in a call of the timer that nothing has ended yet. -/
def Phase.asleep : Phase → Bool
  | .sleeping | .waiting => true
  | .idle | .woken | .deleted => false

/-- The task is in a call of the timer. -/
def Phase.inCall : Phase → Bool
  | .sleeping | .waiting | .woken => true
  | .idle | .deleted => false

/-- The entries of the tasks that are asleep are linked, for the times that these have asked for,
and only tasks in a call have linked entries. -/
structure Timely (s : OnWheel) (asked : Ptr → Nat) : Prop where
  ok : s.Ok
  asleep : ∀ p, (s.phase p).asleep = true → (s.timingWheelPtr.timeout p).pending ≠ none
  expires : ∀ p, (s.timingWheelPtr.timeout p).pending ≠ none →
    (s.timingWheelPtr.timeout p).expires.toNat = asked p
  inCall : ∀ p, (s.timingWheelPtr.timeout p).pending ≠ none → (s.phase p).inCall = true
  strays : s.strays = []

variable {asked : Ptr → Nat}

theorem OnWheel.Ok.updateTimeout_spec (h : s.Ok) (ht : s.updateTimeout now = some t) :
    t = { s with timingWheelPtr := t.timingWheelPtr } ∧
      t.timingWheelPtr.curtime.toNat = now ∧
      ∀ p, Moved (s.timingWheelPtr.timeout p) (t.timingWheelPtr.timeout p) := by
  unfold OnWheel.updateTimeout at ht
  split at ht
  · next hnow =>
    obtain ⟨T, hT, rfl⟩ := Option.map_eq_some_iff.mp ht
    simp only [Timeouts.step] at hT
    split at hT
    · next hle =>
      cases hT
      refine ⟨rfl, ?_, h.wellFormed.timeout_update hle⟩
      exact (congrArg BitVec.toNat (h.wellFormed.curtime_update hle)).trans (toNat_ofNat_of_lt hnow)
    · cases hT
  · cases ht

theorem Timely.updateTimeout (h : Timely s asked) (ht : s.updateTimeout now = some t) :
    Timely t asked := by
  obtain ⟨hok, -⟩ := h.ok.updateTimeout ht
  obtain ⟨heq, -, hmoved⟩ := h.ok.updateTimeout_spec ht
  have hlinked (p : Ptr) : (t.timingWheelPtr.timeout p).pending ≠ none ↔
      (s.timingWheelPtr.timeout p).pending ≠ none := not_congr (hmoved p).linked
  rw [heq] at hlinked hmoved hok ⊢
  exact ⟨hok, fun p hp => (hlinked p).mpr (h.asleep p hp),
    fun p hp => (congrArg BitVec.toNat (hmoved p).expires).trans (h.expires p ((hlinked p).mp hp)),
    fun p hp => h.inCall p ((hlinked p).mp hp), h.strays⟩

/-- What `SetTimeout` does before the task is swapped out. -/
theorem setTimeout_spec (ht : s.setTimeout p now dt ph = some t) :
    ∃ s₁, s.updateTimeout now = some s₁ ∧ t = { s₁ with
        timingWheelPtr := t.timingWheelPtr
        phase := Function.update s₁.phase p ph } ∧
      (t.timingWheelPtr.timeout p).pending ≠ none ∧
      (t.timingWheelPtr.timeout p).expires.toNat = dt ∧
      ∀ q, q ≠ p → t.timingWheelPtr.timeout q = s₁.timingWheelPtr.timeout q := by
  obtain ⟨s₁, hs₁, ht⟩ := Option.bind_eq_some_iff.mp ht
  obtain ⟨T, hT, ht⟩ := Option.bind_eq_some_iff.mp ht
  simp only [Timeouts.step] at hT
  split at hT
  · cases hT
    split at ht
    · next hdt =>
      cases ht
      have htimeout : (s₁.timingWheelPtr.timeoutInit p 2).timeout p = { flags := 2 } := by
        simp [Timeouts.timeoutInit]
      have hadd : (s₁.timingWheelPtr.timeoutInit p 2).add p (.ofNat 64 dt) = _ := add_eq_sched
      simp only [htimeout, Timeout.isInt, Timeout.isAbs] at hadd
      refine ⟨s₁, hs₁, rfl, ?_, ?_, fun q hq => ?_⟩
      · show ((Timeouts.add _ p _).timeout p).pending ≠ none
        rw [hadd]
        simp [sched]
      · show ((Timeouts.add _ p _).timeout p).expires.toNat = dt
        rw [hadd]
        simpa [sched] using hdt
      · show (Timeouts.add _ p _).timeout q = _
        rw [hadd]
        simp [sched, hq, Timeouts.timeoutInit]
    · cases ht
  · cases hT

theorem Timely.setTimeout (h : Timely s asked) (hph : ph.inCall = true)
    (ht : s.setTimeout p now dt ph = some t) : Timely t (Function.update asked p dt) := by
  obtain ⟨hok, -⟩ := h.ok.setTimeout ht
  obtain ⟨s₁, hs₁, heq, hlinked, hexpires, hothers⟩ := setTimeout_spec ht
  have h₁ := h.updateTimeout hs₁
  have hphase : t.phase = Function.update s₁.phase p ph := congrArg OnWheel.phase heq
  refine ⟨hok, fun q hq => ?_, fun q hq => ?_, fun q hq => ?_, ?_⟩
  · rw [hphase] at hq
    by_cases hqp : q = p
    · rwa [hqp]
    · rw [Function.update_of_ne hqp] at hq
      rw [hothers q hqp]
      exact h₁.asleep q hq
  · by_cases hqp : q = p
    · rw [hqp, Function.update_self, hexpires]
    · rw [hothers q hqp] at hq ⊢
      rw [Function.update_of_ne hqp]
      exact h₁.expires q hq
  · rw [hphase]
    by_cases hqp : q = p
    · rw [hqp, Function.update_self, hph]
    · rw [hothers q hqp] at hq
      rw [Function.update_of_ne hqp]
      exact h₁.inCall q hq
  · rw [heq]
    exact h₁.strays

/-- A task changes its phase, and possibly loses its entry. -/
theorem Timely.setPhase (h : Timely s asked) (hph : ph.asleep = false)
    (hlinked : (s.timingWheelPtr.timeout p).pending ≠ none → ph.inCall = true) :
    Timely (s.setPhase p ph) asked := by
  refine ⟨h.ok.setPhase, fun q hq => ?_, h.expires, fun q hq => ?_, h.strays⟩
  · by_cases hqp : q = p
    · subst hqp
      simp [OnWheel.setPhase, hph] at hq
    · simp only [OnWheel.setPhase, Function.update_of_ne hqp] at hq
      exact h.asleep q hq
  · by_cases hqp : q = p
    · subst hqp
      simpa [OnWheel.setPhase] using hlinked hq
    · simp only [OnWheel.setPhase, Function.update_of_ne hqp]
      exact h.inCall q hq

/-- A task loses its entry and is awake. -/
theorem Timely.del (h : Timely s asked) (hph : ph.asleep = false) :
    Timely ({ s with timingWheelPtr := s.timingWheelPtr.del p }.setPhase p ph) asked := by
  have hdel (q : Ptr) : ((s.timingWheelPtr.del p).timeout q).pending ≠ none →
      q ≠ p ∧ (s.timingWheelPtr.del p).timeout q = s.timingWheelPtr.timeout q := by
    rw [timeout_del]
    split <;> simp_all
  refine ⟨(h.ok.del p).setPhase, fun q hq => ?_, fun q hq => ?_, fun q hq => ?_, h.strays⟩
  · have hqp : q ≠ p := by
      rintro rfl
      simp [OnWheel.setPhase, hph] at hq
    simp only [OnWheel.setPhase, Function.update_of_ne hqp] at hq
    show ((s.timingWheelPtr.del p).timeout q).pending ≠ none
    rw [timeout_del, if_neg hqp]
    exact h.asleep q hq
  · have hsame := (hdel q hq).2
    show ((s.timingWheelPtr.del p).timeout q).expires.toNat = asked q
    rw [hsame]
    exact h.expires q (hsame ▸ hq)
  · obtain ⟨hqp, hsame⟩ := hdel q hq
    simp only [OnWheel.setPhase, Function.update_of_ne hqp]
    exact h.inCall q (hsame ▸ hq)

theorem mem_expired_of_get {T : Timeouts} {r : Ptr × Timeouts} (hr : T.get = some r) :
    r.1 ∈ T.list .expired := by
  unfold Timeouts.get at hr
  split at hr
  · cases hr
  · next p xs hxs =>
    cases hr
    simp [hxs]

/-- The timer calls back a task that is in a call, and whose time has come. -/
theorem Timely.get (h : Timely s asked) {r : Ptr × Timeouts} (hr : s.timingWheelPtr.get = some r) :
    (s.phase r.1).inCall = true ∧ asked r.1 ≤ s.timingWheelPtr.curtime.toNat := by
  obtain ⟨hlinked, hdue⟩ := h.ok.wellFormed.mem_expired_iff.mp (mem_expired_of_get hr)
  rw [← h.expires _ hlinked]
  exact ⟨h.inCall _ hlinked, BitVec.le_def.mp hdue⟩

theorem Timely.callback (h : Timely s asked) {r : Ptr × Timeouts}
    (hr : s.timingWheelPtr.get = some r) :
    Timely ({ s with timingWheelPtr := r.2 }.callback r.1) asked := by
  have hin := (h.get hr).1
  obtain ⟨-, -, -, hdel⟩ := listOf_get h.ok.wellFormed (h.ok.isInt r.1) hr rfl
  rw [hdel]
  unfold OnWheel.callback
  dsimp only
  split
  · exact h.del rfl
  · exact h.del rfl
  · next hwoken =>
    have hphase : Function.update s.phase r.1 .woken = s.phase := by
      rw [← hwoken, Function.update_eq_self]
    have hdel : Timely (OnWheel.setPhase _ r.1 .woken) asked := h.del rfl
    rwa [OnWheel.setPhase, hphase] at hdel
  · next hidle =>
    rw [hidle] at hin
    cases hin
  · next hdeleted =>
    rw [hdeleted] at hin
    cases hin

theorem Timely.step (h : Timely s asked) (hc : WheelClean s l) (ht : wheelStep s l = some t) :
    Timely t (noteTarget asked l) := by
  cases l with
  | sleep p now dt =>
    simp only [wheelStep] at ht
    split at ht
    · exact h.setTimeout rfl ht
    · cases ht
  | setTimeout p now dt =>
    simp only [wheelStep] at ht
    split at ht
    · exact h.setTimeout rfl ht
    · cases ht
  | notifyAllTimeouts now =>
    simp only [wheelStep] at ht
    split at ht
    · obtain ⟨s₁, hs₁, rfl⟩ := Option.map_eq_some_iff.mp ht
      have h₁ := h.updateTimeout hs₁
      exact ⟨⟨h₁.ok.wellFormed, h₁.ok.isInt⟩, h₁.asleep, h₁.expires, h₁.inCall, h₁.strays⟩
    · cases ht
  | timeoutCallback =>
    simp only [wheelStep] at ht
    split at ht
    · obtain ⟨r, hr, rfl⟩ := Option.map_eq_some_iff.mp ht
      exact h.callback hr
    · cases ht
  | notifyEnd =>
    simp only [wheelStep] at ht
    split at ht
    · cases ht
      exact ⟨⟨h.ok.wellFormed, h.ok.isInt⟩, h.asleep, h.expires, h.inCall, h.strays⟩
    · cases ht
  | notify p =>
    simp only [wheelStep] at ht
    split at ht
    · cases ht
      exact h.setPhase rfl fun _ => rfl
    · cases ht
  | returns p =>
    have hexpired := hc.1 p rfl
    simp only [wheelStep, hexpired] at ht
    split at ht
    · cases ht
      exact h.del rfl
    · cases ht
  | endTask p =>
    have hidle := hc.2 p rfl
    simp only [wheelStep] at ht
    split at ht
    · cases ht
      refine h.setPhase rfl fun hlinked => ?_
      have hin := h.inCall p hlinked
      rw [hidle] at hin
      cases hin
    · cases ht

theorem timely_initial {taskType : Ptr → TaskType} :
    Timely (wheelInitial taskType) fun _ => 0 := by
  refine ⟨⟨wellFormed_init, fun _ => ?_⟩, ?_, ?_, ?_, rfl⟩ <;>
    simp [wheelInitial, Timeout.isInt, Phase.asleep]

theorem timely_of_run {ls : List Label} (h : Timely s asked) (hc : Along wheelStep WheelClean s ls)
    (hr : run wheelStep s ls = some t) : Timely t (ls.foldl noteTarget asked) := by
  induction ls generalizing s asked with
  | nil =>
    obtain rfl : s = t := by simpa using hr
    exact h
  | cons l ls ih =>
    obtain ⟨u, hu, hr⟩ := run_cons.mp hr
    exact ih (h.step hc.1 hu) (hc.2 u hu) hr

/-- In every such run of the timer on the wheels: no callback comes for a task that is in no call,
and none before the time that its task has asked for; the entry of a task in no call is linked
nowhere; and when the timer has gone through its expired queue, the time of every task that is still
asleep is to come. -/
theorem timely_run {taskType : Ptr → TaskType} {ls : List Label}
    (hr : run wheelStep (wheelInitial taskType) ls = some s)
    (hc : Along wheelStep WheelClean (wheelInitial taskType) ls) :
    let asked := ls.foldl noteTarget fun _ => 0
    s.strays = [] ∧
    (∀ p T, s.timingWheelPtr.get = some (p, T) → asked p ≤ s.timingWheelPtr.curtime.toNat) ∧
    (∀ p, s.phase p = .idle ∨ s.phase p = .deleted →
      (s.timingWheelPtr.timeout p).pending = none) ∧
    ∀ t, wheelStep s .notifyEnd = some t →
      ∀ p, s.phase p = .sleeping ∨ s.phase p = .waiting →
        s.timingWheelPtr.curtime.toNat < asked p := by
  have h := timely_of_run timely_initial hc hr
  refine ⟨h.strays, fun p T hget => (h.get hget).2, fun p hp => ?_, fun t ht p hp => ?_⟩
  · by_contra hlinked
    have hin := h.inCall p hlinked
    rcases hp with hp | hp <;> simp [hp, Phase.inCall] at hin
  · have hasleep : (s.phase p).asleep = true := by
      rcases hp with hp | hp <;> rw [hp] <;> rfl
    have hlinked := h.asleep p hasleep
    have hexpired : s.timingWheelPtr.list .expired = [] := by
      simp only [wheelStep] at ht
      split at ht
      · next hend => exact get_isNone.mp hend.2
      · cases ht
    rw [← h.expires p hlinked]
    by_contra hdue
    have hin := h.ok.wellFormed.mem_expired_iff.mpr
      ⟨hlinked, BitVec.le_def.mpr (Nat.le_of_not_lt hdue)⟩
    rw [hexpired] at hin
    cases hin

set_option maxRecDepth 20000 in
theorem wheelRun_clean : Along wheelStep WheelClean (wheelInitial fun _ => .batch) wheelRun := by
  decide

theorem timely_wheelRun : ∃ s, run wheelStep (wheelInitial fun _ => .batch) wheelRun = some s ∧
    s.strays = [] := by
  obtain ⟨s, hs⟩ := Option.isSome_iff_exists.mp wheelRun_some
  exact ⟨s, hs, (timely_run hs wheelRun_clean).1⟩

/-- The destructor: the wheel goes to the end of time, and the task of each timeout that it gets is
deleted. -/
def OnWheel.destroy (s : OnWheel) : List Ptr × Timeouts :=
  let T := s.timingWheelPtr.update (.allOnes 64)
  getAll T.rounds T

/-- The destructor deletes each task that is asleep, only tasks that are in a call, none twice, and
it leaves nothing linked. -/
theorem destroy_run {taskType : Ptr → TaskType} {ls : List Label}
    (hr : run wheelStep (wheelInitial taskType) ls = some s)
    (hc : Along wheelStep WheelClean (wheelInitial taskType) ls) :
    s.destroy.1.Nodup ∧ (∀ p, (s.phase p).asleep = true → p ∈ s.destroy.1) ∧
      (∀ p ∈ s.destroy.1, (s.phase p).inCall = true) ∧
      ∀ p, (s.destroy.2.timeout p).pending = none := by
  have h := timely_of_run timely_initial hc hr
  have hmax (v : TimeoutT) : v ≤ .allOnes 64 := le_allOnes v
  have hnotified : Notified s.timingWheelPtr (.allOnes 64) s.destroy := by
    rw [OnWheel.destroy]
    exact h.ok.wellFormed.notified (hmax _) fun p _ hint => by simp [h.ok.isInt p] at hint
  generalize s.destroy = r at hnotified ⊢
  refine ⟨hnotified.nodup, fun p hp => (hnotified.mem p).mpr ⟨h.asleep p hp, hmax _⟩, fun p hp =>
    h.inCall p ((hnotified.mem p).mp hp).1, fun p => ?_⟩
  by_contra hlinked
  by_cases hp : p ∈ r.1
  · have hint := ((hnotified.fired p hp).linked.mp hlinked).1
    rw [h.ok.isInt p] at hint
    cases hint
  · refine hp ((hnotified.mem p).mpr ⟨?_, hmax _⟩)
    rwa [Ne, ← (hnotified.others p hp).linked]

theorem destroy_wheelRun : ∃ s, run wheelStep (wheelInitial fun _ => .batch) wheelRun = some s ∧
    s.destroy.1.Nodup := by
  obtain ⟨s, hs⟩ := Option.isSome_iff_exists.mp wheelRun_some
  exact ⟨s, hs, (destroy_run hs wheelRun_clean).1⟩

end JamSched.Timer
