import JamSched.Time.Expired
import JamSched.Sync.Timer

/-!
# The timer on the timing wheel

`Timer` as `time.cc` has it, with a `struct timeouts` in the place of a list of deadlines: its runs
are runs of the timer on the list, whatever the order of the list is.
-/
namespace JamSched.Timer

open Machine

/-- `Timer`, and the tasks that are in its calls. -/
structure OnWheel where
  taskType : Ptr → TaskType := fun _ => .batch
  timingWheelPtr : Timeouts := {}
  /-- `NotifyAllTimeouts` holds `sl`. -/
  notifying : Bool := false
  phase : Ptr → Phase := fun _ => .idle
  /-- Calls of `TimeoutCallback` for a task that is in no `SetTimeout`. -/
  strays : List Ptr := []

namespace OnWheel

variable (s : OnWheel)

def setPhase (p : Ptr) (ph : Phase) : OnWheel :=
  { s with phase := Function.update s.phase p ph }

/-- `UpdateTimeoutWithoutLock`, with a reading of the steady clock. -/
def updateTimeout (now : Nat) : Option OnWheel :=
  if now < 2 ^ 64 then
    (s.timingWheelPtr.step (.update (.ofNat 64 now))).map fun timingWheelPtr =>
      { s with timingWheelPtr }
  else none

/-- The beginning of all variants of `SetTimeout`; they are all called with `TIMEOUT_ABS`. -/
def setTimeout (p : Ptr) (now dt : Nat) (ph : Phase) : Option OnWheel := do
  let s ← s.updateTimeout now
  let timingWheelPtr ← s.timingWheelPtr.step (.timeoutInit p 2)
  if dt < 2 ^ 64 then
    some ({ s with timingWheelPtr := timingWheelPtr.add p (.ofNat 64 dt) }.setPhase p ph)
  else none

/-- `TimeoutCallback`. -/
def callback (p : Ptr) : OnWheel :=
  match s.phase p with
  | .waiting => s.setPhase p .woken
  | .sleeping => s.setPhase p .idle
  | .woken => s
  | .idle | .deleted => { s with strays := p :: s.strays }

/-- `timeout_expired`. -/
def timeoutExpired (p : Ptr) : Bool := (s.timingWheelPtr.timeout p).pending = some .expired

end OnWheel

/-- The steps of the timer, with what it does to the wheel. -/
def wheelStep (s : OnWheel) : Label → Option OnWheel
  | .sleep p now dt =>
    if s.phase p = .idle ∧ s.notifying = false then s.setTimeout p now dt .sleeping else none
  | .setTimeout p now dt =>
    if s.phase p = .idle ∧ s.notifying = false then s.setTimeout p now dt .waiting else none
  | .notifyAllTimeouts now =>
    if s.notifying = false then (s.updateTimeout now).map fun s => { s with notifying := true }
    else none
  | .timeoutCallback =>
    if s.notifying = true then
      s.timingWheelPtr.get.map fun r => { s with timingWheelPtr := r.2 }.callback r.1
    else none
  | .notifyEnd =>
    if s.notifying = true ∧ s.timingWheelPtr.get.isNone then some { s with notifying := false }
    else none
  | .notify p => if s.phase p = .waiting then some (s.setPhase p .woken) else none
  | .returns p =>
    if s.phase p = .woken ∧ s.notifying = false then
      some ((if s.timeoutExpired p then s
        else { s with timingWheelPtr := s.timingWheelPtr.del p }).setPhase p .idle)
    else none
  | .endTask p =>
    if s.phase p = .idle ∨ s.taskType p = .realTime ∧ s.phase p ≠ .deleted then
      some (s.setPhase p .deleted)
    else none

/-- No task in a call of the timer. -/
def wheelInitial (taskType : Ptr → TaskType) : OnWheel := { taskType }

section Wheel

variable {T : Timeouts} {p : Ptr} {now dt : Nat}

open Timeouts

/-- The list of deadlines, with the times as numbers. -/
def listOf (T : Timeouts) : Wheel Ptr Nat := T.deadlines.wheel.map BitVec.toNat

theorem toNat_ofNat_of_lt (h : now < 2 ^ 64) : (BitVec.ofNat 64 now).toNat = now := by
  rw [BitVec.toNat_ofNat, Nat.mod_eq_of_lt h]

theorem listOf_update (h : WellFormed T []) (hnow : now < 2 ^ 64)
    (hle : T.curtime ≤ .ofNat 64 now) :
    ((listOf T).update now).Reorder (listOf (T.update (.ofNat 64 now))) := by
  have hmap : (T.deadlines.wheel.map BitVec.toNat).update (BitVec.ofNat 64 now).toNat =
      (T.deadlines.wheel.update (.ofNat 64 now)).map BitVec.toNat :=
    Wheel.update_map _ _ fun e _ => BitVec.lt_def.symm
  rw [toNat_ofNat_of_lt hnow] at hmap
  rw [listOf, hmap]
  exact (h.deadlines_update hle).wheel.map _

theorem links_listOf (h : WellFormed T []) (hp : (T.timeout p).pending = none) :
    (listOf T).links p = 0 := by
  have hslots : p ∉ T.inSlots := fun hin => (h.mem_inSlots_iff.mp hin).1 hp
  have hexpired : p ∉ T.list .expired := fun hin => (h.mem_expired_iff.mp hin).1 hp
  rw [listOf, Wheel.links_map]
  simp [Wheel.links, deadlines, Function.comp_def, List.count_eq_zero_of_not_mem, hslots, hexpired]

/-- `timeout_init` and `timeouts_add` with `TIMEOUT_ABS`. -/
theorem listOf_add (h : WellFormed T []) (hp : (T.timeout p).pending = none) (hdt : dt < 2 ^ 64) :
    ((listOf T).add p dt).Reorder (listOf ((T.timeoutInit p 2).add p (.ofNat 64 dt))) := by
  have hinit := h.timeoutInit hp 2
  have htimeout : (T.timeoutInit p 2).timeout p = { flags := 2 } := by simp [Timeouts.timeoutInit]
  have hadd : (T.timeoutInit p 2).add p (.ofNat 64 dt) =
      (T.timeoutInit p 2).link p (.ofNat 64 dt) := by
    rw [add_eq_sched, Timeouts.sched, del_of_none] <;> simp [htimeout, Timeout.isInt, Timeout.isAbs]
  have hlink := hinit.wheel_link (by rw [htimeout]) (.ofNat 64 dt)
  have hwheel := (h.deadlines_timeoutInit hp 2).wheel.add p (.ofNat 64 dt)
  have hmap : (T.deadlines.wheel.map BitVec.toNat).add p (BitVec.ofNat 64 dt).toNat =
      (T.deadlines.wheel.add p (.ofNat 64 dt)).map BitVec.toNat :=
    Wheel.add_map _ _ BitVec.lt_def.symm
  rw [toNat_ofNat_of_lt hdt] at hmap
  rw [listOf, hmap, hadd]
  exact (hwheel.trans hlink).map _

theorem listOf_del (h : WellFormed T []) (p : Ptr) :
    ((listOf T).del p).Reorder (listOf (T.del p)) := by
  rw [listOf, Wheel.del_map]
  exact (h.deadlines_del p).wheel.map _

/-- Without an interval, nothing that is gotten is linked again. -/
theorem listOf_get (h : WellFormed T []) (hint : (T.timeout p).isInt = false) {r : Ptr × Timeouts}
    (hr : T.get = some r) (hp : r.1 = p) : ∃ w, (listOf T).get = some (p, w) ∧
      w.Reorder (listOf r.2) ∧ r.2 = T.del p := by
  obtain ⟨w, hget, hdel, hagain⟩ := h.deadlines_get hr
  rw [hp] at hget hdel hagain
  rw [again_of_not (by simp [Timeout.isInt] at hint ⊢; simp [hint])] at hagain
  refine ⟨w.map BitVec.toNat, ?_, ?_, hagain⟩
  · rw [listOf, Wheel.get_map, hget]
    rfl
  · rw [hagain]
    exact hdel.wheel.map _

end Wheel

section Simulation

variable {s s' : OnWheel} {p q : Ptr} {l : Label} {now dt : Nat} {ph : Phase}

/-- The timer with a list of deadlines instead of the wheels. -/
def OnWheel.onList (s : OnWheel) : State :=
  { taskType := s.taskType, timingWheel := listOf s.timingWheelPtr, notifying := s.notifying,
    phase := s.phase, strays := s.strays }

/-- The list may be in another order. -/
def State.Reorder (s t : State) : Prop :=
  ∃ w, s.timingWheel.Reorder w ∧ t = { s with timingWheel := w }

/-- A step of the timer, whatever the order of the list is. -/
def AnyOrder (s : State) (l : Label) (t : State) : Prop := ∃ s₀, s.Reorder s₀ ∧ step s₀ l = some t

/-- The wheels are in order, and no timeout has an interval. -/
structure OnWheel.Ok (s : OnWheel) : Prop where
  wellFormed : s.timingWheelPtr.WellFormed []
  isInt : ∀ p, (s.timingWheelPtr.timeout p).isInt = false

theorem OnWheel.Ok.updateTimeout (h : s.Ok) (hs : s.updateTimeout now = some s') :
    s'.Ok ∧ (s.onList.timingWheel.update now).Reorder s'.onList.timingWheel ∧
      s' = { s with timingWheelPtr := s'.timingWheelPtr } ∧
      ∀ p, (s'.timingWheelPtr.timeout p).pending = none ↔
        (s.timingWheelPtr.timeout p).pending = none := by
  unfold OnWheel.updateTimeout at hs
  split at hs
  · next hnow =>
    obtain ⟨T, hT, rfl⟩ := Option.map_eq_some_iff.mp hs
    simp only [Timeouts.step] at hT
    split at hT
    · next hle =>
      cases hT
      have hmoved := h.wellFormed.timeout_update hle
      exact ⟨⟨h.wellFormed.update hle, fun p => (hmoved p).isInt.trans (h.isInt p)⟩,
        listOf_update h.wellFormed hnow hle, rfl, fun p => (hmoved p).linked⟩
    · cases hT
  · cases hs

/-- The beginning of `SetTimeout` is that of the timer on the list. -/
theorem OnWheel.Ok.setTimeout (h : s.Ok) (hs : s.setTimeout p now dt ph = some s') :
    s'.Ok ∧ (s.onList.arm p now dt ph).Reorder s'.onList := by
  obtain ⟨s₁, hs₁, hs⟩ := Option.bind_eq_some_iff.mp hs
  obtain ⟨T, hT, hs⟩ := Option.bind_eq_some_iff.mp hs
  obtain ⟨hok, hreorder, hs₁, hlinked⟩ := h.updateTimeout hs₁
  simp only [Timeouts.step] at hT
  split at hT
  · next hp =>
    cases hT
    split at hs
    · next hdt =>
      cases hs
      have hlinks : (s.onList.timingWheel.update now).links p = 0 := by
        rw [Wheel.links_update]
        exact links_listOf h.wellFormed ((hlinked p).mp hp)
      refine ⟨⟨(hok.wellFormed.timeoutInit hp 2).add _, fun q => ?_⟩, _,
        (hreorder.add p dt).trans (listOf_add hok.wellFormed hp hdt), ?_⟩
      · have hq := hok.isInt q
        simp only [Timeout.isInt, OnWheel.setPhase, Timeouts.flags_add, Timeouts.timeoutInit,
          Timeouts.timeout_modify] at hq ⊢
        split
        · rfl
        · exact hq
      · simp only [State.arm, hlinks]
        rw [hs₁]
        rfl
    · cases hs
  · cases hT

theorem State.Reorder.setPhase {s t : State} (h : s.Reorder t) :
    (s.setPhase p ph).Reorder (t.setPhase p ph) := by
  obtain ⟨w, hw, rfl⟩ := h
  exact ⟨w, hw, rfl⟩

theorem State.Reorder.callback {s t : State} (h : s.Reorder t) :
    (s.callback p).Reorder (t.callback p) := by
  obtain ⟨w, hw, rfl⟩ := h
  unfold State.callback State.setPhase
  cases s.phase p <;> exact ⟨w, hw, by simp⟩

theorem onList_callback : (s.callback p).onList = s.onList.callback p := by
  have hphase : s.onList.phase = s.phase := rfl
  unfold OnWheel.callback State.callback
  rw [hphase]
  cases s.phase p <;> rfl

theorem State.Reorder.refl (s : State) : s.Reorder s := ⟨s.timingWheel, .refl _, rfl⟩

theorem mem_expired_listOf (h : s.Ok) :
    p ∈ s.onList.timingWheel.expired ↔ s.timeoutExpired p = true := by
  have hmem := h.wellFormed.mem p .expired
  simp only [List.not_mem_nil, not_false_eq_true, and_true] at hmem
  rw [OnWheel.timeoutExpired, decide_eq_true_iff, ← hmem]
  rfl

@[simp] theorem timingWheelPtr_callback :
    (s.callback p).timingWheelPtr = s.timingWheelPtr := by
  unfold OnWheel.callback
  split <;> rfl

theorem isInt_del {T : Timeouts} : ((T.del p).timeout q).isInt = (T.timeout q).isInt := by
  rw [Timeouts.timeout_del]
  split
  · next hqp => rw [hqp, Timeout.isInt, Timeout.isInt]
  · rfl

theorem OnWheel.Ok.setPhase (h : s.Ok) : (s.setPhase p ph).Ok := ⟨h.wellFormed, h.isInt⟩

theorem OnWheel.Ok.del (h : s.Ok) (p : Ptr) :
    OnWheel.Ok { s with timingWheelPtr := s.timingWheelPtr.del p } :=
  ⟨h.wellFormed.del List.not_mem_nil, fun q => isInt_del.trans (h.isInt q)⟩

theorem OnWheel.Ok.callback (h : s.Ok) : (s.callback p).Ok := by
  constructor
  · rw [timingWheelPtr_callback]
    exact h.wellFormed
  · rw [timingWheelPtr_callback]
    exact h.isInt

/-- The callback of an expired timeout: the list gives the same one. -/
theorem OnWheel.Ok.timeoutCallback (h : s.Ok) (hn : s.notifying = true) {r : Ptr × Timeouts}
    (hr : s.timingWheelPtr.get = some r) {u : OnWheel}
    (hu : u = { s with timingWheelPtr := r.2 }.callback r.1) :
    u.Ok ∧ ∃ t, Timer.step s.onList .timeoutCallback = some t ∧ t.Reorder u.onList := by
  subst hu
  obtain ⟨w, hget, hreorder, hdel⟩ := listOf_get h.wellFormed (h.isInt r.1) hr rfl
  have hstep : Timer.step s.onList .timeoutCallback =
      some ({ s.onList with timingWheel := w }.callback r.1) := by
    have hget : s.onList.timingWheel.get = some (r.1, w) := hget
    have hn : s.onList.notifying = true := hn
    simp [Timer.step, hn, hget]
  refine ⟨?_, _, hstep, ?_⟩
  · rw [hdel]
    exact (h.del r.1).callback
  · rw [onList_callback]
    exact State.Reorder.callback ⟨_, hreorder, rfl⟩

/-- What the end of `SetTimeout` does with the timeout. -/
theorem OnWheel.Ok.returns (h : s.Ok) {u : OnWheel}
    (hu : u = if s.timeoutExpired p then s
      else { s with timingWheelPtr := s.timingWheelPtr.del p }) :
    u.Ok ∧ State.Reorder { s.onList with timingWheel :=
      if p ∉ s.onList.timingWheel.expired then s.onList.timingWheel.del p
      else s.onList.timingWheel } u.onList := by
  have hexpired := mem_expired_listOf (p := p) h
  subst hu
  by_cases hp : s.timeoutExpired p = true
  · rw [if_pos hp, if_neg (not_not.mpr (hexpired.mpr hp))]
    exact ⟨h, .refl _⟩
  · rw [if_neg hp, if_pos (mt hexpired.mp hp)]
    exact ⟨h.del p, _, listOf_del h.wellFormed p, rfl⟩

/-- Each step of the timer on the wheels is one of the timer on the list. -/
theorem OnWheel.Ok.step (h : s.Ok) (hs : wheelStep s l = some s') :
    s'.Ok ∧ ∃ t, Timer.step s.onList l = some t ∧ t.Reorder s'.onList := by
  cases l with
  | sleep p now dt =>
    simp only [wheelStep] at hs
    split at hs
    · next hp =>
      obtain ⟨hok, harm⟩ := h.setTimeout hs
      exact ⟨hok, _, if_pos hp, harm⟩
    · cases hs
  | setTimeout p now dt =>
    simp only [wheelStep] at hs
    split at hs
    · next hp =>
      obtain ⟨hok, harm⟩ := h.setTimeout hs
      exact ⟨hok, _, if_pos hp, harm⟩
    · cases hs
  | notifyAllTimeouts now =>
    simp only [wheelStep] at hs
    split at hs
    · next hp =>
      obtain ⟨s₁, hs₁, rfl⟩ := Option.map_eq_some_iff.mp hs
      obtain ⟨hok, hreorder, heq, -⟩ := h.updateTimeout hs₁
      refine ⟨⟨hok.wellFormed, hok.isInt⟩, _, if_pos hp, _, hreorder, ?_⟩
      rw [heq]
      rfl
    · cases hs
  | timeoutCallback =>
    simp only [wheelStep] at hs
    split at hs
    · next hp =>
      obtain ⟨r, hr, hs⟩ := Option.map_eq_some_iff.mp hs
      exact h.timeoutCallback hp hr hs.symm
    · cases hs
  | notifyEnd =>
    simp only [wheelStep] at hs
    split at hs
    · next hp =>
      cases hs
      have hexpired : s.onList.timingWheel.expired = [] := Timeouts.get_isNone.mp hp.2
      exact ⟨⟨h.wellFormed, h.isInt⟩, _, if_pos ⟨hp.1, hexpired⟩, .refl _⟩
    · cases hs
  | notify p =>
    simp only [wheelStep] at hs
    split at hs
    · next hp =>
      cases hs
      exact ⟨h.setPhase, _, if_pos hp, .refl _⟩
    · cases hs
  | returns p =>
    simp only [wheelStep] at hs
    split at hs
    · next hp =>
      cases hs
      obtain ⟨hok, hreorder⟩ := h.returns (p := p) rfl
      exact ⟨hok.setPhase, _, if_pos hp, hreorder.setPhase⟩
    · cases hs
  | endTask p =>
    simp only [wheelStep] at hs
    split at hs
    · next hp =>
      cases hs
      exact ⟨h.setPhase, _, if_pos hp, .refl _⟩
    · cases hs

/-- Task 0 waits, task 1 sleeps until its time has come; then task 0 is notified in time. -/
def wheelRun : List Label :=
  [.setTimeout 0 10 5000, .sleep 1 20 100, .notifyAllTimeouts 150, .timeoutCallback, .notifyEnd,
    .notify 0, .returns 0]

set_option maxRecDepth 20000 in
theorem wheelRun_some : (run wheelStep (wheelInitial fun _ => .batch) wheelRun).isSome = true := by
  decide

end Simulation

end JamSched.Timer
