import JamSched.Sync.CondVar

/-!
# notify_one

`notify_one` pops one task, whatever its `cvStatus`, and looks for no second one. A task whose time
is over stays linked until it has unlinked itself, and a `notify_one` that pops it enables nobody.
An observer beside the condition variable notes for every call whether a task of the wait list was
still blocked when the call read the word of the popped one, and whom the call enabled.
-/
namespace JamSched.Sync

open Machine

/-- The task has been neither notified nor timed out. -/
def CondVar.Blocked (s : CondVar) (p : Ptr) : Prop :=
  s.cvStatus p = .zero ∨ s.cvStatus p = .cv s.this

instance (s : CondVar) (p : Ptr) : Decidable (s.Blocked p) := inferInstanceAs (Decidable (_ ∨ _))

/-- One call of `notify_one`. -/
structure Call where
  /-- A task of the wait list, the popped one included, was blocked. -/
  blocked : Bool
  enabled : List Ptr
  deriving DecidableEq, Repr

structure Calls where
  /-- The call that has claimed a task and not yet enabled it. -/
  current : Option Call := none
  /-- The calls that have returned, the latest first. -/
  returned : List Call := []
  deriving DecidableEq, Repr

def Calls.next (n : Calls) (s : CondVar) : Label → Calls
  | .popFront => match s.wListLock, s.waitList with
    | some (.notify false), [] => { n with returned := ⟨false, []⟩ :: n.returned }
    | _, _ => n
  | .compareExchange => match s.wListLock with
    | some (.popped false p) =>
      let call : Call := ⟨decide (∃ q ∈ p :: s.waitList, s.Blocked q), []⟩
      if ((s.cvStatus p).notify s.this).2 then { n with current := some call }
      else { n with returned := call :: n.returned }
    | _ => n
  | .enable => match s.wListLock with
    | some (.claimed false p) =>
      { returned := n.current.toList.map ({ · with enabled := [p] }) ++ n.returned }
    | _ => n
  | _ => n

/-- The condition variable with the calls of `notify_one` noted. -/
def watched : CondVar × Calls → Label → Option (CondVar × Calls) := observe step Calls.next

/-- Every call that found a blocked task has enabled one. -/
def EnablesOne (x : CondVar × Calls) : Prop :=
  ∀ call ∈ x.2.returned, call.blocked = true → call.enabled.length = 1

instance (x : CondVar × Calls) : Decidable (EnablesOne x) :=
  inferInstanceAs (Decidable (∀ call ∈ _, _ → _))

/-- When `notify_one` reads the word of the task it has popped, this task is blocked or no task
of the wait list is. -/
def FrontBlocked (x : CondVar × Calls) : Label → Prop
  | .compareExchange => match x.1.wListLock with
    | some (.popped false p) => x.1.Blocked p ∨ ∀ q ∈ x.1.waitList, ¬ x.1.Blocked q
    | _ => True
  | _ => True

instance (x : CondVar × Calls) (l : Label) : Decidable (FrontBlocked x l) :=
  match l with
  | .compareExchange => match h : x.1.wListLock with
    | some (.popped false p) =>
      decidable_of_iff (x.1.Blocked p ∨ ∀ q ∈ x.1.waitList, ¬ x.1.Blocked q)
        (by simp [FrontBlocked, h])
    | some (.popped true _) | some (.waiter _) | some (.notify _) | some (.claimed ..) | none =>
      isTrue (by simp [FrontBlocked, h])
  | .wait _ | .waitUntil _ | .setTimeout _ | .unlock _ | .notify _ | .popFront | .enable
  | .timeoutCallback _ | .timeoutEnable | .resume .. | .waitEnd .. | .elsewhere .. => isTrue trivial

section Steps

variable {s t : CondVar} {n : Calls} {l : Label} {this : Nat} {heap : Heap}
  {cvStatus : Ptr → CvStatus}

/-- A step keeps the calls good exactly when the popped task meets the condition. -/
theorem enablesOne_step_iff (h : EnablesOne (s, n)) (ht : step s l = some t) :
    EnablesOne (t, n.next s l) ↔ FrontBlocked (s, n) l := by
  cases l with
  | compareExchange =>
    cases step_cases ht with
    | @compareExchange all p hlock =>
      cases all
      · by_cases hp : s.Blocked p
        · have hclaim : ((s.cvStatus p).notify s.this).2 = true :=
            (CvStatus.notify_enables s.this _).mpr hp.symm
          simpa [EnablesOne, Calls.next, FrontBlocked, hlock, hclaim, hp] using h
        · have hclaim : ((s.cvStatus p).notify s.this).2 = false := by
            rw [Bool.eq_false_iff, ne_eq, CvStatus.notify_enables]
            exact fun hw => hp hw.symm
          simpa [EnablesOne, Calls.next, FrontBlocked, hlock, hclaim, hp] using fun _ => h
      · simpa [EnablesOne, Calls.next, FrontBlocked, hlock] using h
  | popFront =>
    refine iff_of_true ?_ trivial
    simp only [Calls.next]
    split
    · exact List.forall_mem_cons.mpr ⟨by simp, h⟩
    · exact h
  | enable =>
    refine iff_of_true ?_ trivial
    simp only [Calls.next]
    split
    · intro call hcall
      rcases List.mem_append.mp hcall with hnew | hold
      · obtain ⟨-, -, rfl⟩ := List.mem_map.mp hnew
        exact fun _ => rfl
      · exact h call hold
    · exact h
  | _ => exact iff_of_true h trivial

/-- In every run of a condition variable, with any wait list and any callbacks of the timer in
between: every `notify_one` that has returned has enabled one task if a task of the wait list
was blocked, exactly when no `notify_one` of the run pops a task that is not blocked in front of
one that is. -/
theorem enablesOne_iff {ls : List Label} (hr : run step (initial this heap cvStatus) ls = some s) :
    Always watched EnablesOne (initial this heap cvStatus, {}) ls ↔
      Along watched FrontBlocked (initial this heap cvStatus, {}) ls := by
  obtain ⟨n, hr'⟩ := run_observe Calls.next {} hr
  refine always_iff_along (I := fun _ => True) (fun _ _ _ _ _ => trivial) ?_ trivial ?_ hr'
  · rintro ⟨s, n⟩ l x - h hx
    obtain ⟨t, ht, rfl⟩ := observe_eq_some.mp hx
    exact enablesOne_step_iff h ht
  · simp [EnablesOne]

/-- Two tasks wait, one of them for a time, and each of two calls wakes one. -/
def twoNotifiesRun : List Label :=
  [.wait 0, .waitUntil 1, .setTimeout 1, .unlock 1, .notify false, .popFront, .compareExchange,
    .enable, .notify false, .popFront, .compareExchange, .enable, .notify false, .popFront]

theorem enablesOne_twoNotifiesRun :
    Always watched EnablesOne (initial 1 (fun _ => {}) fun _ => .zero, {}) twoNotifiesRun := by
  have hrun : (run step (initial 1 (fun _ => {}) fun _ => .zero) twoNotifiesRun).isSome = true := by
    decide
  obtain ⟨s, hs⟩ := Option.isSome_iff_exists.mp hrun
  exact (enablesOne_iff hs).mpr (by decide)

/-- The time of the front task 1 is over, and a call comes before the task has unlinked itself. -/
def lateFrontRun : List Label :=
  [.waitUntil 1, .setTimeout 1, .unlock 1, .wait 0, .timeoutCallback 1, .notify false, .popFront,
    .compareExchange, .timeoutEnable, .resume 1 false, .waitEnd 1 true]

/-- The call pops task 1, enables nobody and returns; task 0 sleeps on. -/
theorem not_enablesOne_lateFrontRun :
    (run watched (initial 1 (fun _ => {}) fun _ => .zero, {}) lateFrontRun).map (fun x =>
      (x.2.returned, x.1.phase 0, x.1.enables 0)) =
        some ([⟨true, []⟩], .asleep false, 0) ∧
    ¬ Always watched EnablesOne (initial 1 (fun _ => {}) fun _ => .zero, {}) lateFrontRun := by
  decide

end Steps

end JamSched.Sync
