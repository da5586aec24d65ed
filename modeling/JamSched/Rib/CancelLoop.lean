import JamSched.Rib.Step

/-!
# The cancelling loop and the lock it holds

`while (iCancelStack.size() > 3)` cancels from the back of the stack, with `qMutex` held.
Cancelling a task does not change what cancelling another one would lock, so the loop gets
through exactly when no task behind the third of the stack leads back to `qMutex`.
-/
namespace JamSched.Rib

open Machine

/-- Completing `w` does not lead the calling thread into the main scheduler: none of its spin
mutexes makes an unfinished active task yield, and no waiting task of the main scheduler is
enabled. -/
def Caller.PassesBy (c : Caller) (w : Waitable) : Prop :=
  ¬ c.YieldsAt w ∧ ∀ x ∈ w.waitList, ¬ x.EntersRib w.addr

theorem not_cancelDeadlocks_iff (s : State) (e : Env) (p : Ptr) :
    ¬ s.CancelDeadlocks e p ↔
      ∀ w ∈ s.notifier p :: s.cancelFutures p, (s.caller e).PassesBy w := by
  rw [State.CancelDeadlocks, qMutex_mem_cancelLocks]
  simp only [not_exists, not_and, not_or, Caller.PassesBy]

/-- Cancelling one task leaves the locks of the others as they are. -/
theorem cancelBack_cancelDeadlocks (s : State) (e : Env) (p q : Ptr) :
    (s.cancelBack p).CancelDeadlocks e q ↔ s.CancelDeadlocks e q := by
  have hst (a : Ptr) : ((s.cancelBack p).heap a).status = (s.heap a).status :=
    Heap.modify_field (·.status) _ _ _ _ fun _ => rfl
  have hsch (a : Ptr) : ((s.cancelBack p).heap a).scheduler = (s.heap a).scheduler :=
    Heap.modify_field (·.scheduler) _ _ _ _ fun _ => rfl
  have hcaller : (s.cancelBack p).caller e = s.caller e := by
    simp only [State.caller, hst, hsch]
    rfl
  rw [State.CancelDeadlocks, State.CancelDeadlocks, hcaller]
  rfl

theorem cancelLoop_ne_none_iff (e : Env) (fuel : Nat) (s : State)
    (hfuel : s.iCancelStack.length ≤ fuel) :
    s.cancelLoop e fuel ≠ none ↔ ∀ p ∈ s.iCancelStack.drop 3, ¬ s.CancelDeadlocks e p := by
  induction fuel generalizing s with
  | zero =>
    have hnil : s.iCancelStack = [] := List.eq_nil_of_length_eq_zero (by omega)
    simp [State.cancelLoop, hnil]
  | succ fuel ih =>
    simp only [State.cancelLoop]
    split
    · rename_i p hp
      have hstack : s.iCancelStack = s.iCancelStack.dropLast ++ [p] :=
        (List.dropLast_append_getLast? p hp).symm
      split
      · -- the last task is cancelled, the others are left to the next turns
        rename_i hlong
        have hlen : (s.cancelBack p).iCancelStack.length ≤ fuel := by
          simp only [State.cancelBack, List.length_dropLast]
          omega
        have hdrop : s.iCancelStack.drop 3 = (s.cancelBack p).iCancelStack.drop 3 ++ [p] := by
          conv_lhs => rw [hstack]
          rw [List.drop_append_of_le_length (by rw [List.length_dropLast]; omega)]
          rfl
        rw [hdrop]
        simp only [List.mem_append, List.mem_singleton]
        split
        · rename_i hdead
          simp only [ne_eq, not_true, false_iff, not_forall, not_not]
          exact ⟨p, .inr rfl, hdead⟩
        · rename_i hpass
          rw [ih _ hlen]
          simp only [cancelBack_cancelDeadlocks]
          constructor
          · rintro h q (hq | rfl)
            · exact h q hq
            · exact hpass
          · exact fun h q hq => h q (.inl hq)
      · rename_i hshort
        simp [List.drop_eq_nil_of_le (Nat.le_of_not_lt hshort)]
    · rename_i hnone
      simp [List.getLast?_eq_none_iff.mp hnone]

theorem takeInteractive_ne_deadlock (s : State) (site : Site) :
    (s.takeInteractive site).pc ≠ .deadlock := by
  simp only [State.takeInteractive]
  split
  · simp
  · simp
  · cases site <;> simp [State.noInteractiveBatch, Site.wait]

/-- A batch task joins the first of four interactive tasks, which have all expired when the
main thread comes to serve them. -/
def joinRun : List Label :=
  [Label.setSchedule [⟨0, 1000000000, 0⟩] [⟨0, 1000000000, 0⟩],
    .createInteractive .sharedCopy false 5 0, .createInteractive .sharedCopy false 5 0,
    .createInteractive .sharedCopy false 5 0, .createInteractive .sharedCopy false 5 0,
    .createBatch .sharedCopy false 0 0] ++
    [0, 0, 0, 0, 0, 10, 20, 30, 40, 50].map (fun now => Label.main { now }) ++
    [Label.task .block, .waiters 0 ⟨0, [⟨4, .rib, .cv 0⟩]⟩ []] ++
    [100, 110, 120, 130, 140, 150].map fun now => Label.main { now }

end JamSched.Rib
