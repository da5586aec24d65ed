import JamSched.Remote.ThreadPool
import JamSched.Machine.Fair

/-!
# Progress of ThreadPool

If every thread goes on when it can and every task returns, then each task that was enqueued is
taken at last, and `~ThreadPool` comes to its end. A task waits for a worker that is in front of the
queue or comes back to it, or for a notification that is still to come; behind `notify_all` no
worker waits any more, and the tasks only get fewer.
-/
namespace JamSched.ThreadPool

open Machine

variable {n : Nat} {Task : Type}

/-- Every thread goes on when it can, and every task returns. -/
structure Fair (x : InfiniteRun (@ThreadPool.step n Task)) : Prop where
  test : ∀ i, x.Fair (· = .test i) fun s => s.workers i = .testing
  finish : ∀ i, x.Fair (· = .finish i) fun s => (s.workers i).task.isSome = true
  notifyOne : x.Fair (∃ woken, · = .notifyOne woken) fun s => 0 < s.notifies
  notifyAll : x.Fair (· = .notifyAll) fun s => s.destructor = .stopped
  join : x.Fair (· = .join) fun s =>
    ∃ i : Fin n, s.destructor = .joining i ∧ s.workers i = .returned

variable {x : InfiniteRun (@ThreadPool.step n Task)} {s t : Pool n Task} {i : Fin n}
  {l : Label n Task} {k : Nat}

/-- There is a task to be taken, after `k` others. -/
def Ready (k : Nat) (s : Pool n Task) : Prop := Inv s ∧ s.tasks ≠ [] ∧ s.started.length = k

theorem Ready.step (h : Ready k s) (ht : step s l = some t) :
    Ready k t ∨ k < t.started.length := by
  obtain ⟨hinv, htasks, hk⟩ := h
  have hinv' := hinv.step ht
  obtain ⟨i, task, tasks, -, -, -, rfl⟩ | ⟨i, task, -, -, rfl⟩ | hidle := step_cases ht
  · right
    simp [hk]
  · exact .inl ⟨hinv', htasks, hk⟩
  · refine .inl ⟨hinv', fun hnil => htasks ?_, hidle.started ▸ hk⟩
    exact List.prefix_nil.mp (hnil ▸ hidle.tasks)

/-- A worker in front of the queue takes the task, or another one does. -/
theorem leadsTo_of_testing (hx : Fair x) (i : Fin n) :
    x.LeadsTo (fun s => Ready k s ∧ s.workers i = .testing) fun s => k < s.started.length := by
  refine InfiniteRun.leadsTo_of_fair (hx.test i) (fun s h => h.2) (fun s l t h ht => ?_) ?_
  · obtain hready | hlt := h.1.step ht
    · refine .inl ⟨hready, ?_⟩
      obtain ⟨j, task, tasks, -, -, -, rfl⟩ | ⟨j, task, -, hj, rfl⟩ | hidle := step_cases ht
      · exact absurd hready.2.2 (by simp [h.1.2.2])
      · rw [Pool.workers_setWorker]
        split
        · rfl
        · exact h.2
      · have hworker := hidle.worker i
        have htasks := h.1.2.1
        simp_all
    · exact .inr hlt
  · rintro s l t ⟨⟨-, htasks, hk⟩, hi⟩ rfl ht
    obtain ⟨task, tasks, htasks⟩ := List.exists_cons_of_ne_nil htasks
    simp only [step, Pool.test, hi, htasks, Option.some.injEq] at ht
    simp [← ht, hk]

/-- A worker that is in a task comes back to the queue. -/
theorem leadsTo_of_running (hx : Fair x) (i : Fin n) :
    x.LeadsTo (fun s => Ready k s ∧ (s.workers i).task.isSome = true)
      fun s => Ready k s ∧ s.workers i = .testing ∨ k < s.started.length := by
  refine InfiniteRun.leadsTo_of_fair (hx.finish i) (fun s h => h.2) (fun s l t h ht => ?_) ?_
  · obtain hready | hlt := h.1.step ht
    · obtain ⟨j, task, tasks, -, -, -, rfl⟩ | ⟨j, task, -, -, rfl⟩ | hidle := step_cases ht
      · exact absurd hready.2.2 (by simp [h.1.2.2])
      · by_cases hij : i = j
        · exact .inr (.inl ⟨hready, by simp [hij]⟩)
        · exact .inl ⟨hready, by simpa [hij] using h.2⟩
      · exact .inl ⟨hready, by rw [hidle.task, h.2]⟩
    · exact .inr (.inr hlt)
  · rintro s l t h rfl ht
    refine (h.1.step ht).imp_left fun hready => ⟨hready, ?_⟩
    simp only [step, Pool.finish] at ht
    split at ht
    · cases ht
      simp
    · cases ht

/-- Where all workers wait, a notification wakes one, and until then nothing changes. -/
theorem step_of_waiting (hn : 0 < n) (hw : ∀ i, s.workers i = .waiting) (ht : step s l = some t) :
    (∃ i, t.workers i = .testing) ∨ ((∀ woken, l ≠ .notifyOne woken) ∧ l ≠ .notifyAll) ∧
      (∀ i, t.workers i = .waiting) ∧ s.notifies ≤ t.notifies ∧
      (s.destructor = .stopped → t.destructor = .stopped) := by
  cases l with
  | enqueue f =>
    obtain ⟨-, rfl⟩ | ⟨-, rfl⟩ := step_enqueue ht
    · exact .inr ⟨by simp, hw, Nat.le_refl _, id⟩
    · exact .inr ⟨by simp, hw, Nat.le_succ _, id⟩
  | notifyOne woken =>
    cases woken with
    | some i =>
      simp only [step, Pool.notifyOne, Option.ite_none_right_eq_some, Option.some.injEq] at ht
      exact .inl ⟨i, by simp [← ht.2]⟩
    | none =>
      simp only [step, Pool.notifyOne, Option.ite_none_right_eq_some] at ht
      have hfirst := ht.1.2 ⟨0, hn⟩ (List.mem_finRange _)
      simp [hw, Worker.isWaiting] at hfirst
  | test i => simp [step, Pool.test, hw] at ht
  | spurious i =>
    simp only [step, Option.ite_none_right_eq_some, Option.some.injEq] at ht
    exact .inl ⟨i, by simp [← ht.2]⟩
  | finish i => simp [step, Pool.finish, hw] at ht
  | stop =>
    simp only [step, Option.ite_none_right_eq_some, Option.some.injEq] at ht
    obtain ⟨-, rfl⟩ := ht
    exact .inr ⟨by simp, hw, Nat.le_refl _, fun _ => rfl⟩
  | notifyAll =>
    simp only [step, Option.ite_none_right_eq_some, Option.some.injEq] at ht
    exact .inl ⟨⟨0, hn⟩, by simp [← ht.2, hw, Worker.wake]⟩
  | join =>
    simp only [step, Pool.join, hw] at ht
    repeat' split at ht
    all_goals cases ht
  | elsewhere =>
    cases ht
    exact .inr ⟨by simp, hw, Nat.le_refl _, id⟩

/-- Somebody is about to notify, in `enqueue` or in `~ThreadPool`, and a worker wakes up. -/
theorem leadsTo_of_waiting (hx : Fair x) (hn : 0 < n) :
    x.LeadsTo (fun s => Ready k s ∧ (∀ i, s.workers i = .waiting) ∧
        (0 < s.notifies ∨ s.destructor = .stopped))
      fun s => Ready k s ∧ (∃ i, s.workers i = .testing) ∨ k < s.started.length := by
  have hone : x.LeadsTo (fun s => Ready k s ∧ (∀ i, s.workers i = .waiting) ∧ 0 < s.notifies)
      fun s => Ready k s ∧ (∃ i, s.workers i = .testing) ∨ k < s.started.length := by
    refine InfiniteRun.leadsTo_of_fair hx.notifyOne (fun s h => h.2.2) (fun s l t h ht => ?_) ?_
    · obtain hready | hlt := h.1.step ht
      · obtain hwoken | ⟨-, hw, hle, -⟩ := step_of_waiting hn h.2.1 ht
        · exact .inr (.inl ⟨hready, hwoken⟩)
        · exact .inl ⟨hready, hw, Nat.lt_of_lt_of_le h.2.2 hle⟩
      · exact .inr (.inr hlt)
    · rintro s l t h ⟨woken, rfl⟩ ht
      refine (h.1.step ht).imp_left fun hready => ⟨hready, ?_⟩
      exact (step_of_waiting hn h.2.1 ht).resolve_right fun hr => hr.1.1 woken rfl
  have hall : x.LeadsTo
      (fun s => Ready k s ∧ (∀ i, s.workers i = .waiting) ∧ s.destructor = .stopped)
      fun s => Ready k s ∧ (∃ i, s.workers i = .testing) ∨ k < s.started.length := by
    refine InfiniteRun.leadsTo_of_fair hx.notifyAll (fun s h => h.2.2) (fun s l t h ht => ?_) ?_
    · obtain hready | hlt := h.1.step ht
      · obtain hwoken | ⟨-, hw, -, hd⟩ := step_of_waiting hn h.2.1 ht
        · exact .inr (.inl ⟨hready, hwoken⟩)
        · exact .inl ⟨hready, hw, hd h.2.2⟩
      · exact .inr (.inr hlt)
    · rintro s l t h rfl ht
      refine (h.1.step ht).imp_left fun hready => ⟨hready, ?_⟩
      exact (step_of_waiting hn h.2.1 ht).resolve_right fun hr => hr.1.2 rfl
  rintro m ⟨hready, hw, hpos | hd⟩
  · exact hone m ⟨hready, hw, hpos⟩
  · exact hall m ⟨hready, hw, hd⟩

/-- The next task is taken at last. -/
theorem leadsTo_taken (hx : Fair x) (hn : 0 < n) :
    x.LeadsTo (Ready k) fun s => k < s.started.length := by
  have htesting : x.LeadsTo (fun s => Ready k s ∧ ∃ i, s.workers i = .testing)
      fun s => k < s.started.length := fun m ⟨hready, i, hi⟩ =>
    leadsTo_of_testing hx i m ⟨hready, hi⟩
  have hor {P : Pool n Task → Prop}
      (hP : x.LeadsTo P fun s => Ready k s ∧ (∃ i, s.workers i = .testing) ∨ k < s.started.length) :
      x.LeadsTo P fun s => k < s.started.length :=
    hP.trans (htesting.or (.of_imp fun _ => id))
  have hrunning (i : Fin n) : x.LeadsTo (fun s => Ready k s ∧ (s.workers i).task.isSome = true)
      fun s => k < s.started.length :=
    (leadsTo_of_running hx i).trans ((leadsTo_of_testing hx i).or (.of_imp fun _ => id))
  intro m hready
  have ⟨hinv, htasks, _⟩ := hready
  by_cases hawake : ∃ i, ((x.state m).workers i).isAwake = true
  · obtain ⟨i, hi⟩ := hawake
    cases hworker : (x.state m).workers i with
    | testing => exact htesting m ⟨hready, i, hworker⟩
    | running task => exact hrunning i m ⟨hready, by simp [hworker, Worker.task]⟩
    | waiting | returned => simp [hworker, Worker.isAwake] at hi
  · have hw (i : Fin n) : (x.state m).workers i = .waiting := by
      have hnot : ((x.state m).workers i).isAwake ≠ true := fun hi => hawake ⟨i, hi⟩
      have hlive := mt (hinv.returned i) fun hr => htasks hr.2
      revert hnot hlive
      cases (x.state m).workers i <;> simp [Worker.isAwake]
    refine hor (leadsTo_of_waiting hx hn) m ⟨hready, hw, ?_⟩
    exact ((hinv.awake htasks).resolve_left hawake).resolve_left (Nat.pos_iff_ne_zero.mp hn)

theorem Inv.enqueued_le (h : Inv s) (ht : ThreadPool.step s l = some t) :
    s.enqueued <+: t.enqueued := by
  have hinv := h.step ht
  obtain ⟨i, task, tasks, -, -, -, rfl⟩ | ⟨i, task, -, -, rfl⟩ | hidle := step_cases ht
  · exact List.prefix_rfl
  · exact List.prefix_rfl
  · rw [h.order, hinv.order, hidle.started]
    exact (List.prefix_append_right_inj _).mpr hidle.tasks

theorem inv_state (h0 : x.state 0 = {}) (k : Nat) : Inv (x.state k) :=
  InfiniteRun.lasts (fun _ _ _ h ht => h.step ht) (h0 ▸ inv_initial) (Nat.zero_le k)

/-- If every thread goes on when it can and every task returns, what was enqueued is taken at last,
in the order in which it was enqueued. -/
theorem every_task_starts (hn : 0 < n) (hx : Fair x) (h0 : x.state 0 = {}) (k : Nat) :
    ∃ m, k ≤ m ∧ (x.state k).enqueued <+: (x.state m).started := by
  generalize htasks : (x.state k).enqueued = tasks
  have hlasts {m m' : Nat} (hle : m ≤ m') (h : Inv (x.state m) ∧ tasks <+: (x.state m).enqueued) :
      Inv (x.state m') ∧ tasks <+: (x.state m').enqueued :=
    InfiniteRun.lasts (I := fun s => Inv s ∧ tasks <+: s.enqueued)
      (fun s l t h ht => ⟨h.1.step ht, h.2.trans (h.1.enqueued_le ht)⟩) h hle
  have hstarts :
      x.LeadsTo (fun s => Inv s ∧ tasks <+: s.enqueued) fun s => tasks <+: s.started := by
    refine InfiniteRun.LeadsTo.of_rank (fun s => tasks.length - s.started.length) fun r m h => ?_
    obtain ⟨⟨hinv, hprefix⟩, rfl⟩ := h
    by_cases hlen : tasks.length ≤ (x.state m).started.length
    · rw [hinv.order] at hprefix
      exact ⟨m, Nat.le_refl m, .inl (List.prefix_of_prefix_length_le hprefix
        (List.prefix_append ..) hlen)⟩
    · have hne : (x.state m).tasks ≠ [] := by
        intro hnil
        have hle := hprefix.length_le
        rw [hinv.order, hnil, List.append_nil] at hle
        exact hlen hle
      obtain ⟨m', hle, hlt⟩ := leadsTo_taken hx hn m ⟨hinv, hne, rfl⟩
      refine ⟨m', hle, .inr ⟨hlasts hle ⟨hinv, hprefix⟩, ?_⟩⟩
      omega
  exact hstarts k ⟨inv_state h0 k, htasks ▸ List.prefix_rfl⟩

/-- Only `~ThreadPool` moves on in itself. -/
theorem step_destructor (ht : step s l = some t) :
    t.destructor = s.destructor ∨ s.destructor = .uncalled ∧ t.destructor = .stopped ∨
      s.destructor = .stopped ∧ t.destructor = .joining 0 ∨
      ∃ i : Fin n, l = .join ∧ s.destructor = .joining i ∧ s.workers i = .returned ∧
        t.destructor = .joining (i + 1) := by
  obtain ⟨i, task, tasks, -, -, -, rfl⟩ | ⟨i, task, -, -, rfl⟩ | - := step_cases ht
  · exact .inl rfl
  · exact .inl rfl
  · cases l with
    | join =>
      simp only [step, Pool.join] at ht
      split at ht
      · next k hd =>
        split at ht
        · next hlt =>
          split at ht
          · next hi =>
            cases ht
            exact .inr (.inr (.inr ⟨⟨k, hlt⟩, rfl, hd, hi, rfl⟩))
          · cases ht
        · cases ht
      · cases ht
    | enqueue f => exact .inl (by obtain ⟨-, rfl⟩ | ⟨-, rfl⟩ := step_enqueue ht <;> rfl)
    | notifyOne woken =>
      cases woken <;> simp only [step, Pool.notifyOne] at ht <;> grind
    | test i =>
      simp only [step, Pool.test] at ht
      grind
    | spurious i | finish i | stop | notifyAll | elsewhere =>
      simp only [step, Pool.finish] at ht
      grind

/-- `~ThreadPool` is in its loop and has joined the first `k` workers. -/
def Joined (k : Nat) (s : Pool n Task) : Prop :=
  Inv s ∧ ∃ i, k ≤ i ∧ s.destructor = .joining i

theorem Joined.step (h : Joined k s) (ht : step s l = some t) : Joined k t := by
  obtain ⟨hinv, i, hk, hi⟩ := h
  refine ⟨hinv.step ht, ?_⟩
  obtain hsame | ⟨hd, -⟩ | ⟨hd, -⟩ | ⟨j, -, hd, -, hnext⟩ := step_destructor ht
  · exact ⟨i, hk, hsame.trans hi⟩
  · simp [hd] at hi
  · simp [hd] at hi
  · rw [hd] at hi
    cases hi
    exact ⟨_, Nat.le_succ_of_le hk, hnext⟩

theorem Joined.stop (h : Joined k s) : s.stop = true := by
  obtain ⟨hinv, i, -, hi⟩ := h
  exact hinv.stop.mpr (by simp [hi])

theorem Joined.not_waiting (h : Joined k s) (i : Fin n) : s.workers i ≠ .waiting := by
  obtain ⟨hinv, j, -, hj⟩ := h
  exact ((hinv.joining j hj).2 i).1

/-- What a worker may still have to do. -/
def work (i : Fin n) (s : Pool n Task) : Nat :=
  2 * s.tasks.length + if (s.workers i).task.isSome then 1 else 0

/-- Behind `notify_all`, the work of a worker gets less, or the worker stands where it stood. -/
theorem Joined.work_step (h : Joined k s) (i : Fin n) (ht : ThreadPool.step s l = some t) :
    t.workers i = .returned ∨ work i t < work i s ∨
      work i t = work i s ∧ t.workers i = s.workers i := by
  have hjoined := h.step ht
  obtain ⟨j, task, tasks, -, hj, htasks, rfl⟩ | ⟨j, task, -, hj, rfl⟩ | hidle := step_cases ht
  · right
    left
    simp only [work, htasks, List.length_cons, Pool.tasks_setWorker, Pool.workers_setWorker]
    by_cases hij : i = j
    · simp [hij, hj, Worker.task]
      omega
    · simp [hij]
  · right
    by_cases hij : i = j
    · simp [hij, hj, work, Worker.task]
    · simp [hij, work]
  · have hwork : work i t = work i s := by
      simp [work, hidle.task, hidle.stopped h.stop]
    have hnot := hjoined.not_waiting i
    have htask := hidle.task i
    obtain hsame | ⟨hwait, -⟩ | ⟨-, htesting, -⟩ := hidle.worker i
    · exact .inr (.inr ⟨hwork, hsame⟩)
    · exact absurd hwait (h.not_waiting i)
    · rw [htesting] at htask ⊢
      revert hnot htask
      cases t.workers i <;> simp [Worker.task, hwork]

/-- While a worker stands where it stood, its work does not grow. -/
theorem Joined.goesOn (h : Joined k s) {i : Fin n} {r : Nat} (hwork : work i s = r)
    (ht : ThreadPool.step s l = some t) :
    ((Joined k t ∧ t.workers i = s.workers i) ∧ work i t = r) ∨ t.workers i = .returned ∨
      Joined k t ∧ work i t < r := by
  have hjoined := h.step ht
  obtain hr | hlt | ⟨heq, hsame⟩ := h.work_step i ht
  · exact .inr (.inl hr)
  · exact .inr (.inr ⟨hjoined, hwork ▸ hlt⟩)
  · exact .inl ⟨⟨hjoined, hsame⟩, heq.trans hwork⟩

/-- Behind `notify_all`, a worker that tests its predicate takes a task or returns. -/
theorem leadsTo_less_of_testing (hx : Fair x) (i : Fin n) (r : Nat) :
    x.LeadsTo (fun s => (Joined k s ∧ s.workers i = .testing) ∧ work i s = r)
      fun s => s.workers i = .returned ∨ Joined k s ∧ work i s < r := by
  refine InfiniteRun.leadsTo_of_fair (hx.test i) (fun s h => h.1.2) (fun s l t h ht => ?_) ?_
  · refine (h.1.1.goesOn h.2 ht).imp_left fun hgoes => ?_
    exact ⟨⟨hgoes.1.1, hgoes.1.2.trans h.1.2⟩, hgoes.2⟩
  · rintro s l t ⟨⟨hjoined, hi⟩, hwork⟩ rfl ht
    have hjoined' := hjoined.step ht
    simp only [step, Pool.test, hi] at ht
    cases htasks : s.tasks with
    | nil =>
      simp only [htasks, hjoined.stop, if_true, Option.some.injEq] at ht
      exact .inl (by simp [← ht])
    | cons task tasks =>
      simp only [htasks, Option.some.injEq] at ht
      refine .inr ⟨hjoined', ?_⟩
      simp only [work, htasks, hi] at hwork
      simp [← ht, ← hwork, work, Worker.task]
      omega

/-- A task that is run returns. -/
theorem leadsTo_less_of_running (hx : Fair x) (i : Fin n) (r : Nat) :
    x.LeadsTo (fun s => (Joined k s ∧ (s.workers i).task.isSome = true) ∧ work i s = r)
      fun s => s.workers i = .returned ∨ Joined k s ∧ work i s < r := by
  refine InfiniteRun.leadsTo_of_fair (hx.finish i) (fun s h => h.1.2) (fun s l t h ht => ?_) ?_
  · refine (h.1.1.goesOn h.2 ht).imp_left fun hgoes => ?_
    exact ⟨⟨hgoes.1.1, hgoes.1.2 ▸ h.1.2⟩, hgoes.2⟩
  · rintro s l t ⟨⟨hjoined, hi⟩, hwork⟩ rfl ht
    refine .inr ⟨hjoined.step ht, ?_⟩
    simp only [step, Pool.finish] at ht
    split at ht
    · cases ht
      rw [work, if_pos hi] at hwork
      simp [work, Worker.task, ← hwork]
    · cases ht

/-- Behind `notify_all`, every worker returns. -/
theorem leadsTo_returned (hx : Fair x) (i : Fin n) :
    x.LeadsTo (Joined k) fun s => s.workers i = .returned := by
  refine InfiniteRun.LeadsTo.of_rank (work i) ?_
  rintro r m ⟨hjoined, hr⟩
  cases hworker : (x.state m).workers i with
  | testing => exact leadsTo_less_of_testing hx i r m ⟨⟨hjoined, hworker⟩, hr⟩
  | running task =>
    exact leadsTo_less_of_running hx i r m ⟨⟨hjoined, by simp [hworker, Worker.task]⟩, hr⟩
  | waiting => exact absurd hworker (hjoined.not_waiting i)
  | returned => exact ⟨m, Nat.le_refl m, .inl hworker⟩

/-- A worker that has returned does not come back. -/
theorem returned_lasts {i : Fin n} (hi : s.workers i = .returned) (ht : step s l = some t) :
    t.workers i = .returned := by
  have hmoved {j : Fin n} (hj : s.workers j ≠ .returned) : i ≠ j := by
    rintro rfl
    exact hj hi
  obtain ⟨j, task, tasks, -, hj, -, rfl⟩ | ⟨j, task, -, hj, rfl⟩ | hidle := step_cases ht
  · have hne : i ≠ j := hmoved (by simp [hj])
    simpa [hne] using hi
  · have hne : i ≠ j := hmoved (by simp [hj])
    simpa [hne] using hi
  · have hworker := hidle.worker i
    simp only [hi, reduceCtorEq, false_and, and_false, or_false] at hworker
    exact hworker

/-- The next worker is joined. -/
theorem leadsTo_joined (hx : Fair x) (hk : k < n) : x.LeadsTo (Joined k) (Joined (k + 1)) := by
  have hjoin : x.LeadsTo
      (fun s => (Inv s ∧ s.destructor = .joining k) ∧ s.workers ⟨k, hk⟩ = .returned)
      (Joined (k + 1)) := by
    refine InfiniteRun.leadsTo_of_fair hx.join (fun s h => ⟨⟨k, hk⟩, h.1.2, h.2⟩)
      (fun s l t h ht => ?_) ?_
    · have hinv := h.1.1.step ht
      obtain hsame | ⟨hd, -⟩ | ⟨hd, -⟩ | ⟨j, -, hd, -, hnext⟩ := step_destructor ht
      · exact .inl ⟨⟨hinv, hsame.trans h.1.2⟩, returned_lasts h.2 ht⟩
      · simp [hd] at h
      · simp [hd] at h
      · rw [h.1.2] at hd
        cases hd
        exact .inr ⟨hinv, _, Nat.le_refl _, hnext⟩
    · rintro s l t ⟨⟨hinv, hd⟩, hi⟩ rfl ht
      refine ⟨hinv.step ht, k + 1, Nat.le_refl _, ?_⟩
      simp only [step, Pool.join, hd, dif_pos hk, hi, Option.some.injEq] at ht
      simp [← ht]
  intro m hm
  obtain ⟨m', hle, hi⟩ := leadsTo_returned hx ⟨k, hk⟩ m hm
  have hjoined : Joined k (x.state m') := InfiniteRun.lasts (fun _ _ _ h ht => h.step ht) hm hle
  obtain ⟨hinv, j, hkj, hj⟩ := hjoined
  obtain hlt | rfl := Nat.lt_or_eq_of_le hkj
  · exact ⟨m', hle, hinv, j, hlt, hj⟩
  · exact InfiniteRun.LeadsTo.after hjoin ⟨⟨hinv, hj⟩, hi⟩ hle

/-- Once the pool is stopped, it stays so and takes no task. -/
theorem stopped_lasts {tasks : List Task} (h : Inv s ∧ s.stop = true ∧ s.enqueued = tasks)
    (ht : step s l = some t) : Inv t ∧ t.stop = true ∧ t.enqueued = tasks := by
  obtain ⟨hinv, hstop, htasks⟩ := h
  have hinv' := hinv.step ht
  refine ⟨hinv', hinv'.stop.mpr ?_, ?_⟩
  · have hd := hinv.stop.mp hstop
    obtain hsame | ⟨-, hnext⟩ | ⟨-, hnext⟩ | ⟨j, -, -, -, hnext⟩ := step_destructor ht
    · rwa [hsame]
    · simp [hnext]
    · simp [hnext]
    · simp [hnext]
  · obtain ⟨i, task, tasks, -, -, -, rfl⟩ | ⟨i, task, -, -, rfl⟩ | hidle := step_cases ht
    · exact htasks
    · exact htasks
    · rw [hinv'.order, hidle.started, hidle.stopped hstop, ← hinv.order, htasks]

/-- If every thread goes on when it can and every task returns, `~ThreadPool` comes to its end, and
by then every task that was enqueued has returned. -/
theorem destructor_returns (hx : Fair x) (h0 : x.state 0 = {}) (hstop : (x.state k).stop = true) :
    ∃ m, k ≤ m ∧ (x.state m).destructor = .joining n ∧
      (0 < n → (x.state m).finished.Perm (x.state k).enqueued) := by
  have hnotified : x.LeadsTo (fun s => Inv s ∧ s.destructor = .stopped) (Joined 0) := by
    refine InfiniteRun.leadsTo_of_fair hx.notifyAll (fun s h => h.2) (fun s l t h ht => ?_) ?_
    · have hinv := h.1.step ht
      obtain hsame | ⟨hd, -⟩ | ⟨-, hnext⟩ | ⟨j, -, hd, -, -⟩ := step_destructor ht
      · exact .inl ⟨hinv, hsame.trans h.2⟩
      · simp [h.2] at hd
      · exact .inr ⟨hinv, 0, Nat.zero_le 0, hnext⟩
      · simp [h.2] at hd
    · rintro s l t h rfl ht
      refine ⟨h.1.step ht, 0, Nat.zero_le 0, ?_⟩
      simp only [step, h.2, if_true, Option.some.injEq] at ht
      simp [← ht]
  have hjoined (j : Nat) (hj : j ≤ n) : x.LeadsTo (Joined 0) (Joined j) := by
    induction j with
    | zero => exact .of_imp fun _ => id
    | succ j ih => exact (ih (Nat.le_of_succ_le hj)).trans (leadsTo_joined hx hj)
  have hinv := inv_state h0 k
  have hstart : ∃ m, k ≤ m ∧ Joined 0 (x.state m) := by
    cases hd : (x.state k).destructor with
    | uncalled => exact absurd hd (hinv.stop.mp hstop)
    | stopped => exact hnotified k ⟨hinv, hd⟩
    | joining i => exact ⟨k, Nat.le_refl k, hinv, i, Nat.zero_le i, hd⟩
  obtain ⟨m, hkm, hm⟩ := hstart
  obtain ⟨m', hmm', hinv', i, hni, hd⟩ := hjoined n (Nat.le_refl n) m hm
  obtain rfl : i = n := Nat.le_antisymm (hinv'.joining i hd).1 hni
  have hkm' := Nat.le_trans hkm hmm'
  have hlast : Inv (x.state m') ∧ (x.state m').stop = true ∧
      (x.state m').enqueued = (x.state k).enqueued :=
    InfiniteRun.lasts (fun _ _ _ h ht => stopped_lasts h ht) ⟨hinv, hstop, rfl⟩ hkm'
  exact ⟨m', hkm', hd, fun hn => hlast.2.2 ▸ hinv'.joined hn hd⟩

/-- Behind its end, the run goes on for ever with nothing left to do. -/
theorem exists_fair_poolRun : ∃ x : InfiniteRun (@ThreadPool.step 1 Nat), Fair x ∧ x.state 0 = {} ∧
    ∃ k, (x.state k).stop = true ∧ (x.state k).enqueued = [5, 6] := by
  obtain ⟨s, hr, ⟨htasks, hd⟩, hnotifies, hreturned⟩ := poolRun_ends
  have hidle : step s .elsewhere = some s := rfl
  let x := InfiniteRun.ofRun hr hidle
  have hstate (m : Nat) : x.state (max m poolRun.length) = s :=
    InfiniteRun.ofRun_state_of_le hr hidle (Nat.le_max_right _ _)
  have hmax (m : Nat) : m ≤ max m poolRun.length := Nat.le_max_left _ _
  have hworker (i : Fin 1) : s.workers i = .returned := Subsingleton.elim i 0 ▸ hreturned
  refine ⟨x, ⟨fun i m => ⟨_, hmax m, .inr ?_⟩, fun i m => ⟨_, hmax m, .inr ?_⟩,
    fun m => ⟨_, hmax m, .inr ?_⟩, fun m => ⟨_, hmax m, .inr ?_⟩, fun m => ⟨_, hmax m, .inr ?_⟩⟩,
    rfl, max 0 poolRun.length, ?_, ?_⟩ <;> rw [hstate]
  · simp [hworker]
  · simp [hworker, Worker.task]
  · simp [hnotifies]
  · simp [hd]
  · rintro ⟨i, hi, -⟩
    rw [hd] at hi
    have hlast := Destructor.joining.inj hi
    omega
  · exact (inv_of_run hr).stop.mpr (by simp [hd])
  · exact htasks

theorem every_task_starts_poolRun :
    ∃ x : InfiniteRun (@ThreadPool.step 1 Nat), ∃ m, [5, 6] <+: (x.state m).started := by
  obtain ⟨x, hx, h0, k, -, htasks⟩ := exists_fair_poolRun
  obtain ⟨m, -, hm⟩ := every_task_starts (by decide) hx h0 k
  exact ⟨x, m, htasks ▸ hm⟩

theorem destructor_returns_poolRun :
    ∃ x : InfiniteRun (@ThreadPool.step 1 Nat), ∃ m, (x.state m).destructor = .joining 1 := by
  obtain ⟨x, hx, h0, k, hstop, -⟩ := exists_fair_poolRun
  obtain ⟨m, -, hm, -⟩ := destructor_returns hx h0 hstop
  exact ⟨x, m, hm⟩

end JamSched.ThreadPool
