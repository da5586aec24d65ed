import JamSched.Rib.Turn

/-!
# No task is found twice

A task lies in at most one of the queues, wait lists, hands and registers of the main
scheduler, and not while it runs. Unlike the life of a task this holds in every run: a task
that is deleted too early is found nowhere.
-/
namespace JamSched.Rib

open Machine

/-- How often `p` is found. -/
def State.found (s : State) (p : Ptr) : Nat :=
  s.places.count p + if s.pc = .running ∧ s.active = some p then 1 else 0

theorem found_of_ne_running {s : State} (h : s.pc ≠ .running) (p : Ptr) :
    s.found p = s.places.count p := by
  simp [State.found, h]

section Main

variable {s t : State} {e : Env}

theorem Shuffles.found (h : Shuffles s t) (hpc : s.pc ≠ .running) (p : Ptr) :
    t.found p = s.found p := by
  rw [found_of_ne_running h.running, found_of_ne_running hpc, h.places.count_eq]

/-- Lists that become shorter hold no task more often. -/
theorem places_count_le (hb : t.bQueue.Sublist s.bQueue)
    (he : t.iEDFPriorityQueue.Sublist s.iEDFPriorityQueue)
    (hc : t.iCancelStack.Sublist s.iCancelStack) (hr : t.rtRegisterTable = s.rtRegisterTable)
    (hw : t.waiting.Sublist s.waiting) (hh : t.handed = s.handed)
    (hch : t.pc.chosen.Sublist s.pc.chosen) (hre : t.pc.returned = s.pc.returned) (p : Ptr) :
    t.places.count p ≤ s.places.count p := by
  have h₁ := hb.count_le p
  have h₂ := he.count_le p
  have h₃ := hc.count_le p
  have h₄ := hw.count_le p
  have h₅ := hch.count_le p
  simp only [State.places, State.served, List.count_append, hr, hh, hre]
  omega

theorem delete_count_le (s : State) (p q : Ptr) :
    (s.delete p).places.count q ≤ s.places.count q :=
  places_count_le (s := s) (t := s.delete p) List.erase_sublist List.erase_sublist
    List.erase_sublist rfl List.erase_sublist rfl (List.Sublist.refl _) rfl q

theorem handOver_count_le {site : Site} {p : Ptr} {ps : List Ptr}
    (hpc : s.pc = .handOver site (p :: ps)) (q : Ptr) :
    { s.handOverOne p with pc := .handOver site ps }.places.count q ≤ s.places.count q := by
  cases hmin : getMinThief s.thiefSizes with
  | some i =>
    simp only [State.handOverOne, hmin, State.places, State.served, hpc, Pc.chosen, Pc.returned,
      List.count_append, List.count_cons]
    omega
  | none =>
    simp only [State.handOverOne, hmin]
    refine places_count_le (s := s) (t := { s.delete p with pc := .handOver site ps })
      List.erase_sublist List.erase_sublist List.erase_sublist rfl List.erase_sublist rfl ?_ ?_ q
    · simp [hpc, Pc.chosen]
    · simp [hpc, Pc.returned]

theorem cancelLoop_count_le {fuel : Nat} (h : s.cancelLoop e fuel = some t) (q : Ptr) :
    t.places.count q ≤ s.places.count q := by
  refine cancelLoop_rule (I := fun u => u.places.count q ≤ s.places.count q)
    (fun u p _ hu => Nat.le_trans ?_ hu) (Nat.le_refl _) h
  exact places_count_le (s := u) (t := u.cancelBack p) List.erase_sublist List.erase_sublist
    (List.dropLast_sublist _) rfl List.erase_sublist rfl (List.Sublist.refl _) rfl q

/-- A switch moves the returned task to the processor. -/
theorem switch_found_le {next : Option Ptr} (hpc : s.pc = .ret next) (pc : Pc)
    (hc : pc.chosen = []) (hr : pc.returned = []) (hrun : next = none → pc ≠ .running) (q : Ptr) :
    { s with active := next, pc := pc }.found q ≤ s.found q := by
  rw [found_of_ne_running (s := s) (by simp [hpc])]
  simp only [State.found, State.places, State.served, hc, hr, hpc, List.count_append,
    List.count_nil]
  cases next with
  | none => simp [hrun rfl, Pc.chosen, Pc.returned]
  | some p =>
    have hone : (if pc = .running ∧ some p = some q then 1 else 0) ≤
        List.count q (Pc.ret (some p)).returned := by
      by_cases hpq : p = q
      · simp only [hpq, Pc.returned, List.count_singleton_self]
        split <;> omega
      · simp [hpq]
    simp only [Pc.chosen, List.count_nil]
    omega

theorem stepRet_found_le {next : Option Ptr} (hpc : s.pc = .ret next) (q : Ptr) :
    (s.stepRet next).found q ≤ s.found q := by
  have hswitch {u : State} (hu : u.pc = .ret next) :
      { u with active := next, pc := next.elim .mainLoop fun _ => .running }.found q ≤
        u.found q := by
    cases next with
    | none => exact switch_found_le hu .mainLoop rfl rfl (by simp) q
    | some p => exact switch_found_le hu .running rfl rfl (by simp) q
  obtain ⟨u, rfl | ⟨a, rfl⟩, heq⟩ := stepRet_cases s next <;> rw [heq]
  · exact hswitch hpc
  · refine Nat.le_trans (hswitch hpc) ?_
    have hdel : (s.delete a).pc ≠ .running := by simp [State.delete, hpc]
    rw [found_of_ne_running hdel, found_of_ne_running (by simp [hpc])]
    exact delete_count_le s a q

theorem leaveInteractiveBatch_found_le {site : Site} (hpc : s.pc = .afterHandOver site) (q : Ptr) :
    (s.leaveInteractiveBatch site e).found q ≤ s.found q := by
  have hidle : s.pc.idle = true := by rw [hpc]; rfl
  have hrun : s.pc ≠ .running := by simp [hpc]
  cases hc : s.cancelLoop e s.iCancelStack.length with
  | none =>
    have hsh : Shuffles s { s with pc := .deadlock } := .of_ledger hidle rfl rfl
    simp only [State.leaveInteractiveBatch, hc]
    exact Nat.le_of_eq (hsh.found hrun q)
  | some u =>
    simp only [State.leaveInteractiveBatch, hc]
    have hpu : u.pc = s.pc := (cancelLoop_narrows hc).2
    have hcount := cancelLoop_count_le hc q
    rw [← found_of_ne_running (hpu ▸ hrun), ← found_of_ne_running hrun] at hcount
    rw [← hpu] at hidle hrun
    exact Nat.le_trans (Nat.le_of_eq ((takeInteractive_shuffles site hidle).found hrun q)) hcount

theorem mainStep_found_le (h : s.mainStep e = some t) (q : Ptr) : t.found q ≤ s.found q := by
  by_cases hpc : s.pc.Settles
  · cases hs : s.pc with
    | handOver site l =>
      cases l with
      | nil => simp [hs, Pc.Settles] at hpc
      | cons p ps =>
        rw [State.mainStep, hs, Option.some.injEq] at h
        rw [← h, found_of_ne_running (by simp), found_of_ne_running (by simp [hs])]
        exact handOver_count_le hs q
    | afterHandOver site =>
      rw [State.mainStep, hs, Option.some.injEq] at h
      exact h ▸ leaveInteractiveBatch_found_le hs q
    | ret next =>
      rw [State.mainStep, hs, Option.some.injEq] at h
      exact h ▸ stepRet_found_le hs q
    | _ => simp [hs, Pc.Settles] at hpc
  · have hrun : s.pc ≠ .running := fun hrun => by simp [State.mainStep, hrun] at h
    exact Nat.le_of_eq ((mainStep_shuffles hpc h).found hrun q)

end Main

section Other

variable {s t : State}

/-- `Enable` links a task once. -/
theorem enable_count_le (s : State) (immediately : Bool) (p q : Ptr) :
    (s.enable immediately p).places.count q ≤ s.places.count q + if p = q then 1 else 0 := by
  simp only [State.places, State.served, State.enable, List.count_append]
  cases (s.heap p).taskType with
  | interactive =>
    simp only [if_true, count_edfInsert, reduceCtorEq, if_false]
    omega
  | batch =>
    cases immediately <;> simp only [reduceCtorEq, if_false, if_true, List.count_append,
      List.count_cons, List.count_nil, beq_iff_eq, Bool.false_eq_true] <;> omega
  | realTime =>
    simp only [reduceCtorEq, if_false]
    omega

/-- The running task leaves the processor for at most one place. -/
theorem taskStep_found_le {p : Ptr} (hpc : s.pc = .running) (ha : s.active = some p)
    (a : TaskAction) (q : Ptr) : (s.taskStep p a).found q ≤ s.found q := by
  have hs : s.found q = s.places.count q + if p = q then 1 else 0 := by
    simp [State.found, hpc, ha]
  have hidle : s.pc.chosen = [] ∧ s.pc.returned = [] := by
    rw [hpc]
    exact ⟨rfl, rfl⟩
  have htop : Pc.chosen .top = [] ∧ Pc.returned .top = [] := ⟨rfl, rfl⟩
  have hyield : (s.yieldActive p).found q ≤ s.found q := by
    have hplaces : (s.yieldActive p).places = (s.enable false p).places := by
      have hpc' : (s.enable false p).pc = s.pc := rfl
      simp only [State.places, State.served, State.yieldActive, hpc', hidle]
      rfl
    rw [found_of_ne_running (by simp [State.yieldActive]), hplaces, hs]
    exact enable_count_le s false p q
  cases a with
  | yield =>
    simp only [State.taskStep]
    split
    · exact hyield
    · exact Nat.le_refl _
  | block =>
    rw [hs, found_of_ne_running (by simp [State.taskStep])]
    simp only [State.taskStep, State.places, State.served, hidle, htop, List.count_append,
      List.count_cons, beq_iff_eq]
    omega
  | lock fails =>
    simp only [State.taskStep]
    split
    · exact hyield
    · exact Nat.le_refl _
  | finish =>
    rw [hs, found_of_ne_running (by simp [State.taskStep])]
    simp only [State.taskStep, State.places, State.served, hidle, htop]
    omega

/-- A new task appears in one place. -/
theorem found_le_of_created {q : Ptr} (hpc : t.pc = s.pc) (ha : t.active = s.active)
    (hp : t.places.count q ≤ s.places.count q + if s.fresh = q then 1 else 0) :
    t.found q ≤ s.found q ∨ q = s.fresh ∧ t.found q ≤ s.found q + 1 := by
  simp only [State.found, hpc, ha]
  by_cases hq : q = s.fresh
  · rw [if_pos hq.symm] at hp
    exact .inr ⟨hq, by omega⟩
  · rw [if_neg (Ne.symm hq)] at hp
    exact .inl (by omega)

theorem step_found_le {l : Label} (hs : step s l = some t) (q : Ptr) :
    t.found q ≤ s.found q ∨ q = s.fresh ∧ t.found q ≤ s.found q + 1 := by
  cases l with
  | main e =>
    simp only [Rib.step, Option.ite_none_right_eq_some] at hs
    exact .inl (mainStep_found_le hs.2 q)
  | task a =>
    simp only [Rib.step] at hs
    split at hs
    · rename_i p hpc ha
      rw [Option.some.injEq] at hs
      exact .inl (hs ▸ taskStep_found_le hpc ha a q)
    · cases hs
  | createRealTime stack taskId =>
    simp only [Rib.step, Option.ite_none_left_eq_some, Option.some.injEq] at hs
    obtain ⟨-, rfl⟩ := hs
    refine found_le_of_created rfl rfl ?_
    simp only [State.createRealTime, State.create, State.places, State.served, List.count_append,
      List.count_cons, beq_iff_eq]
    omega
  | createInteractive stack canSteal deadline burst =>
    simp only [Rib.step, Option.ite_none_left_eq_some, Option.some.injEq] at hs
    obtain ⟨-, rfl⟩ := hs
    refine found_le_of_created rfl rfl ?_
    simp only [State.createInteractive, State.create, State.places, State.served,
      List.count_append, count_edfInsert]
    omega
  | createBatch stack canSteal burst thief =>
    simp only [Rib.step, State.createBatch] at hs
    split_ifs at hs <;> rw [Option.some.injEq] at hs <;> subst hs <;>
      refine found_le_of_created rfl rfl ?_ <;>
      simp only [State.create, State.places, State.served, List.count_append, List.count_cons,
        List.count_nil, beq_iff_eq] <;> omega
  | wake p =>
    simp only [Rib.step, Option.ite_none_left_eq_some, Option.some.injEq, not_or,
      not_not] at hs
    obtain ⟨⟨-, hp⟩, rfl⟩ := hs
    have hen := enable_count_le { s with waiting := s.waiting.erase p } true p q
    have hplaces : { s with waiting := s.waiting.erase p }.places.count q +
        (if p = q then 1 else 0) = s.places.count q := by
      have := (List.perm_cons_erase hp).count_eq q
      simp only [List.count_cons, beq_iff_eq] at this
      simp only [State.places, State.served, List.count_append, this]
      omega
    refine .inl ?_
    simp only [State.found]
    have hpc : ({ s with waiting := s.waiting.erase p }.enable true p).pc = s.pc ∧
        ({ s with waiting := s.waiting.erase p }.enable true p).active = s.active := ⟨rfl, rfl⟩
    rw [hpc.1, hpc.2]
    omega
  | setSchedule normal greedy =>
    simp only [Rib.step, Option.some.injEq] at hs
    refine .inl (Nat.le_of_eq ?_)
    rcases setSchedule_eq s normal greedy with heq | heq
    · rw [← hs, heq]
    · rw [← hs, heq]
      rfl
  | shutDown =>
    simp only [Rib.step, Option.some.injEq] at hs
    exact .inl (hs ▸ Nat.le_refl _)
  | thiefs sizes =>
    simp only [Rib.step, Option.ite_none_right_eq_some, Option.some.injEq] at hs
    exact .inl (hs.2 ▸ Nat.le_refl _)
  | waiters p notifier futures =>
    simp only [Rib.step, Option.some.injEq] at hs
    exact .inl (hs ▸ Nat.le_refl _)

/-- No task is found twice. -/
structure Once (s : State) : Prop where
  placed : Placed s
  once : ∀ p, s.found p ≤ 1

theorem Once.step {l : Label} (h : Once s) (hs : step s l = some t) : Once t := by
  refine ⟨h.placed.step hs, fun p => ?_⟩
  have hone := h.once p
  rcases step_found_le hs p with hle | ⟨rfl, hle⟩
  · omega
  · have hnone : s.found s.fresh = 0 := by
      have hnot : ¬ (s.fresh ∈ s.places ∨ s.active = some s.fresh) := fun hp =>
        Nat.lt_irrefl _ (h.placed.known _ hp)
      rw [not_or] at hnot
      simp [State.found, List.count_eq_zero.mpr hnot.1, hnot.2]
    omega

theorem once_initial (thiefSizes : List Nat) (start : Int) : Once (initial thiefSizes start) := by
  refine ⟨placed_initial thiefSizes start, fun p => ?_⟩
  simp [State.found, initial, State.places, State.served, Pc.chosen, Pc.returned]

/-- The queues of `GetAnInteractiveBatchTask` and its hands have no task in common. -/
theorem Once.served_nodup (h : Once s) : s.served.Nodup := by
  refine List.nodup_iff_count.mpr fun p => ?_
  have hone := h.once p
  simp only [State.found, State.places, List.count_append] at hone
  omega

end Other

end JamSched.Rib
