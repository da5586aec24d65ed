import JamSched.Machine.Run

/-!
# Infinite runs

What happens at last in a run that goes on for ever, if some of its labels keep coming. A thread
that has work is scheduled again and again; the labels that count as its steps may depend on a
bound, such as a time that the clock has to reach. `LeadsTo` is the usual temporal relation, with
the rule for a state that lasts until a helpful step ends it.
-/
namespace JamSched.Machine

universe u v
variable {σ : Type u} {ι : Type v} {step : σ → ι → Option σ}

/-- A run that never ends. -/
structure InfiniteRun (step : σ → ι → Option σ) where
  state : Nat → σ
  label : Nat → ι
  next : ∀ n, step (state n) (label n) = some (state (n + 1))

namespace InfiniteRun

variable (x : InfiniteRun step) {P Q R : σ → Prop}

/-- From any time on, a label of the set comes, or a state in which none is enabled. -/
def Fair (helpful : ι → Prop) (enabled : σ → Prop) : Prop :=
  ∀ n, ∃ m, n ≤ m ∧ (helpful (x.label m) ∨ ¬ enabled (x.state m))

/-- After every state with `P` there is one with `Q`. -/
def LeadsTo (P Q : σ → Prop) : Prop := ∀ n, P (x.state n) → ∃ m, n ≤ m ∧ Q (x.state m)

variable {x}

theorem LeadsTo.of_imp (h : ∀ s, P s → Q s) : x.LeadsTo P Q := fun n hn =>
  ⟨n, Nat.le_refl n, h _ hn⟩

/-- What a later state leads to comes after the earlier ones as well. -/
theorem LeadsTo.after (h : x.LeadsTo P Q) {n m : Nat} (hm : P (x.state m)) (hnm : n ≤ m) :
    ∃ k, n ≤ k ∧ Q (x.state k) := by
  obtain ⟨k, hmk, hk⟩ := h m hm
  exact ⟨k, Nat.le_trans hnm hmk, hk⟩

theorem LeadsTo.trans (hpq : x.LeadsTo P Q) (hqr : x.LeadsTo Q R) : x.LeadsTo P R := by
  intro n hn
  obtain ⟨m, hnm, hm⟩ := hpq n hn
  obtain ⟨k, hmk, hk⟩ := hqr m hm
  exact ⟨k, Nat.le_trans hnm hmk, hk⟩

theorem LeadsTo.or (hpr : x.LeadsTo P R) (hqr : x.LeadsTo Q R) :
    x.LeadsTo (fun s => P s ∨ Q s) R := fun n hn => hn.elim (hpr n) (hqr n)

/-- What goes on to something of a smaller rank, or to `Q`, comes to `Q` at last. -/
theorem LeadsTo.of_rank (rank : σ → Nat)
    (h : ∀ k, x.LeadsTo (fun s => P s ∧ rank s = k) fun s => Q s ∨ P s ∧ rank s < k) :
    x.LeadsTo P Q := by
  intro n hn
  induction hk : rank (x.state n) using Nat.strongRecOn generalizing n with
  | ind k ih =>
    obtain ⟨m, hnm, hq | ⟨hp, hlt⟩⟩ := h k n ⟨hn, hk⟩
    · exact ⟨m, hnm, hq⟩
    · obtain ⟨m', hmm', hq⟩ := ih _ hlt m hp rfl
      exact ⟨m', Nat.le_trans hnm hmm', hq⟩

/-- What every step preserves lasts from the time at which it holds. -/
theorem lasts {I : σ → Prop} (hI : ∀ s l t, I s → step s l = some t → I t) {n m : Nat}
    (hn : I (x.state n)) (hnm : n ≤ m) : I (x.state m) := by
  induction hnm with
  | refl => exact hn
  | step _ ih => exact hI _ _ _ ih (x.next _)

/-- A state that does not last has a last moment. -/
theorem exists_exit {n m : Nat} (hn : P (x.state n)) (hnm : n ≤ m) (hm : ¬ P (x.state m)) :
    ∃ k, n ≤ k ∧ k < m ∧ P (x.state k) ∧ ¬ P (x.state (k + 1)) := by
  induction hnm with
  | refl => exact absurd hn hm
  | @step m hnm ih =>
    by_cases hp : P (x.state m)
    · exact ⟨m, hnm, Nat.lt_succ_self m, hp, hm⟩
    · obtain ⟨k, hnk, hkm, hk⟩ := ih hp
      exact ⟨k, hnk, Nat.lt_succ_of_lt hkm, hk⟩

/-- A state that lasts until it gives way to `Q`, and that a helpful step ends, does give way. -/
theorem leadsTo_of_fair {helpful : ι → Prop} {enabled : σ → Prop} (hfair : x.Fair helpful enabled)
    (hen : ∀ s, P s → enabled s) (hstay : ∀ s l t, P s → step s l = some t → P t ∨ Q t)
    (hact : ∀ s l t, P s → helpful l → step s l = some t → Q t) : x.LeadsTo P Q := by
  intro n hn
  obtain ⟨m, hnm, hm⟩ := hfair n
  by_cases hp : P (x.state m)
  · have hl : helpful (x.label m) := hm.resolve_right fun h => h (hen _ hp)
    exact ⟨m + 1, Nat.le_succ_of_le hnm, hact _ _ _ hp hl (x.next m)⟩
  · obtain ⟨k, hnk, -, hk, hk'⟩ := exists_exit hn hnm hp
    exact ⟨k + 1, Nat.le_succ_of_le hnk, (hstay _ _ _ hk (x.next k)).resolve_left hk'⟩

/-- A run that ends where a label leads back to the same state goes on there for ever. -/
def ofRun {s t : σ} {ls : List ι} {idle : ι} (hr : run step s ls = some t)
    (hidle : step t idle = some t) : InfiniteRun step where
  state n := (run step s (ls.take n)).getD t
  label n := (ls[n]?).getD idle
  next n := by
    cases hn : ls[n]? with
    | none =>
      have hlen : ls.length ≤ n := List.getElem?_eq_none_iff.mp hn
      simp [List.take_of_length_le hlen, List.take_of_length_le (Nat.le_succ_of_le hlen), hr,
        hidle]
    | some l =>
      have hsplit : ls = ls.take n ++ l :: ls.drop (n + 1) := by
        obtain ⟨hlt, rfl⟩ := List.getElem?_eq_some_iff.mp hn
        rw [List.getElem_cons_drop, List.take_append_drop]
      have htake : ls.take (n + 1) = ls.take n ++ [l] := by
        rw [List.take_add_one, hn]
        rfl
      rw [hsplit] at hr
      obtain ⟨u, hu, hrest⟩ := run_append.mp hr
      obtain ⟨w, hw, -⟩ := run_cons.mp hrest
      have hboth : run step s (ls.take (n + 1)) = some w := by
        rw [htake]
        exact run_append.mpr ⟨u, hu, run_cons.mpr ⟨w, hw, rfl⟩⟩
      simp [hu, hboth, hw]

theorem ofRun_run {s t : σ} {ls : List ι} {idle : ι} (hr : run step s ls = some t)
    (hidle : step t idle = some t) (n : Nat) :
    run step s (ls.take n) = some ((ofRun hr hidle).state n) := by
  rw [← List.take_append_drop n ls] at hr
  obtain ⟨u, hu, -⟩ := run_append.mp hr
  simp [ofRun, hu]

theorem ofRun_state_of_le {s t : σ} {ls : List ι} {idle : ι} (hr : run step s ls = some t)
    (hidle : step t idle = some t) {n : Nat} (hn : ls.length ≤ n) :
    (ofRun hr hidle).state n = t := by
  simp [ofRun, List.take_of_length_le hn, hr]

theorem ofRun_label_of_le {s t : σ} {ls : List ι} {idle : ι} (hr : run step s ls = some t)
    (hidle : step t idle = some t) {n : Nat} (hn : ls.length ≤ n) :
    (ofRun hr hidle).label n = idle := by
  simp [ofRun, List.getElem?_eq_none_iff.mpr hn]

end InfiniteRun

end JamSched.Machine
