import Mathlib.Data.List.Basic

/-!
# Runs of a labelled machine

A machine is a partial step function on states and labels: `none` says that the label is
not enabled. Labels carry everything the machine does not decide itself, such as clock
readings, choices of other threads and results of foreign calls, so a theorem about every
list of labels is a theorem about every interleaving.

`Along` constrains the steps of a run, `Always` the states it visits. The rules below turn
a fact about one step into a fact about whole runs.
-/
namespace JamSched.Machine

universe u v
variable {σ : Type u} {ι : Type v} {step : σ → ι → Option σ}

/-- Drive the machine through a list of labels; a label that is not enabled ends the run. -/
def run (step : σ → ι → Option σ) : σ → List ι → Option σ
  | s, [] => some s
  | s, l :: ls => (step s l).bind fun t => run step t ls

/-- Every step of the run from `s` satisfies `P`, read in the state before the step. -/
def Along (step : σ → ι → Option σ) (P : σ → ι → Prop) : σ → List ι → Prop
  | _, [] => True
  | s, l :: ls => P s l ∧ ∀ t, step s l = some t → Along step P t ls

/-- Every state visited by the run from `s` satisfies `P`, the first and last included. -/
def Always (step : σ → ι → Option σ) (P : σ → Prop) : σ → List ι → Prop
  | s, [] => P s
  | s, l :: ls => P s ∧ ∀ t, step s l = some t → Always step P t ls

/-- Some state visited by the run from `s` satisfies `P`. -/
def Visits (step : σ → ι → Option σ) (P : σ → Prop) (s : σ) (ls : List ι) : Prop :=
  ¬ Always step (fun t => ¬ P t) s ls

instance {P : σ → ι → Prop} [∀ s l, Decidable (P s l)] (s : σ) (ls : List ι) :
    Decidable (Along step P s ls) := go s ls
where
  go : ∀ s ls, Decidable (Along step P s ls)
    | _, [] => isTrue trivial
    | s, l :: ls =>
      match h : step s l with
      | none => decidable_of_iff (P s l) (by simp [Along, h])
      | some t =>
        have := go t ls
        decidable_of_iff (P s l ∧ Along step P t ls) (by simp [Along, h])

instance {P : σ → Prop} [DecidablePred P] (s : σ) (ls : List ι) :
    Decidable (Always step P s ls) := go s ls
where
  go : ∀ s ls, Decidable (Always step P s ls)
    | s, [] => inferInstanceAs (Decidable (P s))
    | s, l :: ls =>
      match h : step s l with
      | none => decidable_of_iff (P s) (by simp [Always, h])
      | some t =>
        have := go t ls
        decidable_of_iff (P s ∧ Always step P t ls) (by simp [Always, h])

@[simp] theorem run_nil (s : σ) : run step s [] = some s := rfl

theorem run_cons {s t : σ} {l : ι} {ls : List ι} :
    run step s (l :: ls) = some t ↔ ∃ u, step s l = some u ∧ run step u ls = some t := by
  simp [run, Option.bind_eq_some_iff]

theorem run_append {s t : σ} {ls ms : List ι} :
    run step s (ls ++ ms) = some t ↔ ∃ u, run step s ls = some u ∧ run step u ms = some t := by
  induction ls generalizing s with
  | nil => simp
  | cons l ls ih =>
    simp only [List.cons_append, run_cons, ih]
    constructor
    · rintro ⟨u, hu, v, hv, hr⟩
      exact ⟨v, ⟨u, hu, hv⟩, hr⟩
    · rintro ⟨v, ⟨u, hu, hv⟩, hr⟩
      exact ⟨u, hu, v, hv, hr⟩

/-- Evaluate a run and a property of its last state. -/
theorem run_reaches {P : σ → Prop} [DecidablePred P] {s : σ} {ls : List ι}
    (h : ((run step s ls).any fun t => decide (P t)) = true) :
    ∃ t, run step s ls = some t ∧ P t := by
  cases hr : run step s ls with
  | none => simp [hr] at h
  | some t => exact ⟨t, rfl, by simpa [hr] using h⟩

theorem Along.mono {P Q : σ → ι → Prop} (h : ∀ s l, P s l → Q s l) {s : σ} {ls : List ι}
    (hp : Along step P s ls) : Along step Q s ls := by
  induction ls generalizing s with
  | nil => trivial
  | cons l ls ih => exact ⟨h s l hp.1, fun t ht => ih (hp.2 t ht)⟩

theorem Along.and {P Q : σ → ι → Prop} {s : σ} {ls : List ι} (hp : Along step P s ls)
    (hq : Along step Q s ls) : Along step (fun s l => P s l ∧ Q s l) s ls := by
  induction ls generalizing s with
  | nil => trivial
  | cons l ls ih => exact ⟨⟨hp.1, hq.1⟩, fun t ht => ih (hp.2 t ht) (hq.2 t ht)⟩

theorem Along.of_append {P : σ → ι → Prop} {s t : σ} {ls ms : List ι}
    (h : Along step P s (ls ++ ms)) (hr : run step s ls = some t) : Along step P t ms := by
  induction ls generalizing s with
  | nil =>
    obtain rfl : s = t := by simpa using hr
    exact h
  | cons l ls ih =>
    obtain ⟨u, hu, hr⟩ := run_cons.mp hr
    exact ih (h.2 u hu) hr

theorem along_and {P Q : σ → ι → Prop} {s : σ} {ls : List ι} :
    Along step (fun s l => P s l ∧ Q s l) s ls ↔ Along step P s ls ∧ Along step Q s ls :=
  ⟨fun h => ⟨h.mono fun _ _ hp => hp.1, h.mono fun _ _ hp => hp.2⟩, fun h => h.1.and h.2⟩

theorem along_congr {P Q : σ → ι → Prop} (h : ∀ s l, P s l ↔ Q s l) {s : σ} {ls : List ι} :
    Along step P s ls ↔ Along step Q s ls :=
  ⟨Along.mono fun s l => (h s l).mp, Along.mono fun s l => (h s l).mpr⟩

/-- Two side conditions agree on a run if they agree under an invariant that lasts as long as
the first of them does. -/
theorem along_congr_of_invariant {I : σ → Prop} {P Q : σ → ι → Prop}
    (h : ∀ s l, I s → (P s l ↔ Q s l))
    (hstep : ∀ s l t, I s → P s l → step s l = some t → I t) {s : σ} {ls : List ι} (hs : I s) :
    Along step P s ls ↔ Along step Q s ls := by
  induction ls generalizing s with
  | nil => exact Iff.rfl
  | cons l ls ih =>
    constructor
    · rintro ⟨hp, hrest⟩
      exact ⟨(h s l hs).mp hp, fun t ht => (ih (hstep s l t hs hp ht)).mp (hrest t ht)⟩
    · rintro ⟨hq, hrest⟩
      have hp := (h s l hs).mpr hq
      exact ⟨hp, fun t ht => (ih (hstep s l t hs hp ht)).mpr (hrest t ht)⟩

/-- Two side conditions agree on a run if they agree at its steps, under an invariant that lasts
as long as the first of them does. -/
theorem along_congr_of_run {I : σ → Prop} {P Q : σ → ι → Prop}
    (hinv : ∀ s l t, I s → P s l → step s l = some t → I t)
    (h : ∀ s l t, I s → step s l = some t → (P s l ↔ Q s l)) {s t : σ} {ls : List ι}
    (hs : I s) (hr : run step s ls = some t) : Along step P s ls ↔ Along step Q s ls := by
  induction ls generalizing s with
  | nil => exact Iff.rfl
  | cons l ls ih =>
    obtain ⟨u, hu, hr⟩ := run_cons.mp hr
    rw [Along, Along, ← h s l u hs hu]
    refine and_congr_right fun hp => forall₂_congr fun w hw => ?_
    obtain rfl : u = w := Option.some.inj (hu.symm.trans hw)
    exact ih (hinv s l u hs hp hu) hr

theorem along_forall {κ : Type*} {P : κ → σ → ι → Prop} {s : σ} {ls : List ι} :
    Along step (fun s l => ∀ k, P k s l) s ls ↔ ∀ k, Along step (P k) s ls := by
  constructor
  · intro h k
    exact h.mono fun _ _ hp => hp k
  · intro h
    induction ls generalizing s with
    | nil => trivial
    | cons l ls ih => exact ⟨fun k => (h k).1, fun t ht => ih fun k => (h k).2 t ht⟩

/-- Every step of a run is enabled. -/
theorem along_enabled {s t : σ} {ls : List ι} (hr : run step s ls = some t) :
    Along step (fun s l => ∃ t, step s l = some t) s ls := by
  induction ls generalizing s with
  | nil => trivial
  | cons l ls ih =>
    obtain ⟨u, hu, hr⟩ := run_cons.mp hr
    refine ⟨⟨u, hu⟩, fun w hw => ?_⟩
    obtain rfl : u = w := Option.some.inj (hu.symm.trans hw)
    exact ih hr

/-- A condition on the labels alone. -/
theorem along_of_mem {P : ι → Prop} {s : σ} {ls : List ι} (h : ∀ l ∈ ls, P l) :
    Along step (fun _ l => P l) s ls := by
  induction ls generalizing s with
  | nil => trivial
  | cons l ls ih => exact ⟨h l (by simp), fun t _ => ih fun l' hl' => h l' (by simp [hl'])⟩

theorem Always.here {P : σ → Prop} {s : σ} {ls : List ι} (h : Always step P s ls) : P s := by
  cases ls with
  | nil => exact h
  | cons l ls => exact h.1

theorem Always.last {P : σ → Prop} {s t : σ} {ls : List ι} (h : Always step P s ls)
    (hr : run step s ls = some t) : P t := by
  induction ls generalizing s with
  | nil =>
    obtain rfl : s = t := by simpa using hr
    exact h
  | cons l ls ih =>
    obtain ⟨u, hu, hr⟩ := run_cons.mp hr
    exact ih (h.2 u hu) hr

/-- Invariant rule for runs whose steps meet a side condition. -/
theorem run_invariant_along {I : σ → Prop} {P : σ → ι → Prop}
    (hstep : ∀ s l t, I s → P s l → step s l = some t → I t)
    {s t : σ} {ls : List ι} (hs : I s) (hp : Along step P s ls)
    (hr : run step s ls = some t) : I t := by
  induction ls generalizing s with
  | nil =>
    obtain rfl : s = t := by simpa using hr
    exact hs
  | cons l ls ih =>
    obtain ⟨u, hu, hr⟩ := run_cons.mp hr
    exact ih (hstep s l u hs hp.1 hu) (hp.2 u hu) hr

theorem run_invariant {I : σ → Prop} (hstep : ∀ s l t, I s → step s l = some t → I t)
    {s t : σ} {ls : List ι} (hs : I s) (hr : run step s ls = some t) : I t :=
  run_invariant_along (P := fun _ _ => True) (fun s l t hs _ => hstep s l t hs) hs
    (along_of_mem fun _ _ => trivial) hr

/-- What an invariant gives in every state of such a run. -/
theorem always_invariant_along {I Q : σ → Prop} {P : σ → ι → Prop}
    (hstep : ∀ s l t, I s → P s l → step s l = some t → I t) (hQ : ∀ s, I s → Q s)
    {s : σ} {ls : List ι} (hs : I s) (hp : Along step P s ls) : Always step Q s ls := by
  induction ls generalizing s with
  | nil => exact hQ s hs
  | cons l ls ih => exact ⟨hQ s hs, fun t ht => ih (hstep s l t hs hp.1 ht) (hp.2 t ht)⟩

/-- What an invariant gives at every step of such a run. -/
theorem along_invariant_along {I : σ → Prop} {P Q : σ → ι → Prop}
    (hstep : ∀ s l t, I s → P s l → step s l = some t → I t) (hQ : ∀ s l, I s → P s l → Q s l)
    {s : σ} {ls : List ι} (hs : I s) (hp : Along step P s ls) : Along step Q s ls := by
  induction ls generalizing s with
  | nil => trivial
  | cons l ls ih => exact ⟨hQ s l hs hp.1, fun t ht => ih (hstep s l t hs hp.1 ht) (hp.2 t ht)⟩

/-- Invariant rule that may also use what the visited states satisfy. -/
theorem run_invariant_always {I J : σ → Prop} {P : σ → ι → Prop}
    (hstep : ∀ s l t, I s → J s → J t → P s l → step s l = some t → I t)
    {s t : σ} {ls : List ι} (hs : I s) (hj : Always step J s ls) (hp : Along step P s ls)
    (hr : run step s ls = some t) : I t := by
  induction ls generalizing s with
  | nil =>
    obtain rfl : s = t := by simpa using hr
    exact hs
  | cons l ls ih =>
    obtain ⟨u, hu, hr⟩ := run_cons.mp hr
    have hju := hj.2 u hu
    exact ih (hstep s l u hs hj.1 hju.here hp.1 hu) hju (hp.2 u hu) hr

/-- What no step regains holds in every state of a run exactly when it holds in the last one. -/
theorem always_iff_last {I B : σ → Prop} (hinv : ∀ s l t, I s → step s l = some t → I t)
    (hlost : ∀ s l t, I s → ¬ B s → step s l = some t → ¬ B t)
    {s t : σ} {ls : List ι} (hs : I s) (hr : run step s ls = some t) :
    Always step B s ls ↔ B t := by
  refine ⟨fun h => h.last hr, fun hb => ?_⟩
  have hhere {u : σ} {ms : List ι} (hu : I u) (hr : run step u ms = some t) : B u := by
    by_contra hnot
    have hend : I t ∧ ¬ B t := run_invariant (I := fun v => I v ∧ ¬ B v)
      (fun v l w h hw => ⟨hinv v l w h.1 hw, hlost v l w h.1 h.2 hw⟩) ⟨hu, hnot⟩ hr
    exact hend.2 hb
  induction ls generalizing s with
  | nil => exact hhere hs hr
  | cons l ls ih =>
    refine ⟨hhere hs hr, fun u hu => ?_⟩
    obtain ⟨w, hw, hr⟩ := run_cons.mp hr
    obtain rfl : w = u := Option.some.inj (hw.symm.trans hu)
    exact ih (hinv s l w hs hw) hr

/-- A property holds in every state of a run exactly when every step meets the condition under
which a step preserves it. -/
theorem always_iff_along {I B : σ → Prop} {P : σ → ι → Prop}
    (hinv : ∀ s l t, I s → step s l = some t → I t)
    (h : ∀ s l t, I s → B s → step s l = some t → (B t ↔ P s l))
    {s t : σ} {ls : List ι} (hs : I s) (hb : B s) (hr : run step s ls = some t) :
    Always step B s ls ↔ Along step P s ls := by
  induction ls generalizing s with
  | nil => exact ⟨fun _ => trivial, fun _ => hb⟩
  | cons l ls ih =>
    obtain ⟨u, hu, hr⟩ := run_cons.mp hr
    have hiff := h s l u hs hb hu
    constructor
    · rintro ⟨-, hrest⟩
      have hbu := (hrest u hu).here
      refine ⟨hiff.mp hbu, fun w hw => ?_⟩
      obtain rfl : u = w := Option.some.inj (hu.symm.trans hw)
      exact (ih (hinv s l u hs hu) hbu hr).mp (hrest u hu)
    · rintro ⟨hp, hrest⟩
      refine ⟨hb, fun w hw => ?_⟩
      obtain rfl : u = w := Option.some.inj (hu.symm.trans hw)
      exact (ih (hinv s l u hs hu) (hiff.mpr hp) hr).mpr (hrest u hu)

/-- In a run whose steps meet the side condition `Q`, a property that an invariant gives holds in
every state exactly when every step meets the condition under which a step keeps the invariant, if
the other steps lose the property. -/
theorem always_iff_along_of_invariant_along {I B : σ → Prop} {P Q : σ → ι → Prop}
    (hB : ∀ s, I s → B s) (hgood : ∀ s l t, I s → Q s l → P s l → step s l = some t → I t)
    (hbad : ∀ s l t, I s → Q s l → ¬ P s l → step s l = some t → ¬ B t)
    {s t : σ} {ls : List ι} (hs : I s) (hq : Along step Q s ls)
    (hr : run step s ls = some t) : Always step B s ls ↔ Along step P s ls := by
  induction ls generalizing s with
  | nil => exact ⟨fun _ => trivial, fun _ => hB s hs⟩
  | cons l ls ih =>
    obtain ⟨u, hu, hr⟩ := run_cons.mp hr
    obtain ⟨hql, hq⟩ := hq
    constructor
    · rintro ⟨-, hrest⟩
      have hp : P s l := by
        by_contra hp
        exact hbad s l u hs hql hp hu (hrest u hu).here
      refine ⟨hp, fun w hw => ?_⟩
      obtain rfl : u = w := Option.some.inj (hu.symm.trans hw)
      exact (ih (hgood s l u hs hql hp hu) (hq u hu) hr).mp (hrest u hu)
    · rintro ⟨hp, hrest⟩
      refine ⟨hB s hs, fun w hw => ?_⟩
      obtain rfl : u = w := Option.some.inj (hu.symm.trans hw)
      exact (ih (hgood s l u hs hql hp hu) (hq u hu) hr).mpr (hrest u hu)

/-- A property that an invariant gives holds in every state of a run exactly when every step meets
the condition under which a step keeps the invariant, if the other steps lose the property. -/
theorem always_iff_along_of_invariant {I B : σ → Prop} {P : σ → ι → Prop} (hB : ∀ s, I s → B s)
    (hgood : ∀ s l t, I s → P s l → step s l = some t → I t)
    (hbad : ∀ s l t, I s → ¬ P s l → step s l = some t → ¬ B t)
    {s t : σ} {ls : List ι} (hs : I s) (hr : run step s ls = some t) :
    Always step B s ls ↔ Along step P s ls :=
  always_iff_along_of_invariant_along (Q := fun _ _ => True) hB
    (fun s l t hi _ => hgood s l t hi) (fun s l t hi _ => hbad s l t hi) hs
    (along_of_mem fun _ _ => trivial) hr

/-- A potential that no step lowers, and that a step keeps exactly when it satisfies `P`,
is unchanged at the end of a run exactly when every step satisfied `P`. -/
theorem run_potential {D : σ → Nat} {I : σ → Prop} {P : σ → ι → Prop}
    (hinv : ∀ s l t, I s → step s l = some t → I t)
    (hle : ∀ s l t, I s → step s l = some t → D s ≤ D t)
    (heq : ∀ s l t, I s → step s l = some t → (D t = D s ↔ P s l))
    {s t : σ} {ls : List ι} (hs : I s) (hr : run step s ls = some t) :
    D s ≤ D t ∧ (D t = D s ↔ Along step P s ls) := by
  induction ls generalizing s with
  | nil =>
    obtain rfl : s = t := by simpa using hr
    simp [Along]
  | cons l ls ih =>
    obtain ⟨u, hu, hr⟩ := run_cons.mp hr
    obtain ⟨hle', heq'⟩ := ih (hinv s l u hs hu) hr
    have h₁ := hle s l u hs hu
    have h₂ := heq s l u hs hu
    refine ⟨Nat.le_trans h₁ hle', ?_⟩
    constructor
    · intro h
      refine ⟨h₂.mp (by omega), fun w hw => ?_⟩
      obtain rfl : u = w := Option.some.inj (hu.symm.trans hw)
      exact heq'.mp (by omega)
    · rintro ⟨hp, hrest⟩
      have := h₂.mpr hp
      have := heq'.mpr (hrest u hu)
      omega

section Observe

universe w
variable {η : Type w} {next : η → σ → ι → η}

/-- The machine with an observer beside it: its notes follow the run and do not steer it. -/
def observe (step : σ → ι → Option σ) (next : η → σ → ι → η) (x : σ × η) (l : ι) :
    Option (σ × η) :=
  (step x.1 l).map fun t => (t, next x.2 x.1 l)

theorem observe_eq_some {x y : σ × η} {l : ι} :
    observe step next x l = some y ↔ ∃ t, step x.1 l = some t ∧ (t, next x.2 x.1 l) = y :=
  Option.map_eq_some_iff

/-- The observer follows every run. -/
theorem run_observe (next : η → σ → ι → η) {s t : σ} {ls : List ι} (n : η)
    (hr : run step s ls = some t) :
    ∃ n', run (observe step next) (s, n) ls = some (t, n') := by
  induction ls generalizing s n with
  | nil => exact ⟨n, by simpa using hr⟩
  | cons l ls ih =>
    obtain ⟨u, hu, hr⟩ := run_cons.mp hr
    obtain ⟨n', hr'⟩ := ih (next n s l) hr
    exact ⟨n', run_cons.mpr ⟨(u, next n s l), observe_eq_some.mpr ⟨u, hu, rfl⟩, hr'⟩⟩

end Observe

end JamSched.Machine
