import JamSched.Machine.Run

/-!
# Simulation

A machine whose every step is a step of a relation between abstract states, as far as the labels
tell: its runs are then runs of the relation. The relation may leave open what the machine decides.
-/
namespace JamSched.Machine

universe u v w
variable {σ : Type u} {ι : Type v} {τ : Type w} {step : σ → ι → Option σ}

/-- Runs of a relation. -/
inductive Steps (spec : τ → ι → τ → Prop) : τ → List ι → τ → Prop
  | nil (a : τ) : Steps spec a [] a
  | cons {a b c : τ} {l : ι} {ls : List ι} (h : spec a l b) (hs : Steps spec b ls c) :
    Steps spec a (l :: ls) c

/-- A forward simulation carries over from one step to whole runs. -/
theorem run_simulates {spec : τ → ι → τ → Prop} {R : σ → τ → Prop}
    (hstep : ∀ s a l t, R s a → step s l = some t → ∃ b, spec a l b ∧ R t b) {s t : σ} {a : τ}
    {ls : List ι} (h : R s a) (hr : run step s ls = some t) :
    ∃ b, Steps spec a ls b ∧ R t b := by
  induction ls generalizing s a with
  | nil =>
    obtain rfl : s = t := by simpa using hr
    exact ⟨a, .nil a, h⟩
  | cons l ls ih =>
    obtain ⟨u, hu, hr⟩ := run_cons.mp hr
    obtain ⟨b, hb, hub⟩ := hstep s a l u h hu
    obtain ⟨c, hc, htc⟩ := ih hub hr
    exact ⟨c, .cons hb hc, htc⟩

end JamSched.Machine
