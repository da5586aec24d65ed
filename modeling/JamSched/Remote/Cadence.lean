import JamSched.Remote.Traffic

/-!
# The cadence of PING

How often a connection publishes GET-CF-INFO and PONG while it handles PING. The two counters
behind it belong to the connection: nothing but PING changes them, and PING for another connection
does not. `pongCounter` falls to zero and is set again by the PING that answers. The other counter
is the number of GET-CF-INFO that were published: it goes on only with the message it counts, so
after the first one it stands at one.
-/
namespace JamSched.Remote

open Machine

/-- `CLOUD_FOG_COUNT_STEP`. -/
def cloudFogCountStep : Nat := 10

/-- `PONG_COUNTER_MAX`. -/
def pongCounterMax : Nat := 10

/-- The counters of a connection, and how often it has published GET-CF-INFO and PONG. -/
structure Beats where
  pongCounter : Nat
  cloudFogInfoCounter : Nat
  asked : Nat
  answered : Nat
  deriving DecidableEq, Repr

def State.beats (s : State) (c : Ptr) : Beats where
  pongCounter := (s.conn c).pongCounter
  cloudFogInfoCounter := (s.conn c).cloudFogInfoCounter
  asked := s.published.count (c, .getCFInfo)
  answered := s.published.count (c, .pong)

namespace Beats

/-- The first of the two blocks of PING, for a main connection that has no others beside it. -/
def ask (b : Beats) : Beats :=
  if b.cloudFogInfoCounter % cloudFogCountStep = 0 then
    { b with
      asked := b.asked + 1, cloudFogInfoCounter := (b.cloudFogInfoCounter + 1) % 2 ^ 32 }
  else b

/-- The second one. -/
def answer (b : Beats) (rand : Nat) : Beats :=
  if b.pongCounter = 0 then
    { b with answered := b.answered + 1, pongCounter := rand % pongCounterMax }
  else { b with pongCounter := b.pongCounter - 1 }

def ping (b : Beats) (rand : Nat) : Beats := b.ask.answer rand

/-- A new object at the same address. -/
def reset (b : Beats) : Beats := { b with pongCounter := 0, cloudFogInfoCounter := 0 }

end Beats

/-- There is a main connection, the one at `c`, and no other one. -/
def Alone (c : Ptr) (s : State) : Prop := s.mainFogInfo = some c ∧ s.cloudFogInfo = []

instance (c : Ptr) (s : State) : Decidable (Alone c s) := inferInstanceAs (Decidable (_ ∧ _))

theorem Alone.owned {c : Ptr} {s : State} (h : Alone c s) : s.Owned c := .inl h.1

/-! ## What leaves the cadence alone -/

/-- The counters and the messages of the connection at `c` are as before, or, if that can be, there
is a new object at the address. -/
def Steady (c : Ptr) (D : Prop) (s t : State) : Prop :=
  t.beats c = s.beats c ∨ D ∧ t.beats c = (s.beats c).reset

namespace Steady

variable {c : Ptr} {D : Prop} {s t u : State}

theorem refl (s : State) : Steady c D s s := .inl rfl

theorem trans (h : Steady c D s t) (g : Steady c D t u) : Steady c D s u := by
  unfold Steady at *
  grind [Beats.reset]

theorem of_eq (hconn : t.conn = s.conn) (hpublished : t.published = s.published) :
    Steady c D s t := .inl (by simp only [State.beats, hconn, hpublished])

theorem updConn {d : Ptr} {f : CloudFogInfo → CloudFogInfo}
    (hf : d ≠ c ∨ ∀ i, (f i).pongCounter = i.pongCounter ∧
      (f i).cloudFogInfoCounter = i.cloudFogInfoCounter) : Steady c D s (s.updConn d f) := by
  left
  rcases hf with hne | hf
  · simp [State.beats, State.updConn, Function.update_of_ne (Ne.symm hne)]
  · by_cases hd : c = d
    · subst hd
      simp [State.beats, State.updConn, hf]
    · simp [State.beats, State.updConn, Function.update_of_ne hd]

/-- The other fields of a connection do not matter. -/
theorem updOther (d : Ptr) (f : CloudFogInfo → CloudFogInfo)
    (hpong : ∀ i, (f i).pongCounter = i.pongCounter)
    (hinfo : ∀ i, (f i).cloudFogInfoCounter = i.cloudFogInfoCounter) :
    Steady c D s (s.updConn d f) := updConn (.inr fun i => ⟨hpong i, hinfo i⟩)

theorem publish {d : Ptr} {p : Packet} (hp : d ≠ c ∨ p ≠ .getCFInfo ∧ p ≠ .pong) :
    Steady c D s (s.publish d p) := by
  left
  simp only [State.beats, State.publish]
  grind

theorem construct {fresh : Ptr} (hD : fresh = c → D) : Steady c D s (s.construct fresh) := by
  by_cases hc : fresh = c
  · refine .inr ⟨hD hc, ?_⟩
    simp [State.beats, State.construct, State.updConn, hc, Beats.reset]
  · left
    simp [State.beats, State.construct, State.updConn, Function.update_of_ne (Ne.symm hc)]

end Steady

section Messages

variable {c : Ptr} {D : Prop} (s : State)

theorem traffic_steady : Traffic (Steady c D) where
  refl := .refl
  trans := .trans
  of_eq := .of_eq
  conn _ d f hpong hinfo := .updOther d f hpong hinfo
  rexec _ _ _ := .publish (.inr (by simp))

/-- PING for another connection. -/
theorem steady_ping {d : Ptr} (hd : d ≠ c) (rand : Nat) : Steady c D s (ping s d rand) :=
  relates_ping .refl .trans (fun _ _ _ _ => .publish (.inl hd)) (fun _ _ _ _ => .updConn (.inl hd))
    s rand

end Messages

/-! ## PING after PING -/

section Windows

variable {c : Ptr} {s t : State} {l : Label}

/-- The step is a handler of PING for the connection at `c`; `rand()` is what it would yield. -/
def pingOf (c : Ptr) (s : State) : Label → Option Nat
  | .arrived d topic rMsg rand _ =>
    if d = c ∧ c ∈ s.isValidConnection ∧
        registerTopic topic (announceDown s.appId) rMsg "PING" = true then some rand else none
  | _ => none

/-- The values of `rand()` in the handlers of PING for the connection along a run. -/
def pings (c : Ptr) : State → List Label → List Nat
  | _, [] => []
  | s, l :: ls => match step s l with
    | some t => (pingOf c s l).toList ++ pings c t ls
    | none => []

/-- PING, as far as the cadence is concerned. -/
theorem beats_ping (h : Alone c s) (rand : Nat) :
    (ping s c rand).beats c = (s.beats c).ping rand := by
  have hregister : (askRegister s c).beats c = s.beats c ∧ Alone c (askRegister s c) := by
    unfold askRegister
    split
    · exact ⟨rfl, h⟩
    · exact ⟨by simp [State.beats, State.publish], h⟩
  have hask {u : State} (hu : Alone c u) : (askCFInfo u c).beats c = (u.beats c).ask := by
    obtain ⟨hmain, hhosts⟩ := hu
    by_cases hturn : (u.conn c).cloudFogInfoCounter % 10 = 0 <;>
      simp [askCFInfo, Beats.ask, cloudFogCountStep, hmain, hhosts, hturn, State.beats,
        State.updConn, State.publish]
  have hanswer (u : State) : (answerPing u c rand).beats c = (u.beats c).answer rand := by
    by_cases hturn : (u.conn c).pongCounter = 0 <;>
      simp [answerPing, Beats.answer, pongCounterMax, hturn, State.beats, State.updConn,
        State.publish]
  have hexpired (u : State) :
      (u.updConn c fun i => { i with isExpired := false }).beats c = u.beats c := by
    simp [State.beats, State.updConn]
  rw [ping, hexpired, hanswer, hask hregister.2, hregister.1, Beats.ping]

theorem step_ping {rand : Nat} (hl : pingOf c s l = some rand) (hs : step s l = some t) :
    t = ping s c rand := by
  cases l with
  | arrived d topic rMsg rand' fresh =>
    simp only [pingOf, Option.ite_none_right_eq_some, Option.some.injEq] at hl
    obtain ⟨⟨rfl, hvalid, hcmd⟩, rfl⟩ := hl
    simp only [step, Option.ite_none_left_eq_some, Option.some.injEq] at hs
    obtain ⟨-, -, rfl⟩ := hs
    simp [handler, hvalid, dispatch, hcmd, Handled.settle]
  | _ => simp [pingOf] at hl

/-- A step that is no PING for the connection leaves its cadence alone, or makes a new object. -/
theorem step_steady (hl : pingOf c s l = none) (hs : step s l = some t) :
    Steady c (¬ s.Owned c) s t := by
  refine traffic_steady.step (fun u fresh hfresh => .construct fun hc => hc ▸ hfresh)
    (fun d topic rMsg rand fresh hcase hvalid hcmd => ?_) (fun d topic rMsg _ _ _ _ _ => ?_)
    (fun d _ => ?_) hs
  · refine steady_ping s (fun hd => ?_) rand
    subst hd
    simp [hcase, pingOf, hvalid, hcmd] at hl
  · exact traffic_steady.rexecAsy s d rMsg fun _ _ _ _ _ => .publish (.inr (by simp))
  · unfold reply
    split
    · exact .publish (.inr (by simp))
    · exact .refl s

/-- In a run with no connection but the main one, PING after PING makes up the cadence. -/
theorem beats_run {ls : List Label} (hr : run step s ls = some t)
    (halone : Always step (Alone c) s ls) :
    t.beats c = (pings c s ls).foldl Beats.ping (s.beats c) := by
  induction ls generalizing s with
  | nil =>
    obtain rfl : s = t := by simpa using hr
    rfl
  | cons l ls ih =>
    obtain ⟨u, hu, hr⟩ := run_cons.mp hr
    have hrest := ih hr (halone.2 u hu)
    simp only [pings, hu]
    cases hl : pingOf c s l with
    | none =>
      have hsame : u.beats c = s.beats c :=
        (step_steady hl hu).resolve_right fun h => h.1 halone.1.owned
      rw [hrest, hsame]
      rfl
    | some rand =>
      have hping : u.beats c = (s.beats c).ping rand := by
        rw [step_ping hl hu, beats_ping halone.1]
      rw [hrest, hping]
      rfl

/-- No delay is longer than the greatest one that `rand()` gives, and no connection has counted
more than one GET-CF-INFO. -/
structure InCadence (s : State) : Prop where
  pong (c : Ptr) : (s.conn c).pongCounter < pongCounterMax
  info (c : Ptr) : (s.conn c).cloudFogInfoCounter ≤ 1

theorem inCadence_init (appId : String) (funcs : List String) (eid : Nat) (fresh : Ptr) :
    InCadence (init appId funcs eid fresh) := by
  constructor <;> simp [init, pongCounterMax]

theorem ping_pongCounter (s : State) (c : Ptr) (rand : Nat) :
    ((ping s c rand).conn c).pongCounter =
      if (s.conn c).pongCounter = 0 then rand % pongCounterMax
      else (s.conn c).pongCounter - 1 := by
  have hask : ((askCFInfo (askRegister s c) c).conn c).pongCounter = (s.conn c).pongCounter := by
    unfold askCFInfo askRegister
    split <;> split <;> simp [State.publish, State.updConn]
  rw [ping, answerPing, hask]
  split <;> simp [State.publish, State.updConn, pongCounterMax, hask]

/-- The other counter goes on with the message that it counts only. -/
theorem ping_cloudFogInfoCounter (s : State) (c : Ptr) (rand : Nat) :
    ((ping s c rand).conn c).cloudFogInfoCounter = (s.conn c).cloudFogInfoCounter ∨
      (s.conn c).cloudFogInfoCounter % cloudFogCountStep = 0 ∧
        ((ping s c rand).conn c).cloudFogInfoCounter =
          ((s.conn c).cloudFogInfoCounter + 1) % 2 ^ 32 := by
  have hregister : (askRegister s c).conn = s.conn := by
    unfold askRegister
    split <;> rfl
  have hanswer (u : State) : ((answerPing u c rand).conn c).cloudFogInfoCounter =
      (u.conn c).cloudFogInfoCounter := by
    unfold answerPing
    split <;> simp [State.publish, State.updConn]
  have hping : ((ping s c rand).conn c).cloudFogInfoCounter =
      ((askCFInfo (askRegister s c) c).conn c).cloudFogInfoCounter := by
    rw [← hanswer (askCFInfo (askRegister s c) c)]
    simp [ping, State.updConn]
  rw [hping]
  by_cases hturn : (askRegister s c).mainFogInfo = some c ∧ (askRegister s c).cloudFogInfo = [] ∧
      ((askRegister s c).conn c).cloudFogInfoCounter % 10 = 0
  · refine .inr ⟨?_, ?_⟩
    · simpa [hregister, cloudFogCountStep] using hturn.2.2
    · rw [askCFInfo, if_pos hturn]
      simp [State.publish, State.updConn, hregister]
  · left
    rw [askCFInfo, if_neg hturn, hregister]

theorem InCadence.step (h : InCadence s) (hs : step s l = some t) : InCadence t := by
  have hcounters (c : Ptr) : (t.conn c).pongCounter < pongCounterMax ∧
      (t.conn c).cloudFogInfoCounter ≤ 1 := by
    have hpong := h.pong c
    have hinfo := h.info c
    cases hl : pingOf c s l with
    | some rand =>
      obtain rfl := step_ping hl hs
      have hrand : rand % pongCounterMax < pongCounterMax := Nat.mod_lt _ (by decide)
      rw [ping_pongCounter]
      refine ⟨by split <;> omega, ?_⟩
      rcases ping_cloudFogInfoCounter s c rand with hsame | ⟨hturn, hnext⟩
      · omega
      · have hzero : (s.conn c).cloudFogInfoCounter = 0 := by
          simp only [cloudFogCountStep] at hturn
          omega
        rw [hnext, hzero]
        decide
    | none =>
      have hpositive : 0 < pongCounterMax := by decide
      rcases step_steady hl hs with hsame | ⟨-, hreset⟩
      · simp only [State.beats, Beats.mk.injEq] at hsame
        omega
      · simp only [State.beats, Beats.reset, Beats.mk.injEq] at hreset
        omega
  exact ⟨fun c => (hcounters c).1, fun c => (hcounters c).2⟩

end Windows

section Folds

variable {b : Beats} {rands : List Nat} (rand : Nat)

theorem ping_asked : (b.ping rand).asked =
    if b.cloudFogInfoCounter % cloudFogCountStep = 0 then b.asked + 1 else b.asked := by
  unfold Beats.ping Beats.answer Beats.ask
  split <;> split <;> rfl

theorem ping_answered : (b.ping rand).answered =
    if b.pongCounter = 0 then b.answered + 1 else b.answered := by
  unfold Beats.ping Beats.answer Beats.ask
  split <;> split <;> simp_all

theorem beats_ping_pongCounter : (b.ping rand).pongCounter =
    if b.pongCounter = 0 then rand % pongCounterMax else b.pongCounter - 1 := by
  unfold Beats.ping Beats.answer Beats.ask
  split <;> split <;> simp_all

theorem asked_le : b.asked ≤ (rands.foldl Beats.ping b).asked := by
  induction rands generalizing b with
  | nil => exact Nat.le_refl _
  | cons rand rands ih =>
    refine Nat.le_trans ?_ ih
    rw [ping_asked]
    split <;> omega

theorem answered_le : b.answered ≤ (rands.foldl Beats.ping b).answered := by
  induction rands generalizing b with
  | nil => exact Nat.le_refl _
  | cons rand rands ih =>
    refine Nat.le_trans ?_ ih
    rw [ping_answered]
    split <;> omega

/-- A counter that is no multiple of the step stands still, and nothing is asked. -/
theorem asked_eq (hb : b.cloudFogInfoCounter % cloudFogCountStep ≠ 0) :
    (rands.foldl Beats.ping b).asked = b.asked := by
  induction rands generalizing b with
  | nil => rfl
  | cons rand rands ih =>
    have hsame : (b.ping rand).cloudFogInfoCounter = b.cloudFogInfoCounter := by
      rw [Beats.ping, Beats.ask, if_neg hb, Beats.answer]
      split <;> rfl
    rw [List.foldl_cons, ih (hsame.symm ▸ hb), ping_asked, if_neg hb]

theorem asked_lt (hb : b.cloudFogInfoCounter % cloudFogCountStep = 0) (hne : rands ≠ []) :
    b.asked < (rands.foldl Beats.ping b).asked := by
  cases rands with
  | nil => exact absurd rfl hne
  | cons rand rands =>
    have hfirst : (b.ping rand).asked = b.asked + 1 := by rw [ping_asked, if_pos hb]
    have hrest : (b.ping rand).asked ≤ (rands.foldl Beats.ping (b.ping rand)).asked := asked_le
    rw [List.foldl_cons]
    omega

/-- PONG is published at the latest when the delay is over. -/
theorem answered_lt (hb : b.pongCounter < rands.length) :
    b.answered < (rands.foldl Beats.ping b).answered := by
  induction rands generalizing b with
  | nil => exact absurd hb (Nat.not_lt_zero _)
  | cons rand rands ih =>
    rw [List.foldl_cons]
    have hanswered := ping_answered rand (b := b)
    by_cases hzero : b.pongCounter = 0
    · have hrest : (b.ping rand).answered ≤ (rands.foldl Beats.ping (b.ping rand)).answered :=
        answered_le
      rw [hanswered, if_pos hzero] at hrest
      omega
    · have hless : (b.ping rand).pongCounter < rands.length := by
        rw [beats_ping_pongCounter, if_neg hzero]
        simp only [List.length_cons] at hb
        omega
      have hrest := ih hless
      rwa [hanswered, if_neg hzero] at hrest

end Folds

/-- In every run, while there is no connection but the main one: any `CLOUD_FOG_COUNT_STEP`
consecutive handlings of PING contain one that publishes GET-CF-INFO if and only if the connection
has not counted one before; and any `PONG_COUNTER_MAX` contain one that publishes PONG, whatever
the delays are. -/
theorem asked_iff (appId : String) (funcs : List String) (eid : Nat) (fresh : Ptr)
    {before ls : List Label} {s t : State} {c : Ptr}
    (hbefore : run step (init appId funcs eid fresh) before = some s)
    (hr : run step s ls = some t) (halone : Always step (Alone c) s ls) :
    (cloudFogCountStep ≤ (pings c s ls).length →
      ((s.beats c).asked < (t.beats c).asked ↔ (s.conn c).cloudFogInfoCounter = 0)) ∧
    (pongCounterMax ≤ (pings c s ls).length → (s.beats c).answered < (t.beats c).answered) := by
  have hcadence : InCadence s :=
    run_invariant (fun _ _ _ h hs => h.step hs) (inCadence_init appId funcs eid fresh) hbefore
  have hpong := hcadence.pong c
  have hinfo := hcadence.info c
  rw [beats_run hr halone]
  refine ⟨fun hn => ?_, fun hn => answered_lt (Nat.lt_of_lt_of_le hpong hn)⟩
  have hne : pings c s ls ≠ [] := by
    intro hnil
    simp [hnil, cloudFogCountStep] at hn
  by_cases hzero : (s.conn c).cloudFogInfoCounter = 0
  · have hturn : (s.beats c).cloudFogInfoCounter % cloudFogCountStep = 0 := by
      simp [State.beats, hzero]
    exact iff_of_true (asked_lt hturn hne) hzero
  · have hone : (s.conn c).cloudFogInfoCounter = 1 := by omega
    have hturn : (s.beats c).cloudFogInfoCounter % cloudFogCountStep ≠ 0 := by
      simp [State.beats, hone, cloudFogCountStep]
    rw [asked_eq hturn]
    exact iff_of_false (Nat.lt_irrefl _) hzero

/-- The main connection handles PING ten times; the delays are the longest ones. -/
def pingsRun : List Label :=
  List.replicate 10 (.arrived 0 "/app/announce/down" (.obj [("cmd", .str "PING")]) 9 1)

theorem asked_pingsRun :
    ∃ t, run step (init "app" [] 7 0) pingsRun = some t ∧
      ((init "app" [] 7 0).beats 0).asked < (t.beats 0).asked ∧
      ((init "app" [] 7 0).beats 0).answered < (t.beats 0).answered := by
  obtain ⟨t, hr, -⟩ : ∃ t, run step (init "app" [] 7 0) pingsRun = some t ∧ True :=
    run_reaches (by decide)
  obtain ⟨hasked, hanswered⟩ :=
    asked_iff "app" [] 7 0 (run_nil _) hr (c := 0) (by decide)
  exact ⟨t, hr, (hasked (by decide)).mpr rfl, hanswered (by decide)⟩

/-- Ten more handlings of PING publish no GET-CF-INFO, though there is no other connection yet. -/
theorem not_asked_pingsRun :
    ∃ s, run step (init "app" [] 7 0) pingsRun = some s ∧
      Always step (Alone 0) s pingsRun ∧ (pings 0 s pingsRun).length = cloudFogCountStep ∧
      (s.beats 0).asked = 1 ∧
      (run step s pingsRun).map (fun t => (t.beats 0).asked) = some 1 :=
  run_reaches (by decide)

end JamSched.Remote
