import JamSched.Remote.Clear
import JamSched.Remote.Identifiers

/-!
# Connections

`isValidConnection` has to name the live connection objects and no others: the main connection
and those of `cloudFogInfo`. Six places keep it so. The one that could miss is
`CancelAllRExecRequests`, which destroys the main connection before it has cleared the others
and empties the set only at its end, so it relies on no `Clear` throwing.

On the way every step of the surroundings is described once (`step_event`): it completes the
promise of one acknowledgement or one result, or it clears some connections and fails exactly
what is pending there.
-/
namespace JamSched.Remote

open Machine

section Hosts

theorem mem_of_lookup {hosts : List (String × Ptr)} {host : String} {c : Ptr}
    (h : hosts.lookup host = some c) : (host, c) ∈ hosts := by
  induction hosts with
  | nil => simp at h
  | cons p hosts ih =>
    rw [List.lookup_cons] at h
    split at h
    · next heq =>
      obtain rfl : p.2 = c := by simpa using h
      have : host = p.1 := by simpa using heq
      simp [this]
    · exact List.mem_cons_of_mem _ (ih h)

theorem lookup_of_mem {hosts : List (String × Ptr)} (hn : (hosts.map Prod.fst).Nodup)
    {host : String} {c : Ptr} (h : (host, c) ∈ hosts) : hosts.lookup host = some c := by
  induction hosts with
  | nil => simp at h
  | cons p hosts ih =>
    rw [List.map_cons, List.nodup_cons] at hn
    rw [List.lookup_cons]
    rcases List.mem_cons.mp h with rfl | h
    · simp
    · have hne : (host == p.1) = false := by
        rw [beq_eq_false_iff_ne]
        rintro rfl
        exact hn.1 (List.mem_map.mpr ⟨_, h, rfl⟩)
      rw [hne]
      exact ih hn.2 h

/-- The live objects are distinct and `isValidConnection` names them. -/
structure Linked (s : State) : Prop where
  keys : (s.cloudFogInfo.map Prod.fst).Nodup
  objects : (s.cloudFogInfo.map Prod.snd).Nodup
  apart : ∀ c, s.mainFogInfo = some c → c ∉ s.cloudFogInfo.map Prod.snd
  valid : ∀ c, c ∈ s.isValidConnection ↔ s.Owned c

variable {s t : State}

theorem Linked.congr (h : Linked s) (hm : t.mainFogInfo = s.mainFogInfo)
    (hc : t.cloudFogInfo = s.cloudFogInfo)
    (hv : ∀ c, c ∈ t.isValidConnection ↔ c ∈ s.isValidConnection) : Linked t := by
  refine ⟨by rw [hc]; exact h.keys, by rw [hc]; exact h.objects, ?_, ?_⟩
  · rw [hm, hc]
    exact h.apart
  · intro c
    rw [hv, State.Owned, hm, hc]
    exact h.valid c

theorem Linked.sameHosts (h : Linked s) (hs : SameHosts s t) : Linked t :=
  h.congr hs.main hs.hosts fun c => by rw [hs.valid]

theorem linked_dropHost (h : Linked s) (host : String) : Linked (dropHost s host) := by
  have hsub : (dropHost s host).cloudFogInfo.Sublist s.cloudFogInfo := List.filter_sublist
  refine ⟨(hsub.map _).nodup h.keys, (hsub.map _).nodup h.objects, ?_, ?_⟩
  · intro c hc hmem
    exact h.apart c hc ((hsub.map _).subset hmem)
  · intro c
    have hvalid : c ∈ (dropHost s host).isValidConnection ↔
        s.Owned c ∧ s.cloudFogInfo.lookup host ≠ some c := by
      simp [dropHost, h.valid]
    rw [hvalid]
    constructor
    · rintro ⟨hm | hc, hne⟩
      · exact .inl hm
      · obtain ⟨⟨host', c'⟩, hp, rfl⟩ := List.mem_map.mp hc
        refine .inr (List.mem_map.mpr ⟨(host', c'), ?_, rfl⟩)
        have hne' : host' ≠ host := by
          rintro rfl
          exact hne (lookup_of_mem h.keys hp)
        simp [dropHost, hp, hne']
    · rintro (hm | hc)
      · refine ⟨.inl hm, fun hl => h.apart c hm ?_⟩
        exact List.mem_map_of_mem (f := Prod.snd) (mem_of_lookup hl)
      · obtain ⟨⟨host', c'⟩, hp, rfl⟩ := List.mem_map.mp hc
        obtain ⟨hp, hne⟩ : (host', c') ∈ s.cloudFogInfo ∧ host' ≠ host := by
          simpa [dropHost] using hp
        refine ⟨.inr (List.mem_map_of_mem (f := Prod.snd) hp), fun hl => hne ?_⟩
        -- two hosts with one object
        have := List.inj_on_of_nodup_map h.objects hp (mem_of_lookup hl) rfl
        exact congrArg Prod.fst this

theorem linked_dropHosts (h : Linked s) (hosts : List String) :
    Linked (hosts.foldl dropHost s) := by
  induction hosts generalizing s with
  | nil => exact h
  | cons host hosts ih => exact ih (linked_dropHost h host)

/-- The hosts are gone and nothing else is. -/
theorem dropHosts_eq (s : State) (hosts : List String) : ∃ valid, hosts.foldl dropHost s =
    { s with
      isValidConnection := valid
      cloudFogInfo := s.cloudFogInfo.filter fun p => p.1 ∉ hosts } := by
  induction hosts generalizing s with
  | nil => exact ⟨s.isValidConnection, by simp⟩
  | cons host hosts ih =>
    obtain ⟨valid, heq⟩ := ih (dropHost s host)
    refine ⟨valid, ?_⟩
    have hfilter : (dropHost s host).cloudFogInfo.filter (fun p => p.1 ∉ hosts) =
        s.cloudFogInfo.filter fun p => p.1 ∉ host :: hosts := by
      rw [dropHost, List.filter_filter]
      apply List.filter_congr
      intro p _
      simp [Bool.and_comm]
    rw [List.foldl_cons, heq, hfilter]
    rfl

end Hosts

section Turned

variable {s t u : State} {D E : Ptr → Prop}

/-- Connections, promises and tables are the same. -/
structure Calm (s t : State) : Prop where
  hosts : SameHosts s t
  ackLookup : t.ackLookup = s.ackLookup
  rLookup : t.rLookup = s.rLookup
  attempt : t.attempt = s.attempt
  pending : ∀ c, (t.conn c).rExecPending = (s.conn c).rExecPending
  sent : ∀ c, (t.conn c).sent = (s.conn c).sent

theorem Calm.refl (s : State) : Calm s s :=
  ⟨.refl s, rfl, rfl, rfl, fun _ => rfl, fun _ => rfl⟩

theorem Calm.trans (h : Calm s t) (g : Calm t u) : Calm s u :=
  ⟨h.hosts.trans g.hosts, g.ackLookup.trans h.ackLookup, g.rLookup.trans h.rLookup,
    g.attempt.trans h.attempt, fun c => (g.pending c).trans (h.pending c),
    fun c => (g.sent c).trans (h.sent c)⟩

theorem Calm.updConn (s : State) (c : Ptr) {f : CloudFogInfo → CloudFogInfo}
    (hp : ∀ i, (f i).rExecPending = i.rExecPending) (hs : ∀ i, (f i).sent = i.sent) :
    Calm s (s.updConn c f) := by
  refine ⟨⟨rfl, rfl, rfl⟩, rfl, rfl, rfl, fun d => ?_, fun d => ?_⟩
  all_goals
    by_cases hd : d = c
    · simp [State.updConn, hd, hp, hs]
    · simp [State.updConn, Function.update_of_ne hd]

theorem Calm.publish (s : State) (c : Ptr) (p : Packet) : Calm s (s.publish c p) :=
  ⟨⟨rfl, rfl, rfl⟩, rfl, rfl, rfl, fun _ => rfl, fun _ => rfl⟩

theorem Intact.calm (h : Intact s s.Owned) (hc : Calm s t) : Intact t t.Owned := by
  have hown : t.Owned = s.Owned := funext fun c => propext (hc.hosts.owned c)
  rw [hown]
  refine h.congr (fun c _ => by rw [hc.pending]) ?_ ?_
  · intro id a ha
    rw [hc.ackLookup] at ha
    exact ⟨ha, by rw [hc.attempt]⟩
  · intro id a ha
    rw [hc.rLookup] at ha
    exact ⟨ha, by rw [hc.attempt]⟩

/-- The connections of `D` were cleared and are gone; the ones that are new have nothing
pending. -/
structure Turned (s t : State) (D : Ptr → Prop) : Prop where
  swept : Swept s t s.Owned D
  owned : ∀ c, t.Owned c → s.Owned c ∧ ¬ D c ∨
    ¬ s.Owned c ∧ (t.conn c).rExecPending = [] ∧ (t.conn c).sent = []
  linked : Linked t

theorem Turned.congr (h : Turned s t D) (hDE : ∀ c, D c ↔ E c) : Turned s t E := by
  have : D = E := funext fun c => propext (hDE c)
  rwa [← this]

theorem Calm.turned (h : Calm s t) (hl : Linked s) : Turned s t fun _ => False :=
  ⟨.of_eq h.ackLookup h.rLookup (fun c _ => h.pending c) (fun c _ => h.sent c) h.attempt,
    fun c hc => .inl ⟨(h.hosts.owned c).mp hc, fun h => h⟩,
    hl.sameHosts h.hosts⟩

/-- Something else was done before. -/
theorem Turned.of_calm (h : Turned u t D) (hc : Calm s u) (hD : ∀ c, D c → u.Owned c) :
    Turned s t D := by
  have hown : u.Owned = s.Owned := funext fun c => propext (hc.hosts.owned c)
  refine ⟨?_, ?_, h.linked⟩
  · have hsw := h.swept
    rw [hown] at hsw hD
    have hfirst : Swept s u s.Owned fun _ => False :=
      .of_eq hc.ackLookup hc.rLookup (fun c _ => hc.pending c) (fun c _ => hc.sent c) hc.attempt
    exact (hfirst.trans hsw hD).congr (by simp)
  · rw [← hown]
    exact h.owned

end Turned

section Operations

variable {s t : State}

theorem owned_of_lookup {host : String} {c : Ptr} (hl : s.cloudFogInfo.lookup host = some c) :
    s.Owned c :=
  .inr (List.mem_map_of_mem (f := Prod.snd) (mem_of_lookup hl))

theorem linked_addHost (h : Linked s) {fresh : Ptr} (hf : ¬ s.Owned fresh) {host : String}
    (hl : s.cloudFogInfo.lookup host = none) :
    Linked { s with
      cloudFogInfo := (host, fresh) :: s.cloudFogInfo
      isValidConnection := fresh :: s.isValidConnection } := by
  have hkey : host ∉ s.cloudFogInfo.map Prod.fst := by
    intro hmem
    obtain ⟨⟨host', c⟩, hp, rfl⟩ := List.mem_map.mp hmem
    rw [lookup_of_mem h.keys hp] at hl
    cases hl
  have hmain : s.mainFogInfo ≠ some fresh := fun hm => hf (.inl hm)
  have hobj : fresh ∉ s.cloudFogInfo.map Prod.snd := fun hm => hf (.inr hm)
  refine ⟨List.nodup_cons.mpr ⟨hkey, h.keys⟩, List.nodup_cons.mpr ⟨hobj, h.objects⟩, ?_, ?_⟩
  · intro c hc hmem
    rcases List.mem_cons.mp hmem with rfl | hmem
    · exact hmain hc
    · exact h.apart c hc hmem
  · intro c
    rw [List.mem_cons, h.valid, State.Owned, State.Owned, List.map_cons, List.mem_cons]
    grind

theorem turned_addHost (h : Linked s) {fresh : Ptr} (hf : ¬ s.Owned fresh) (host : String) :
    Turned s (addHost fresh s host).state fun _ => False := by
  unfold addHost
  split
  · next c hl =>
    have hcalm := Calm.updConn s c (f := fun i => { i with isRegistered := true })
      (fun _ => rfl) fun _ => rfl
    refine ⟨.of_eq rfl rfl (fun d _ => hcalm.pending d) (fun d _ => hcalm.sent d) rfl,
      fun d hd => .inl ⟨hd, fun h => h⟩, h.congr rfl rfl fun d => ?_⟩
    have hc := (h.valid c).mpr (owned_of_lookup hl)
    by_cases hd : d = c <;> simp [hd, hc, State.updConn]
  · next hl =>
    have hne : ∀ c, s.Owned c → c ≠ fresh := fun c hc heq => hf (heq ▸ hc)
    refine ⟨.of_eq rfl rfl (fun c hc => ?_) (fun c hc => ?_) rfl, fun c hc => ?_, ?_⟩
    · simp [State.construct, State.updConn, hne c hc]
    · simp [State.construct, State.updConn, hne c hc]
    · by_cases hcf : c = fresh
      · subst hcf
        exact .inr ⟨hf, by simp [State.construct, State.updConn]⟩
      · refine .inl ⟨?_, fun h => h⟩
        rcases hc with hm | hc
        · exact .inl hm
        · rcases List.mem_cons.mp hc with rfl | hc
          · exact absurd rfl hcf
          · exact .inr hc
    · exact (linked_addHost h hf hl).sameHosts ⟨rfl, rfl, rfl⟩

theorem turned_delHost (h : Linked s) (ht : Tabled s) (hi : Intact s s.Owned) {host : String}
    {c : Ptr} (hl : s.cloudFogInfo.lookup host = some c) :
    Turned s (delHost s host).state (· = c) := by
  obtain ⟨u, hu, hcl⟩ := clear_ok ht hi (owned_of_lookup hl)
  have heq : (delHost s host).state = dropHost u host := by
    simp only [delHost, hl, hu]
    rfl
  have hsame := hcl.sameHosts
  rw [heq]
  refine ⟨?_, ?_, ?_⟩
  · exact hcl.swept.keep rfl rfl rfl rfl
  · rintro d (hd | hd)
    · have hd : s.mainFogInfo = some d := hsame.main ▸ hd
      refine .inl ⟨.inl hd, ?_⟩
      rintro rfl
      exact h.apart d hd (List.mem_map_of_mem (f := Prod.snd) (mem_of_lookup hl))
    · obtain ⟨⟨host', c'⟩, hp, rfl⟩ := List.mem_map.mp hd
      obtain ⟨hp, hne⟩ : (host', c') ∈ s.cloudFogInfo ∧ host' ≠ host := by
        simpa [dropHost, hsame.hosts] using hp
      refine .inl ⟨.inr (List.mem_map_of_mem (f := Prod.snd) hp), ?_⟩
      rintro rfl
      exact hne (congrArg Prod.fst (List.inj_on_of_nodup_map h.objects hp (mem_of_lookup hl) rfl))
  · exact linked_dropHost (h.sameHosts hsame) host

/-- The connection to be renewed or marked first. -/
theorem expireMain_ok (h : Linked s) (ht : Tabled s) (hi : Intact s s.Owned) {fresh : Ptr}
    (hf : ¬ s.Owned fresh) :
    ∃ u, expireMain s fresh = .ok u ∧ Linked u ∧ Tabled u ∧ u.cloudFogInfo = s.cloudFogInfo ∧
      Swept s u s.Owned (fun c => s.mainFogInfo = some c ∧ (s.conn c).isExpired = true) ∧
      (∀ c ∈ s.cloudFogInfo.map Prod.snd, (u.conn c).isExpired = (s.conn c).isExpired) ∧
      ∀ c, u.mainFogInfo = some c → (s.mainFogInfo = some c ∧ (s.conn c).isExpired = false) ∨
        c = fresh ∧ u.conn c = {} := by
  cases hm : s.mainFogInfo with
  | some c =>
    have hne : ∀ d ∈ s.cloudFogInfo.map Prod.snd, d ≠ c := fun d hd heq => h.apart c hm (heq ▸ hd)
    by_cases hexp : (s.conn c).isExpired = true
    · obtain ⟨v, hv, hcl⟩ := clear_ok ht hi (.inl hm)
      have hsame := hcl.sameHosts
      refine ⟨{ v with
        isValidConnection := v.isValidConnection.filter (· ≠ c), mainFogInfo := none },
        ?_, ?_, ?_, hsame.hosts, ?_, ?_, by simp⟩
      · simp only [expireMain, hm, hexp, hv, if_true]
        rfl
      · refine ⟨hsame.hosts ▸ h.keys, hsame.hosts ▸ h.objects, by simp, fun d => ?_⟩
        have hv : d ∈ v.isValidConnection ↔ s.mainFogInfo = some d ∨
            d ∈ s.cloudFogInfo.map Prod.snd := hsame.valid ▸ h.valid d
        simp only [State.Owned, List.mem_filter, hv, hm, hsame.hosts]
        by_cases hd : d = c
        · subst hd
          simpa using h.apart d hm
        · simp [hd, Ne.symm hd]
      · exact tabled_env (clear_tabled ht hv) (.of_eq rfl)
      · refine (hcl.swept.congr fun d => ?_).keep rfl rfl rfl rfl
        constructor
        · rintro rfl
          exact ⟨rfl, hexp⟩
        · rintro ⟨hd, -⟩
          exact (Option.some.inj hd).symm
      · intro d hd
        rw [hcl.conn, Function.update_of_ne (hne d hd)]
    · have hcalm := Calm.updConn s c (f := fun i => { i with isExpired := true })
        (fun _ => rfl) fun _ => rfl
      refine ⟨s.updConn c fun i => { i with isExpired := true }, ?_, h.sameHosts hcalm.hosts,
        tabled_env ht (.updConn c _), rfl, (hcalm.turned h).swept.congr fun d => ?_, ?_, ?_⟩
      · simp [expireMain, hm, hexp]
      · simp only [false_iff]
        rintro ⟨hd, hd'⟩
        exact hexp (Option.some.inj hd ▸ hd')
      · intro d hd
        simp [State.updConn, Function.update_of_ne (hne d hd)]
      · intro d hd
        obtain rfl : c = d := Option.some.inj (hm.symm.trans hd)
        exact .inl ⟨rfl, by simpa using hexp⟩
  | none =>
    have hne : ∀ c, s.Owned c → c ≠ fresh := fun c hc heq => hf (heq ▸ hc)
    refine ⟨{ s.construct fresh with
      mainFogInfo := some fresh, isValidConnection := fresh :: s.isValidConnection },
      by simp [expireMain, hm, State.construct, State.updConn], ?_, ?_, rfl, ?_, ?_, ?_⟩
    · refine ⟨h.keys, h.objects, ?_, fun d => ?_⟩
      · rintro c hc hmem
        obtain rfl := Option.some.inj hc
        exact hf (.inr hmem)
      · simp [State.Owned, State.construct, State.updConn, h.valid, hm, eq_comm]
    · exact tabled_env ht (.of_eq rfl)
    · refine Swept.congr (.of_eq rfl rfl (fun c hc => ?_) (fun c hc => ?_) rfl) fun c => ?_
      · simp [State.construct, State.updConn, hne c hc]
      · simp [State.construct, State.updConn, hne c hc]
      · simp
    · intro c hc
      simp [State.construct, State.updConn, hne c (.inr hc)]
    · intro c hc
      obtain rfl := Option.some.inj hc
      exact .inr ⟨rfl, by simp [State.construct, State.updConn]⟩

theorem turned_checkExpire (h : Linked s) (ht : Tabled s) (hi : Intact s s.Owned) {fresh : Ptr}
    (hf : ¬ s.Owned fresh) :
    ∃ t, checkExpire s fresh = .ok t ∧
      Turned s t fun c => s.Owned c ∧ (s.conn c).isExpired = true := by
  obtain ⟨u, hu, hlu, htu, hhosts, hsw, hflag, hmain⟩ := expireMain_ok h ht hi hf
  have hint : Intact u fun c => c ∈ s.cloudFogInfo.map Prod.snd := by
    refine (hi.swept ht hsw (fun _ hc => hc) fun c hc => .inl hc.1).mono fun c hc => ?_
    exact ⟨.inr hc, fun hm => h.apart c hm.1 hc⟩
  obtain ⟨v, hv, hsw', hsame⟩ := expireLoop_ok (A := fun _ => True) htu [] u.cloudFogInfo
    hlu.objects hint (fun _ _ => trivial) fun p hp => hhosts ▸ List.mem_map_of_mem hp
  rw [List.nil_append] at hv
  obtain ⟨names, hnames⟩ : ∃ names,
    names = (u.cloudFogInfo.filter fun p => (u.conn p.2).isExpired).map Prod.fst := ⟨_, rfl⟩
  rw [← hnames] at hv
  obtain ⟨valid, hdrop⟩ := dropHosts_eq v names
  have hnamed : ∀ p ∈ s.cloudFogInfo, p.1 ∉ names → (s.conn p.2).isExpired = false := by
    intro p hp hno
    rw [← hflag p.2 (List.mem_map_of_mem hp)]
    by_contra hexp
    refine hno (hnames ▸ List.mem_map.mpr ⟨p, List.mem_filter.mpr ⟨hhosts ▸ hp, ?_⟩, rfl⟩)
    simpa using hexp
  have hall : Swept s v s.Owned fun c => s.Owned c ∧ (s.conn c).isExpired = true := by
    refine (hsw.trans (hsw'.mono fun _ _ => trivial) fun c hc => .inr (hhosts ▸ hc.1)).congr ?_
    intro c
    constructor
    · rintro (hc | ⟨hc, hexp⟩)
      · exact ⟨.inl hc.1, hc.2⟩
      · rw [hhosts] at hc
        exact ⟨.inr hc, hflag c hc ▸ hexp⟩
    · rintro ⟨hm | hc, hexp⟩
      · exact .inl ⟨hm, hexp⟩
      · exact .inr ⟨hhosts ▸ hc, (hflag c hc).symm ▸ hexp⟩
  refine ⟨names.foldl dropHost v, ?_, ?_, ?_, linked_dropHosts (hlu.sameHosts hsame) names⟩
  · simp only [checkExpire, hu]
    show Except.map _ (expireLoop u [] u.cloudFogInfo) = _
    rw [hv]
    rfl
  · rw [hdrop]
    exact hall.keep rfl rfl rfl rfl
  · rw [hdrop]
    rintro c (hc | hc)
    · have hc : u.mainFogInfo = some c := hsame.main ▸ hc
      rcases hmain c hc with ⟨hm, hexp⟩ | ⟨rfl, hnew⟩
      · exact .inl ⟨.inl hm, by simp [hexp]⟩
      · refine .inr ⟨hf, ?_, ?_⟩
        · exact (hsw'.pending c trivial).trans (by rw [hnew])
        · exact (hsw'.sent c trivial).trans (by rw [hnew])
    · obtain ⟨p, hp, rfl⟩ := List.mem_map.mp hc
      obtain ⟨hp, hno⟩ : p ∈ s.cloudFogInfo ∧ p.1 ∉ names := by
        simpa [hsame.hosts, hhosts] using hp
      exact .inl ⟨.inr (List.mem_map_of_mem hp), by simp [hnamed p hp hno]⟩

theorem turned_cancelAll (h : Linked s) (ht : Tabled s) (hi : Intact s s.Owned) :
    ∃ t, cancelAllRExecRequests s = .ok t ∧ Turned s t s.Owned := by
  obtain ⟨u, hu, htu, hmain, hhosts, hsw⟩ : ∃ u, cancelMain s = .ok u ∧ Tabled u ∧
      u.mainFogInfo = none ∧ u.cloudFogInfo = s.cloudFogInfo ∧
      Swept s u s.Owned fun c => s.mainFogInfo = some c := by
    cases hm : s.mainFogInfo with
    | none =>
      refine ⟨s, by simp [cancelMain, hm], ht, hm, rfl, ?_⟩
      exact Swept.congr (.of_eq rfl rfl (fun _ _ => rfl) (fun _ _ => rfl) rfl) (by simp)
    | some c =>
      obtain ⟨v, hv, hcl⟩ := clear_ok ht hi (.inl hm)
      refine ⟨{ v with mainFogInfo := none }, ?_, ?_, rfl, hcl.sameHosts.hosts, ?_⟩
      · simp only [cancelMain, hm, hv]
        rfl
      · exact tabled_env (clear_tabled ht hv) (.of_eq rfl)
      · refine (hcl.swept.congr fun d => ?_).keep rfl rfl rfl rfl
        simp [eq_comm]
  have hint : Intact u fun c => c ∈ s.cloudFogInfo.map Prod.snd := by
    refine (hi.swept ht hsw (fun _ hc => hc) fun c hc => .inl hc).mono fun c hc => ?_
    exact ⟨.inr hc, fun hm => h.apart c hm hc⟩
  obtain ⟨v, hv, hsw', hsame⟩ := clearAll_ok (A := s.Owned) htu u.cloudFogInfo
    (hhosts ▸ h.objects) hint (fun _ hc => .inr hc) fun p hp => hhosts ▸ List.mem_map_of_mem hp
  refine ⟨{ v with cloudFogInfo := [], isValidConnection := [] }, ?_, ?_⟩
  · simp only [cancelAllRExecRequests, hu]
    show Except.map _ (clearAll u u.cloudFogInfo) = _
    rw [hv]
    rfl
  · have hgone : ∀ c, ¬ State.Owned { v with cloudFogInfo := [], isValidConnection := [] } c := by
      rintro c (hm | hc)
      · have : v.mainFogInfo = none := hsame.main.trans hmain
        simp [this] at hm
      · simp at hc
    refine ⟨?_, fun c hc => absurd hc (hgone c), ⟨by simp, by simp, by simp, fun c => ?_⟩⟩
    · have hall := hsw.trans hsw' fun c hc => .inr (hhosts ▸ hc)
      refine (hall.congr fun c => ?_).keep rfl rfl rfl rfl
      rw [hhosts]
      exact Iff.rfl
    · simpa using hgone c

theorem turned_shutDown (h : Linked s) (ht : Tabled s) (hi : Intact s s.Owned) :
    ∃ t, shutDown s = .ok t ∧
      Turned s t fun c => s.Owned c ∧ s.ribSchedulerShutdownFlag = false := by
  cases hflag : s.ribSchedulerShutdownFlag with
  | true =>
    exact ⟨s, by simp [shutDown, hflag], ((Calm.refl s).turned h).congr (by simp)⟩
  | false =>
    obtain ⟨t, ht', hturn⟩ := turned_cancelAll h ht hi
    refine ⟨{ t with toContinue := false, ribSchedulerShutdownFlag := true }, ?_, ?_⟩
    · simp only [shutDown, hflag, ht']
      rfl
    · refine ⟨(hturn.swept.congr (by simp)).keep rfl rfl rfl rfl, ?_, ?_⟩
      · intro c hc
        simpa using hturn.owned c hc
      · exact hturn.linked.sameHosts ⟨rfl, rfl, rfl⟩

theorem calm_ping (c : Ptr) (rand : Nat) : Calm s (ping s c rand) :=
  relates_ping .refl .trans (fun u p _ _ => .publish u c p) (fun _ _ => .updConn _ c) s rand

theorem calm_registerAck (c : Ptr) : Calm s (registerAck s c) :=
  .updConn s c (fun _ => rfl) fun _ => rfl

theorem calm_rexecAsy (c : Ptr) (rMsg : Json) : Calm s (rexecAsy s c rMsg).state := by
  unfold rexecAsy
  split
  · exact .refl s
  · split
    · split
      · exact .refl s
      · exact .refl s
      · exact ⟨⟨rfl, rfl, rfl⟩, rfl, rfl, rfl, fun _ => rfl, fun _ => rfl⟩
    · exact .refl s

end Operations

section Events

/-- The host that PUT-CF-INFO gets as far as. -/
def readHost (s : State) (rMsg : Json) : Option String :=
  (rMsg.field "actid" >>= Json.getUInt32).bind fun actId =>
    if actId ∈ s.cache then none
    else (rMsg.field "args" >>= fun args => args.element 0) >>= Json.getString

/-- The step clears the connection at `c`. -/
def Clears (s : State) (l : Label) (c : Ptr) : Prop :=
  s.Owned c ∧
    match l with
    | .checkExpire _ => (s.conn c).isExpired = true
    | .cancelAllRExecRequests => True
    | .shutDown => s.ribSchedulerShutdownFlag = false
    | .arrived d topic rMsg _ _ => d ∈ s.isValidConnection ∧
      (registerTopic topic (announceDown s.appId) rMsg "KILL" = true ∧
          s.ribSchedulerShutdownFlag = false ∨
        registerTopic topic (announceDown s.appId) rMsg "PUT-CF-INFO" = true ∧
          isPut rMsg "DEL" = true ∧ (readHost s rMsg).bind (s.cloudFogInfo.lookup ·) = some c)
    | _ => False

instance (s : State) (l : Label) (c : Ptr) : Decidable (Clears s l c) :=
  match l with
  | .checkExpire _ => inferInstanceAs (Decidable (_ ∧ _ = _))
  | .shutDown => inferInstanceAs (Decidable (_ ∧ _ = _))
  | .arrived .. => inferInstanceAs (Decidable (_ ∧ _ ∧ (_ ∨ _)))
  | .cancelAllRExecRequests => inferInstanceAs (Decidable (_ ∧ True))
  | .call _ | .attempt _ | .reply _ => inferInstanceAs (Decidable (_ ∧ False))

/-- Connection, identifier and value of the REXEC-RES that the step hands to its command. -/
def handledRes (s : State) : Label → Option (Ptr × Nat × Json)
  | .arrived c topic rMsg _ _ =>
    if c ∈ s.isValidConnection ∧ registerTopic topic (replyDown s.appId) rMsg "REXEC-RES" then
      (readActId rMsg).bind fun id => (rMsg.field "args").map fun args => (c, id, args)
    else none
  | _ => none

/-- REXEC-ACK completed a promise and took it out of the table. -/
structure Acknowledged (s t : State) (id a : Nat) : Prop where
  key : s.ackLookup id = some a
  ackLookup : t.ackLookup = Function.update s.ackLookup id none
  rLookup : t.rLookup = s.rLookup
  conn : t.conn = s.conn
  hosts : SameHosts s t
  ack : (t.attempt a).ack = some true
  res : (t.attempt a).res = (s.attempt a).res
  other : ∀ b ≠ a, t.attempt b = s.attempt b

/-- REXEC-RES completed a promise and took it out of the table, and its identifier out of the
pending ones of the connection it came through. -/
structure Resulted (s t : State) (c : Ptr) (id a : Nat) (args : Json) : Prop where
  key : s.rLookup id = some a
  ackLookup : t.ackLookup = s.ackLookup
  rLookup : t.rLookup = Function.update s.rLookup id none
  pending : ∀ d, (t.conn d).rExecPending =
    if d = c then (s.conn d).rExecPending.filter (· ≠ id) else (s.conn d).rExecPending
  sent : ∀ d, (t.conn d).sent = (s.conn d).sent
  hosts : SameHosts s t
  ack : (t.attempt a).ack = (s.attempt a).ack
  res : (t.attempt a).res = some (true, args)
  other : ∀ b ≠ a, t.attempt b = s.attempt b

/-- What a step of the surroundings does to promises and connections. -/
inductive Event (s : State) (l : Label) (t : State) : Prop where
  | ack {id a : Nat} (hl : ∀ c, ¬ Clears s l c) (h : Acknowledged s t id a)
  | res {c : Ptr} {id a : Nat} {args : Json} (hl : handledRes s l = some (c, id, args))
      (h : Resulted s t c id a args)
  | turned (h : Turned s t (Clears s l))

variable {s t : State} {c fresh : Ptr} {topic : String} {rMsg : Json} {rand : Nat}

theorem registerTopic_cmd {topicName name : String}
    (h : registerTopic topic topicName rMsg name = true) :
    (rMsg.field "cmd" >>= Json.getString) = some name := by
  simp only [registerTopic, Bool.and_eq_true, decide_eq_true_eq] at h
  exact h.2

theorem registerTopic_ne {topicName topicName' name name' : String}
    (h : registerTopic topic topicName rMsg name = true) (hne : name' ≠ name) :
    registerTopic topic topicName' rMsg name' = false := by
  by_contra h'
  have h' := registerTopic_cmd (Bool.not_eq_false _ ▸ h')
  rw [registerTopic_cmd h] at h'
  exact hne (Option.some.inj h').symm

/-- Only two commands clear connections. -/
theorem not_clears_arrived
    (hkill : registerTopic topic (announceDown s.appId) rMsg "KILL" = false)
    (hput : registerTopic topic (announceDown s.appId) rMsg "PUT-CF-INFO" = false) (d : Ptr) :
    ¬ Clears s (.arrived c topic rMsg rand fresh) d := by
  simp [Clears, hkill, hput]

theorem Turned.settle {h : Handled} {D : Ptr → Prop} (ht : Turned s h.state D) :
    Turned s h.settle D := by
  unfold Handled.settle
  split
  · exact ⟨ht.swept.keep rfl rfl rfl rfl, ht.owned, ht.linked.sameHosts ⟨rfl, rfl, rfl⟩⟩
  · exact ht

theorem rexecAck_cases (rMsg : Json) : Calm s (rexecAck s rMsg).settle ∨
    ∃ id a, Acknowledged s (rexecAck s rMsg).settle id a := by
  unfold rexecAck
  split
  · exact .inl (.refl s)
  · next id _ =>
    split
    · exact .inl (.refl s)
    · next a ha =>
      unfold setAck
      split
      · exact .inl (.refl s)
      · refine .inr ⟨id, a, ha, rfl, rfl, rfl, ⟨rfl, rfl, rfl⟩, ?_, ?_, fun b hb => ?_⟩
        all_goals
          simp [Handled.settle, Handled.ofResult, Except.map, finishAck, State.updAttempt, *]

theorem rexecRes_cases (c : Ptr) (rMsg : Json) : Calm s (rexecRes s c rMsg).settle ∨
    ∃ id a args, readActId rMsg = some id ∧ rMsg.field "args" = some args ∧
      Resulted s (rexecRes s c rMsg).settle c id a args := by
  unfold rexecRes
  split
  · next id args hid hargs =>
    unfold storeRes
    split
    · exact .inl ⟨⟨rfl, rfl, rfl⟩, rfl, rfl, rfl, fun _ => rfl, fun _ => rfl⟩
    · next a ha =>
      unfold setRes
      split
      · exact .inl ⟨⟨rfl, rfl, rfl⟩, rfl, rfl, rfl, fun _ => rfl, fun _ => rfl⟩
      · refine .inr ⟨id, a, args, hid, hargs, ha, rfl, rfl, fun d => ?_, fun d => ?_,
          ⟨rfl, rfl, rfl⟩, ?_, ?_, fun b hb => ?_⟩
        all_goals simp [Handled.settle, Handled.ofResult, Except.map, finishRes, State.updAttempt,
          State.updConn, Function.update_apply, *]
        all_goals split <;> simp [*]
  · exact .inl (.refl s)

theorem turned_withHost {act : State → String → Handled} {D : String → Ptr → Prop}
    (hl : Linked s) (hD : ∀ host d, D host d → s.Owned d)
    (hact : ∀ u host, Calm s u → Env s u → Turned u (act u host).state (D host)) :
    Turned s (withHost s rMsg act).state
      fun d => ∃ host, readHost s rMsg = some host ∧ D host d := by
  have hnone : ∀ u, Calm s u → readHost s rMsg = none →
      Turned s u fun d => ∃ host, readHost s rMsg = some host ∧ D host d := by
    intro u hu hno
    refine (hu.turned hl).congr fun d => ?_
    simp [hno]
  unfold withHost
  split
  · next hid => exact hnone s (.refl s) (by simp [readHost, hid])
  · next actid hid =>
    split
    · next hnum => exact hnone s (.refl s) (by simp [readHost, hid, hnum])
    · next actId hnum =>
      split
      · next hcache => exact hnone s (.refl s) (by simp [readHost, hid, hnum, hcache])
      · next hcache =>
        have hcalm : Calm s { s with cache := cacheInsert s.cache actId } :=
          ⟨⟨rfl, rfl, rfl⟩, rfl, rfl, rfl, fun _ => rfl, fun _ => rfl⟩
        dsimp only
        split
        · next hargs => exact hnone _ hcalm (by simp [readHost, hargs])
        · next v hargs =>
          split
          · next hstr => exact hnone _ hcalm (by simp [readHost, hargs, hstr])
          · next host hstr =>
            have henv : Env s { s with cache := cacheInsert s.cache actId } :=
              .of_eq rfl
            refine ((hact _ host hcalm henv).of_calm hcalm (hD host)).congr fun d => ?_
            simp [readHost, hid, hnum, hcache, hargs, hstr]

theorem isPut_opt {opt opt' : String} (h : isPut rMsg opt = true) (hne : opt' ≠ opt) :
    isPut rMsg opt' = false := by
  simp only [isPut, Bool.and_eq_true, decide_eq_true_eq] at h
  simp [isPut, h.1.1.2, hne.symm]

theorem turned_putCFInfo (hl : Linked s) (ht : Tabled s) (hi : Intact s s.Owned)
    (hf : ¬ s.Owned fresh) (rMsg : Json) :
    Turned s (putCFInfo s rMsg fresh).state
      fun d => isPut rMsg "DEL" = true ∧
        (readHost s rMsg).bind (s.cloudFogInfo.lookup ·) = some d := by
  unfold putCFInfo
  split
  · next hadd =>
    refine (turned_withHost hl (D := fun _ _ => False) (by simp) ?_).congr fun d => ?_
    · intro u host hu _
      exact turned_addHost (hl.sameHosts hu.hosts) (fun h => hf ((hu.hosts.owned _).mp h)) host
    · have hdel : isPut rMsg "DEL" = false := isPut_opt hadd.1 (by decide)
      simp [hdel]
  · split
    · next hdel =>
      refine (turned_withHost hl (D := fun host d => s.cloudFogInfo.lookup host = some d)
        (fun _ _ h => owned_of_lookup h) ?_).congr fun d => ?_
      · intro u host hu he
        have hlu := hl.sameHosts hu.hosts
        cases hlook : s.cloudFogInfo.lookup host with
        | none =>
          have hsame : (delHost u host).state = u := by simp [delHost, hu.hosts.hosts, hlook]
          rw [hsame]
          exact ((Calm.refl u).turned hlu).congr fun d => by simp
        | some c =>
          have hlook' : u.cloudFogInfo.lookup host = some c := hu.hosts.hosts ▸ hlook
          refine (turned_delHost hlu (tabled_env ht he) (hi.calm hu) hlook').congr fun d => ?_
          simp [eq_comm]
      · simp [hdel, Option.bind_eq_some_iff]
    · next hdel => exact ((Calm.refl s).turned hl).congr fun d => by simp [hdel]

theorem event_handler (hl : Linked s) (ht : Tabled s) (hi : Intact s s.Owned)
    (hf : ¬ s.Owned fresh) : Event s (.arrived c topic rMsg rand fresh)
      (handler s c topic rMsg rand fresh).settle := by
  unfold handler
  split
  · next hc =>
    -- a command that clears nothing
    have hcalm : ∀ {h : Handled}, Calm s h.settle →
        registerTopic topic (announceDown s.appId) rMsg "KILL" = false →
        registerTopic topic (announceDown s.appId) rMsg "PUT-CF-INFO" = false →
        Event s (.arrived c topic rMsg rand fresh) h.settle := by
      intro h hh hkill hput
      exact .turned ((hh.turned hl).congr fun d => by simp [not_clears_arrived hkill hput d])
    unfold dispatch
    split
    · next hcmd =>
      exact hcalm (calm_ping c rand) (registerTopic_ne hcmd (by decide))
        (registerTopic_ne hcmd (by decide))
    · split
      · next hcmd =>
        obtain ⟨t, hdown, hturn⟩ := turned_shutDown hl ht hi
        rw [hdown]
        have hput : registerTopic topic (announceDown s.appId) rMsg "PUT-CF-INFO" = false :=
          registerTopic_ne hcmd (by decide)
        refine .turned (hturn.congr fun d => ?_)
        simp [Clears, hc, hcmd, hput]
      · next hkill =>
        have hkill := Bool.eq_false_iff.mpr hkill
        split
        · next hcmd =>
          exact hcalm (calm_registerAck c) hkill
            (registerTopic_ne hcmd (by decide))
        · split
          · next hcmd =>
            refine .turned ((turned_putCFInfo hl ht hi hf rMsg).settle.congr fun d => ?_)
            simp only [Clears, hc, hcmd, hkill, Bool.false_eq_true, false_and, false_or, true_and]
            constructor
            · rintro ⟨hdel, hlook⟩
              obtain ⟨host, -, hlook'⟩ := Option.bind_eq_some_iff.mp hlook
              exact ⟨owned_of_lookup hlook', hdel, hlook⟩
            · exact fun h => h.2
          · next hput =>
            have hput := Bool.eq_false_iff.mpr hput
            split
            · next hcmd =>
              rcases rexecAck_cases (s := s) rMsg with hh | ⟨id, a, hh⟩
              · exact hcalm hh hkill hput
              · exact .ack (not_clears_arrived hkill hput) hh
            · split
              · refine .turned (Turned.settle (Turned.congr ((calm_rexecAsy c rMsg).turned hl) ?_))
                intro d
                simp [not_clears_arrived hkill hput d]
              · split
                · exact hcalm (.refl s) hkill hput
                · split
                  · next hcmd =>
                    rcases rexecRes_cases (s := s) c rMsg with hh | ⟨id, a, args, hid, hargs, hh⟩
                    · exact hcalm hh hkill hput
                    · exact .res (by simp [handledRes, hc, hcmd, hid, hargs]) hh
                  · exact hcalm (.refl s) hkill hput
  · next hc =>
    refine .turned (((Calm.refl s).turned hl).congr fun d => ?_)
    simp [Clears, hc]

theorem not_clears_of_handledRes {l : Label} {m : Ptr × Nat × Json}
    (h : handledRes s l = some m) (d : Ptr) : ¬ Clears s l d := by
  cases l with
  | arrived c topic rMsg rand fresh =>
    simp only [handledRes] at h
    split at h
    · next hcmd =>
      exact not_clears_arrived (registerTopic_ne hcmd.2 (by decide))
        (registerTopic_ne hcmd.2 (by decide)) d
    · cases h
  | _ => cases h

theorem handledRes_valid {l : Label} {m : Ptr × Nat × Json} (h : handledRes s l = some m) :
    m.1 ∈ s.isValidConnection := by
  cases l with
  | arrived c topic rMsg rand fresh =>
    simp only [handledRes] at h
    split at h
    · next hcmd =>
      simp only [Option.bind_eq_some_iff, Option.map_eq_some_iff] at h
      obtain ⟨id, -, args, -, rfl⟩ := h
      exact hcmd.1
    · cases h
  | _ => cases h

/-- Every step of the surroundings is one of these events. -/
theorem step_event {l : Label} (hl : Linked s) (ht : Tabled s) (hi : Intact s s.Owned)
    (ha : ∀ a, l ≠ .attempt a) (hc : ∀ entry, l ≠ .call entry) (hst : step s l = some t) :
    Event s l t := by
  unfold step at hst
  split at hst
  · simp at hst
  · cases l with
    | call entry => exact absurd rfl (hc entry)
    | attempt a => exact absurd rfl (ha a)
    | arrived c topic rMsg rand fresh =>
      simp only at hst
      split at hst
      · simp at hst
      · next hf =>
        obtain rfl := Option.some.inj hst
        exact event_handler hl ht hi hf
    | reply c =>
      obtain rfl := Option.some.inj hst
      have hcalm : Calm s (reply s c) := by
        unfold reply
        split
        · exact .publish s c _
        · exact .refl s
      exact .turned ((hcalm.turned hl).congr fun d => by simp [Clears])
    | checkExpire fresh =>
      simp only at hst
      split at hst
      · simp at hst
      · next hf =>
        obtain ⟨u, hu, hturn⟩ := turned_checkExpire hl ht hi hf
        rw [hu] at hst
        obtain rfl := Option.some.inj hst
        exact .turned hturn
    | cancelAllRExecRequests =>
      obtain ⟨u, hu, hturn⟩ := turned_cancelAll hl ht hi
      simp only [hu] at hst
      obtain rfl := Option.some.inj hst
      exact .turned (hturn.congr fun d => by simp [Clears])
    | shutDown =>
      obtain ⟨u, hu, hturn⟩ := turned_shutDown hl ht hi
      simp only [hu] at hst
      obtain rfl := Option.some.inj hst
      exact .turned hturn

end Events

section Kept

/-- The connection whose `rExecPending` an attempt of kind `k` is put into, if it is sent
through `c`. -/
def enrolled (s : State) (k : Kind) (c : Ptr) : Option Ptr :=
  match k with
  | .async | .asyncNT none => none
  | .asyncNT (some _) | .syncTask none | .syncTimeout => some c
  | .syncTask (some _) => s.mainFogInfo

variable {s t : State} {a : Nat} {c : Ptr} {l : Label}

theorem insertPending_pending (d : Ptr) (id : Nat) :
    ((s.insertPending c id).conn d).rExecPending =
      if d = c ∧ id ∉ (s.conn d).rExecPending then id :: (s.conn d).rExecPending
      else (s.conn d).rExecPending := by
  by_cases hd : d = c
  · subst hd
    by_cases hid : id ∈ (s.conn d).rExecPending <;>
      simp [State.insertPending, State.updConn, hid]
  · simp [State.insertPending, State.updConn, hd]

theorem allocate_pending (d : Ptr) :
    ((s.allocate a c).conn d).rExecPending = (s.conn d).rExecPending := by
  by_cases hd : d = c
  · simp [State.allocate, State.updConn, State.updAttempt, hd]
  · simp [State.allocate, State.updConn, State.updAttempt, Function.update_of_ne hd]

theorem enrol_pending (k : Kind) (d : Ptr) (id : Nat) :
    ((s.enrol k c id).conn d).rExecPending =
      if enrolled s k c = some d ∧ id ∉ (s.conn d).rExecPending then id :: (s.conn d).rExecPending
      else (s.conn d).rExecPending := by
  have hinsert := insertPending_pending (s := s) (c := c) d id
  rcases k with _ | (_ | host) | (_ | host) | _
  · simp [State.enrol, enrolled]
  · simp [State.enrol, enrolled]
  · simpa [State.enrol, enrolled, eq_comm] using hinsert
  · simpa [State.enrol, enrolled, eq_comm] using hinsert
  · cases hm : s.mainFogInfo with
    | none => simp [State.enrol, enrolled, hm]
    | some m =>
      simpa [State.enrol, enrolled, hm, eq_comm] using insertPending_pending (s := s) (c := m) d id
  · simpa [State.enrol, enrolled, eq_comm] using hinsert

theorem register_pending (d : Ptr) : ((s.register a c).conn d).rExecPending =
    if enrolled s (s.attempt a).kind c = some d ∧ s.eIdFactory ∉ (s.conn d).rExecPending then
      s.eIdFactory :: (s.conn d).rExecPending
    else (s.conn d).rExecPending := by
  have hsame : enrolled (s.allocate a c) = enrolled s := rfl
  rw [State.register, enrol_pending, allocate_pending, hsame]

/-- What every reachable state keeps of its connections. -/
structure Kept (s : State) : Prop where
  sane : Sane s
  tabled : Tabled s
  linked : Linked s
  intact : Intact s s.Owned

/-- The identifier of a registration is not in use: it is no key of the tables and pending at no
connection. All other steps meet this. -/
def FreshId (s : State) (l : Label) : Prop :=
  Registers s l → s.ackLookup s.eIdFactory = none ∧ s.rLookup s.eIdFactory = none ∧
    ∀ c, s.Owned c → s.eIdFactory ∉ (s.conn c).rExecPending

instance (s : State) (l : Label) : Decidable (Registers s l) :=
  match l with
  | .attempt _ => inferInstanceAs (Decidable (_ ∧ _))
  | .call _ | .arrived .. | .reply _ | .checkExpire _ | .cancelAllRExecRequests | .shutDown =>
    inferInstanceAs (Decidable False)

instance (s : State) (P : Ptr → Prop) [DecidablePred P] : Decidable (∀ c, s.Owned c → P c) :=
  decidable_of_iff (∀ c ∈ s.mainFogInfo.toList ++ s.cloudFogInfo.map Prod.snd, P c) (by
    simp only [List.mem_append, Option.mem_toList]
    exact Iff.rfl)

instance (s : State) (l : Label) : Decidable (FreshId s l) :=
  inferInstanceAs (Decidable (_ → _))

theorem kept_init (appId : String) (funcs : List String) (eid : Nat) (fresh : Ptr) :
    Kept (init appId funcs eid fresh) := by
  refine ⟨sane_init .., tabled_init .., ⟨by simp [init], by simp [init], by simp [init], ?_⟩, ?_⟩
  · intro c
    simp [init, State.Owned, eq_comm]
  · constructor <;> simp [init]

/-- The other keys are as they were, and so are their attempts. -/
theorem Acknowledged.of_ackLookup {id : Nat} (h : Acknowledged s t id a) (ht : Tabled s)
    {id' b : Nat} (hb : t.ackLookup id' = some b) :
    s.ackLookup id' = some b ∧ t.attempt b = s.attempt b := by
  have hid : id' ≠ id := by
    rintro rfl
    simp [h.ackLookup] at hb
  rw [h.ackLookup, Function.update_of_ne hid] at hb
  have hba : b ≠ a := by
    rintro rfl
    exact hid ((ht.ack id' b hb).2.2.symm.trans (ht.ack id b h.key).2.2)
  exact ⟨hb, h.other b hba⟩

theorem Acknowledged.attempt_res {id : Nat} (h : Acknowledged s t id a) (b : Nat) :
    (t.attempt b).res = (s.attempt b).res := by
  by_cases hba : b = a
  · subst hba
    exact h.res
  · rw [h.other b hba]

theorem Resulted.of_rLookup {c : Ptr} {id : Nat} {args : Json} (h : Resulted s t c id a args)
    (ht : Tabled s) {id' b : Nat} (hb : t.rLookup id' = some b) :
    s.rLookup id' = some b ∧ t.attempt b = s.attempt b := by
  have hid : id' ≠ id := by
    rintro rfl
    simp [h.rLookup] at hb
  rw [h.rLookup, Function.update_of_ne hid] at hb
  have hba : b ≠ a := by
    rintro rfl
    exact hid ((ht.res id' b hb).2.2.1.symm.trans (ht.res id b h.key).2.2.1)
  exact ⟨hb, h.other b hba⟩

theorem Resulted.attempt_ack {c : Ptr} {id : Nat} {args : Json} (h : Resulted s t c id a args)
    (b : Nat) : (t.attempt b).ack = (s.attempt b).ack := by
  by_cases hba : b = a
  · subst hba
    exact h.ack
  · rw [h.other b hba]

theorem intact_event (h : Kept s) (he : Event s l t) : Intact t t.Owned ∧ Linked t := by
  cases he with
  | @ack id a hl hack =>
    have hown : t.Owned = s.Owned := funext fun c => propext (hack.hosts.owned c)
    rw [hown]
    refine ⟨h.intact.congr (fun c _ => by rw [hack.conn]) ?_ ?_, h.linked.sameHosts hack.hosts⟩
    · intro id' b hb
      obtain ⟨hb, hsame⟩ := hack.of_ackLookup h.tabled hb
      exact ⟨hb, by rw [hsame]⟩
    · intro id' b hb
      rw [hack.rLookup] at hb
      exact ⟨hb, hack.attempt_res b⟩
  | @res c id a args hl hres =>
    have hown : t.Owned = s.Owned := funext fun c => propext (hres.hosts.owned c)
    rw [hown]
    refine ⟨h.intact.congr (fun d _ => ?_) ?_ ?_, h.linked.sameHosts hres.hosts⟩
    · rw [hres.pending]
      split
      · exact List.filter_sublist
      · exact List.Sublist.refl _
    · intro id' b hb
      rw [hres.ackLookup] at hb
      exact ⟨hb, hres.attempt_ack b⟩
    · intro id' b hb
      obtain ⟨hb, hsame⟩ := hres.of_rLookup h.tabled hb
      exact ⟨hb, by rw [hsame]⟩
  | turned hturn =>
    refine ⟨?_, hturn.linked⟩
    refine (h.intact.swept h.tabled hturn.swept (fun _ hc => hc) fun c hc => hc.1).extend ?_
    intro c hc
    rcases hturn.owned c hc with hold | ⟨-, hnil, -⟩
    · exact .inl hold
    · exact .inr hnil

theorem intact_register (h : Kept s) (hpc : (s.attempt a).pc = .start)
    (hown : Own s (s.register a c) a) (hkey : s.rLookup s.eIdFactory = none)
    (hfresh : ∀ d, s.Owned d → s.eIdFactory ∉ (s.conn d).rExecPending) :
    Intact (s.register a c) s.Owned := by
  obtain ⟨hack, hres, -⟩ := register_tables s a c
  obtain ⟨hno, hno', -⟩ := h.tabled.fresh a (h.tabled.start a hpc)
  have hmem : ∀ d id, s.Owned d → id ∈ ((s.register a c).conn d).rExecPending →
      id = s.eIdFactory ∧ enrolled s (s.attempt a).kind c = some d ∨
        id ≠ s.eIdFactory ∧ id ∈ (s.conn d).rExecPending := by
    intro d id hd hid
    rw [register_pending] at hid
    split at hid
    · next hen =>
      rcases List.mem_cons.mp hid with rfl | hid
      · exact .inl ⟨rfl, hen.1⟩
      · exact .inr ⟨fun heq => hfresh d hd (heq ▸ hid), hid⟩
    · exact .inr ⟨fun heq => hfresh d hd (heq ▸ hid), hid⟩
  -- the promises of the others are as they were
  have hold : ∀ b, (s.attempt b).ack = none → ((s.register a c).attempt b).ack = none := by
    intro b hb
    by_cases hba : b = a
    · subst hba
      rw [hown.ack]
      exact hno
    · rwa [hown.attempt b hba]
  have hold' : ∀ b, (s.attempt b).res = none → ((s.register a c).attempt b).res = none := by
    intro b hb
    by_cases hba : b = a
    · subst hba
      rw [hown.res]
      exact hno'
    · rwa [hown.attempt b hba]
  refine ⟨?_, ?_, ?_, ?_⟩
  · intro d hd
    rw [register_pending]
    split
    · next hen => exact List.nodup_cons.mpr ⟨hen.2, h.intact.nodup d hd⟩
    · exact h.intact.nodup d hd
  · intro d e id hd he hid hid'
    rcases hmem d id hd hid with ⟨heq, hen⟩ | ⟨hne, hid⟩
    · rcases hmem e id he hid' with ⟨-, hen'⟩ | ⟨hne, -⟩
      · exact Option.some.inj (hen.symm.trans hen')
      · exact absurd heq hne
    · rcases hmem e id he hid' with ⟨heq, -⟩ | ⟨-, hid'⟩
      · exact absurd heq hne
      · exact h.intact.single d e id hd he hid hid'
  · intro d id b hd hid hb
    rw [hack] at hb
    rcases hmem d id hd hid with ⟨rfl, -⟩ | ⟨hne, hid⟩
    · obtain rfl : a = b := by simpa using hb
      exact hold a hno
    · rw [Function.update_of_ne hne] at hb
      exact hold b (h.intact.ack d id b hd hid hb)
  · intro d id b hd hid hb
    rw [hres] at hb
    rcases hmem d id hd hid with ⟨rfl, -⟩ | ⟨hne, hid⟩
    · split at hb
      · obtain rfl : a = b := by simpa using hb
        exact hold' a hno'
      · simp [hkey] at hb
    · have hb : s.rLookup id = some b := by
        split at hb
        · rwa [Function.update_of_ne hne] at hb
        · exact hb
      exact hold' b (h.intact.res d id b hd hid hb)

theorem Registers.of_up (ha : a < s.nAttempts) (hpc : (s.attempt a).pc = .start)
    (hup : s.up (s.attempt a).kind = some c) : Registers s (.attempt a) :=
  ⟨ha, hpc, by simp [hup]⟩

theorem intact_advance (h : Kept s) (ha : a < s.nAttempts) (hfresh : FreshId s (.attempt a)) :
    Intact (s.advance a) s.Owned := by
  have hown := own_advance s a
  rcases advance_cases (h.sane.fits a ha) with ⟨c, hpc, hup, heq⟩ | ⟨-, hq⟩
  · rw [heq] at hown ⊢
    obtain ⟨-, hkey, hpend⟩ := hfresh (.of_up ha hpc hup)
    exact intact_register h hpc hown hkey hpend
  · refine h.intact.congr (fun c _ => by rw [hq.conn]) ?_ ?_
    · intro id b hb
      rw [hq.ackLookup] at hb
      refine ⟨hb, ?_⟩
      by_cases hba : b = a
      · rw [hba, hown.ack]
      · rw [hown.attempt b hba]
    · intro id b hb
      rw [hq.rLookup] at hb
      refine ⟨hb, ?_⟩
      by_cases hba : b = a
      · rw [hba, hown.res]
      · rw [hown.attempt b hba]

theorem kept_step (h : Kept s) (hfresh : FreshId s l) (hst : step s l = some t) : Kept t := by
  have hs := sane_step h.sane hst
  have ht := tabled_step h.sane h.tabled hst
  obtain ⟨-, ⟨entry, rfl, rfl⟩ | ⟨a, rfl, ha, -, rfl⟩ | ⟨-, hna, hnc⟩⟩ := step_cases hst
  · refine ⟨hs, ht, h.linked.sameHosts ⟨rfl, rfl, rfl⟩, ?_⟩
    have hold : ∀ a < s.nAttempts, (s.create entry).attempt a = s.attempt a := by
      intro a ha
      simp [State.create, ha]
    refine h.intact.congr (fun c _ => List.Sublist.refl _) ?_ ?_
    · intro id a ha
      exact ⟨ha, by rw [hold a (h.tabled.ack id a ha).1]⟩
    · intro id a ha
      exact ⟨ha, by rw [hold a (h.tabled.res id a ha).1]⟩
  · have hown := own_advance s a
    have hsame : SameHosts s (s.advance a) :=
      ⟨hown.mainFogInfo, hown.cloudFogInfo, hown.isValidConnection⟩
    refine ⟨hs, ht, h.linked.sameHosts hsame, ?_⟩
    have howned : (s.advance a).Owned = s.Owned := funext fun c => propext (hsame.owned c)
    rw [howned]
    exact intact_advance h ha hfresh
  · obtain ⟨hi, hl⟩ := intact_event h (step_event h.linked h.tabled h.intact hna hnc hst)
    exact ⟨hs, ht, hl, hi⟩

end Kept

section Valid

/-- The queued work of a connection that is gone does nothing. -/
def OwnedOnly (s : State) : Prop :=
  (∀ c, c ∈ s.isValidConnection ↔ s.Owned c) ∧
    ∀ c, ¬ s.Owned c → reply s c = s ∧ ∀ topic rMsg rand fresh,
      handler s c topic rMsg rand fresh = ⟨s, .returned⟩

/-- In every run, `isValidConnection` names the main connection and the values of `cloudFogInfo`
and nothing else, and a queued handler or reply of any other connection does nothing. Messages,
expiries and cancellations come in any order; remote executions may run beside them as long as
none is given an identifier that is still in use. -/
theorem valid_connections_owned (appId : String) (funcs : List String) (eid : Nat) (fresh : Ptr)
    (ls : List Label) (h : Along step FreshId (init appId funcs eid fresh) ls) :
    Always step OwnedOnly (init appId funcs eid fresh) ls := by
  refine always_invariant_along (I := Kept) (fun s l t hs hf hst => kept_step hs hf hst) ?_
    (kept_init appId funcs eid fresh) h
  intro s hs
  refine ⟨hs.linked.valid, fun c hc => ?_⟩
  have hno : c ∉ s.isValidConnection := fun hmem => hc ((hs.linked.valid c).mp hmem)
  exact ⟨by simp [reply, hno], fun _ _ _ _ => by simp [handler, hno]⟩

/-- Messages, expiries and cancellations alone give out no identifier. -/
theorem along_freshId_of_no_attempt {s : State} {ls : List Label}
    (h : ∀ l ∈ ls, ∀ a, l ≠ .attempt a) : Along step FreshId s ls := by
  refine (along_of_mem h).mono fun s l hl hreg => ?_
  cases l with
  | attempt a => exact absurd rfl (hl a)
  | _ => exact hreg.elim

/-- Two hosts come, one of them answers, and the main connection and the other one expire. -/
def hostExpires : List Label :=
  [.arrived 0 "/app/announce/down" (putCFInfoMsg "ADD" 1 "a") 0 1,
    .arrived 0 "/app/announce/down" (putCFInfoMsg "ADD" 2 "b") 0 2, .checkExpire 3,
    .arrived 2 "/app/announce/down" (.obj [("cmd", .str "PING")]) 0 3, .checkExpire 3,
    .arrived 1 "/app/announce/down" (putCFInfoMsg "ADD" 3 "c") 0 3]

theorem valid_connections_host_expires :
    (∃ s, run step (init "app" [] 7 0) hostExpires = some s ∧ s.mainFogInfo = none ∧
      s.cloudFogInfo = [("b", 2)] ∧ s.isValidConnection = [2]) ∧
      Always step OwnedOnly (init "app" [] 7 0) hostExpires :=
  ⟨run_reaches (by decide), valid_connections_owned "app" [] 7 0 hostExpires
    (along_freshId_of_no_attempt (by simp [hostExpires]))⟩

end Valid

end JamSched.Remote
