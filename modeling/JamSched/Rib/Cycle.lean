import JamSched.Rib.Control

/-!
# Cycles of contiguous schedules

How the index and the clock of a cycle move. For schedules without gaps the index never runs
ahead of the clock: it names a slot only after the clock has entered it.
-/
namespace JamSched.Rib

section Contiguous

/-- Each slot begins where the one before ended, the first one at `start`. -/
def ContiguousFrom : Int → List RealTimeSchedule → Prop
  | _, [] => True
  | start, slot :: slots =>
    slot.sTime = start ∧ slot.sTime < slot.eTime ∧ ContiguousFrom slot.eTime slots

instance : ∀ start slots, Decidable (ContiguousFrom start slots)
  | _, [] => isTrue trivial
  | _, slot :: slots =>
    have : Decidable (ContiguousFrom slot.eTime slots) := instDecidableContiguousFrom _ _
    inferInstanceAs (Decidable (_ ∧ _ ∧ _))

/-- When the slot of an index begins; past the last slot, when that one ends. -/
def entryTime : Int → List RealTimeSchedule → Nat → Int
  | start, [], _ => start
  | start, _ :: _, 0 => start
  | _, slot :: slots, i + 1 => entryTime slot.eTime slots i

variable {start : Int} {slots : List RealTimeSchedule} {i j : Nat} {slot : RealTimeSchedule}

@[simp] theorem entryTime_zero : entryTime start slots 0 = start := by
  cases slots <;> rfl

theorem ContiguousFrom.entryTime_eq (h : ContiguousFrom start slots)
    (hi : slots[i]? = some slot) : entryTime start slots i = slot.sTime := by
  induction slots generalizing start i with
  | nil => simp at hi
  | cons s ss ih =>
    cases i with
    | zero =>
      obtain rfl : s = slot := by simpa using hi
      exact h.1.symm
    | succ i => exact ih h.2.2 (by simpa using hi)

theorem entryTime_succ (hi : slots[i]? = some slot) :
    entryTime start slots (i + 1) = slot.eTime := by
  induction slots generalizing start i with
  | nil => simp at hi
  | cons s ss ih =>
    cases i with
    | zero =>
      obtain rfl : s = slot := by simpa using hi
      simp [entryTime]
    | succ i => exact ih (by simpa using hi)

theorem ContiguousFrom.entryTime_le_succ (h : ContiguousFrom start slots) (i : Nat) :
    entryTime start slots i ≤ entryTime start slots (i + 1) := by
  induction slots generalizing start i with
  | nil => simp [entryTime]
  | cons s ss ih =>
    cases i with
    | zero =>
      simp only [entryTime, entryTime_zero]
      have := h.1
      have := h.2.1
      omega
    | succ i => exact ih h.2.2 i

theorem ContiguousFrom.entryTime_mono (h : ContiguousFrom start slots) (hij : i ≤ j) :
    entryTime start slots i ≤ entryTime start slots j := by
  induction hij with
  | refl => exact Int.le_refl _
  | step _ ih => exact Int.le_trans ih (h.entryTime_le_succ _)

end Contiguous

section Loop

/-- Places of the loop that are reached only when no slot is left. -/
def Pc.outsideSlots : Pc → Bool
  | .noSchedule | .noScheduleCall | .noScheduleWait | .handOver .noSchedule _
  | .afterHandOver .noSchedule => true
  | _ => false

/-- The main thread is on its way to the check of the current slot, and no real-time task
that is still active will come in between. -/
def State.Watching (s : State) : Prop :=
  match s.pc with
  | .slot | .ret none | .stopped => True
  | .top | .mainLoop => s.activeType ≠ some .realTime
  | _ => False

/-- A step that neither moves the index nor takes a registered task. -/
structure Stays (s t : State) : Prop where
  control : t.control = s.control
  spin : ∀ ceTime, t.pc = .rtSpin ceTime →
    s.pc = .rtSpin ceTime ∨ ∃ slot, s.slotNow = some slot ∧ slot.eTime = ceTime
  outside : t.pc.outsideSlots = true → s.pc.outsideSlots = true ∨ ¬ s.HasSlot
  watching : s.HasSlot → s.Watching → t.Watching

/-- Everything a step of the main thread can do to the slots. -/
inductive LoopStep (s : State) (e : Env) : State → Prop
  | stays {t : State} (h : Stays s t) : LoopStep s e t
  | endSlot {ceTime : Int} (hpc : s.pc = .rtSpin ceTime)
      (hend : ceTime ≤ e.now - s.cycleStartTime) :
      LoopStep s e { s with idxRealTimeTask := s.idxRealTimeTask + 1, pc := .slot }
  | skip {slot : RealTimeSchedule} (hpc : s.pc = .slot) (hslot : s.slotNow = some slot)
      (hout : s.inSlot slot e.now = false) :
      LoopStep s e
        { s with currentTime := e.now, idxRealTimeTask := s.idxRealTimeTask + 1, pc := .top }
  | dispatch {slot : RealTimeSchedule} {p : Ptr} (hpc : s.pc = .slot)
      (hslot : s.slotNow = some slot) (hfind : s.findRegistered slot.taskId e.pick = some p) :
      LoopStep s e { s with
        currentTime := e.now
        rtRegisterTable := s.rtRegisterTable.erase p
        jitters := s.jitters ++ [e.now - s.cycleStartTime - slot.sTime]
        pc := .ret (some p) }
  | noTask {slot : RealTimeSchedule} (hpc : s.pc = .slot) (hslot : s.slotNow = some slot)
      (hfind : s.findRegistered slot.taskId e.pick = none) :
      LoopStep s e { s with currentTime := e.now, pc := .slotLoop }
  | rollover (hpc : s.pc = .noSchedule) :
      LoopStep s e { s with
        currentSchedule := s.nextSchedule e.coin
        cycles := s.cycles + 1
        idxRealTimeTask := 0
        cycleStartTime := e.now
        pc := .top }

variable {s t : State} {e : Env}

/-- A step to a place of which only its name matters. -/
theorem Stays.of_pc (hc : t.control = s.control) (hspin : ∀ ceTime, t.pc ≠ .rtSpin ceTime)
    (hout : t.pc.outsideSlots = true → s.pc.outsideSlots = true ∨ ¬ s.HasSlot)
    (hw : s.HasSlot → s.Watching → t.Watching) : Stays s t :=
  ⟨hc, fun ceTime h => absurd h (hspin ceTime), hout, hw⟩

theorem Stays.stepTop (hpc : s.pc = .top) (now : Int) : Stays s (s.stepTop now) := by
  simp only [State.stepTop]
  split
  · exact .of_pc rfl (by simp) (by simp [Pc.outsideSlots]) fun _ _ => trivial
  split
  · exact .of_pc rfl (by simp) (by simp [Pc.outsideSlots]) fun _ _ => trivial
  rename_i p hp
  split
  · exact .of_pc rfl (by simp) (by simp [Pc.outsideSlots]) fun _ _ => trivial
  · -- a real-time task is active, so the thread was not watching
    rename_i hty
    have hnot : ¬ s.Watching := by simp [State.Watching, hpc, State.activeType, hp, hty]
    split
    · exact .of_pc rfl (by simp) (by simp [Pc.outsideSlots]) fun _ h => absurd h hnot
    · rename_i slot hslot
      split
      · exact .of_pc rfl (by simp) (by simp [Pc.outsideSlots]) fun _ h => absurd h hnot
      · refine ⟨rfl, fun ceTime h => .inr ⟨slot, hslot, ?_⟩, by simp [Pc.outsideSlots],
          fun _ h => absurd h hnot⟩
        simpa using h
  · refine .of_pc ?_ (by simp) (by simp [Pc.outsideSlots]) fun _ _ => trivial
    exact control_modify s p _ fun _ => rfl

theorem Stays.stepRtWait (hpc : s.pc = .rtWait) (now : Int) : Stays s (s.stepRtWait now) := by
  have hnot : ¬ s.Watching := by simp [State.Watching, hpc]
  simp only [State.stepRtWait]
  split
  · exact .of_pc rfl (by simp) (by simp [Pc.outsideSlots]) fun _ h => absurd h hnot
  rename_i slot hslot
  split
  · split
    · exact .of_pc rfl (by simp) (by simp [Pc.outsideSlots]) fun _ h => absurd h hnot
    · refine ⟨rfl, fun ceTime h => .inr ⟨slot, hslot, ?_⟩, by simp [Pc.outsideSlots],
        fun _ h => absurd h hnot⟩
      simpa using h
  · exact .of_pc rfl (by simp [hpc]) .inl fun _ h => absurd h hnot

theorem Stays.stepSlotLoop (hpc : s.pc = .slotLoop) (now : Int) :
    Stays s (s.stepSlotLoop now) := by
  have hnot : ¬ s.Watching := by simp [State.Watching, hpc]
  simp only [State.stepSlotLoop]
  split
  · exact .of_pc rfl (by simp) (by simp [Pc.outsideSlots]) fun _ h => absurd h hnot
  split
  · exact .of_pc rfl (by simp) (by simp [Pc.outsideSlots]) fun _ h => absurd h hnot
  · exact .of_pc rfl (by simp) (by simp [Pc.outsideSlots]) fun _ h => absurd h hnot

theorem Stays.stepSlotWait (hpc : s.pc = .slotWait) (now : Int) :
    Stays s (s.stepSlotWait now) := by
  have hnot : ¬ s.Watching := by simp [State.Watching, hpc]
  simp only [State.stepSlotWait]
  split
  · exact .of_pc rfl (by simp) (by simp [Pc.outsideSlots]) fun _ h => absurd h hnot
  split
  · split
    · exact .of_pc rfl (by simp) (by simp [Pc.outsideSlots]) fun _ h => absurd h hnot
    · exact .of_pc rfl (by simp) (by simp [Pc.outsideSlots]) fun _ h => absurd h hnot
  · exact .of_pc rfl (by simp [hpc]) .inl fun _ h => absurd h hnot

/-- Inside `GetAnInteractiveBatchTask`. -/
theorem Stays.of_serving {site : Site} (hc : t.control = s.control) (hs : Serving site t.pc)
    (hout : site = .noSchedule → s.pc.outsideSlots = true) (hnot : ¬ s.Watching) :
    Stays s t := by
  refine .of_pc hc ?_ ?_ fun _ h => absurd h hnot
  · intro ceTime h
    rw [h] at hs
    cases site <;> nomatch hs
  · intro h
    cases site with
    | slot =>
      generalize t.pc = pc at hs h
      cases hs <;> simp [Pc.outsideSlots, Site.wait] at h
    | noSchedule => exact .inl (hout rfl)

theorem Stays.stepRet {next : Option Ptr} (hpc : s.pc = .ret next) :
    Stays s (s.stepRet next) := by
  obtain ⟨hc, ⟨hpc', ha, rfl⟩ | ⟨hpc', -, hne⟩⟩ := stepRet_control s next
  · refine .of_pc hc (by simp [hpc']) (by simp [hpc', Pc.outsideSlots]) fun _ _ => ?_
    simp [State.Watching, hpc', State.activeType, ha]
  · refine .of_pc hc (by simp [hpc']) (by simp [hpc', Pc.outsideSlots]) fun _ h => ?_
    cases next with
    | none => exact absurd rfl hne
    | some q => simp [State.Watching, hpc] at h

theorem stepSlot_loop (hpc : s.pc = .slot) : LoopStep s e (s.stepSlot e) := by
  simp only [State.stepSlot]
  split
  · rename_i hnone
    refine .stays (.of_pc rfl (by simp) (fun _ => .inr (slotNow_eq_none.mp hnone)) ?_)
    exact fun h => absurd h (slotNow_eq_none.mp hnone)
  · rename_i slot hslot
    split
    · split
      · rename_i p hp
        exact .dispatch hpc hslot hp
      · rename_i hnone
        exact .noTask hpc hslot hnone
    · rename_i hout
      exact .skip hpc hslot (by simpa using hout)

theorem mainStep_loop (h : s.mainStep e = some t) : LoopStep s e t := by
  cases hpc : s.pc with
  | mainLoop =>
    obtain rfl : _ = t := by simpa [State.mainStep, hpc] using h
    cases s.toContinue with
    | false =>
      exact .stays (.of_pc rfl (by simp) (by simp [Pc.outsideSlots]) fun _ _ => trivial)
    | true =>
      refine .stays (.of_pc rfl (by simp) (by simp [Pc.outsideSlots]) fun _ hw => ?_)
      simpa [State.Watching, hpc, State.activeType] using hw
  | top =>
    obtain rfl : _ = t := by simpa [State.mainStep, hpc] using h
    exact .stays (.stepTop hpc e.now)
  | rtWait =>
    obtain rfl : _ = t := by simpa [State.mainStep, hpc] using h
    exact .stays (.stepRtWait hpc e.now)
  | rtSpin ceTime =>
    obtain rfl : _ = t := by simpa [State.mainStep, hpc] using h
    simp only [State.stepRtSpin]
    split
    · refine .stays ⟨rfl, fun _ h => .inl h, .inl, fun _ hw => ?_⟩
      simp [State.Watching, hpc] at hw
    · exact .endSlot hpc (by omega)
  | slot =>
    obtain rfl : _ = t := by simpa [State.mainStep, hpc] using h
    exact stepSlot_loop hpc
  | slotLoop =>
    obtain rfl : _ = t := by simpa [State.mainStep, hpc] using h
    exact .stays (.stepSlotLoop hpc e.now)
  | slotCall =>
    obtain rfl : _ = t := by simpa [State.mainStep, hpc] using h
    obtain ⟨hc, hserve⟩ := enterInteractiveBatch_control { s with currentTime := e.now } .slot
    exact .stays (.of_serving hc hserve (fun h => by cases h) (by simp [State.Watching, hpc]))
  | slotWait =>
    obtain rfl : _ = t := by simpa [State.mainStep, hpc] using h
    exact .stays (.stepSlotWait hpc e.now)
  | noSchedule =>
    obtain rfl : _ = t := by simpa [State.mainStep, hpc] using h
    simp only [State.stepNoSchedule]
    split
    · refine .stays (.of_pc rfl (by simp) (fun _ => .inl (by rw [hpc]; rfl)) fun _ hw => ?_)
      simp [State.Watching, hpc] at hw
    · exact .rollover hpc
  | noScheduleCall =>
    obtain rfl : _ = t := by simpa [State.mainStep, hpc] using h
    obtain ⟨hc, hserve⟩ := enterInteractiveBatch_control s .noSchedule
    exact .stays (.of_serving hc hserve (fun _ => by rw [hpc]; rfl)
      (by simp [State.Watching, hpc]))
  | noScheduleWait =>
    obtain rfl : _ = t := by simpa [State.mainStep, hpc] using h
    refine .stays (.of_pc rfl (by simp) (fun _ => .inl (by rw [hpc]; rfl)) fun _ hw => ?_)
    simp [State.Watching, hpc] at hw
  | handOver site l =>
    have hnot : ¬ s.Watching := by simp [State.Watching, hpc]
    have hout : site = .noSchedule → s.pc.outsideSlots = true := by
      rintro rfl
      rw [hpc]
      rfl
    cases l with
    | nil =>
      obtain rfl : _ = t := by simpa [State.mainStep, hpc] using h
      exact .stays (.of_serving rfl .afterHandOver hout hnot)
    | cons p ps =>
      rw [State.mainStep, hpc, Option.some.injEq] at h
      subst h
      exact .stays (.of_serving (handOverOne_control s p) (.handOver ps) hout hnot)
  | afterHandOver site =>
    obtain rfl : _ = t := by simpa [State.mainStep, hpc] using h
    obtain ⟨hc, hserve⟩ := leaveInteractiveBatch_control s site e
    refine .stays (.of_serving hc hserve ?_ (by simp [State.Watching, hpc]))
    rintro rfl
    rw [hpc]
    rfl
  | startTask p =>
    obtain rfl : _ = t := by simpa [State.mainStep, hpc] using h
    refine .stays (.of_pc rfl (by simp) (by simp [Pc.outsideSlots]) fun _ hw => ?_)
    simp [State.Watching, hpc] at hw
  | ret next =>
    obtain rfl : _ = t := by simpa [State.mainStep, hpc] using h
    exact .stays (.stepRet hpc)
  | running | stopped | outOfRange | deadlock => simp [State.mainStep, hpc] at h

end Loop

section Clock

/-- The index has not run ahead of the clock. -/
structure Timed (s : State) : Prop where
  normal : ContiguousFrom 0 s.rtScheduleNormal
  greedy : ContiguousFrom 0 s.rtScheduleGreedy
  current : ContiguousFrom 0 s.currentSchedule
  reached : s.currentSchedule ≠ [] →
    entryTime 0 s.currentSchedule s.idxRealTimeTask ≤ s.clock - s.cycleStartTime
  spin : ∀ ceTime, s.pc = .rtSpin ceTime → ∃ slot, s.slotNow = some slot ∧ slot.eTime = ceTime
  outside : s.pc.outsideSlots = true → ¬ s.HasSlot

variable {s t : State} {e : Env}

theorem Timed.tick (h : Timed s) {now : Int} (hle : s.clock ≤ now) :
    Timed { s with clock := now } where
  normal := h.normal
  greedy := h.greedy
  current := h.current
  reached hne := by
    have := h.reached hne
    simp only
    omega
  spin := h.spin
  outside := h.outside

theorem Timed.of_stays (h : Timed s) (hs : Stays s t) : Timed t := by
  have hloop := hs.control
  simp only [State.control, State.loop, Prod.mk.injEq] at hloop
  obtain ⟨⟨hsch, hidx, -, hcs⟩, hclk, hn, hg, -, -⟩ := hloop
  refine ⟨hn ▸ h.normal, hg ▸ h.greedy, hsch ▸ h.current, fun hne => ?_, fun ceTime hpc => ?_,
    fun hpc => ?_⟩
  · rw [hsch] at hne ⊢
    rw [hidx, hclk, hcs]
    exact h.reached hne
  · rw [State.slotNow, hsch, hidx]
    rcases hs.spin ceTime hpc with hpc | hslot
    · exact h.spin ceTime hpc
    · exact hslot
  · rw [hasSlot_congr (loop_of_control hs.control)]
    exact (hs.outside hpc).elim h.outside id

theorem nextSchedule_contiguous (h : Timed s) (coin : Bool) :
    ContiguousFrom 0 (s.nextSchedule coin) := by
  simp only [State.nextSchedule]
  split_ifs
  · exact h.greedy
  · exact h.normal
  · exact h.normal
  · exact h.greedy

/-- Moving the index to the next slot once the clock has left the current one. -/
theorem Timed.advance (h : Timed s) {slot : RealTimeSchedule} (hslot : s.slotNow = some slot)
    (hend : slot.eTime ≤ s.clock - s.cycleStartTime) (pc : Pc)
    (hspin : ∀ ceTime, pc ≠ .rtSpin ceTime) (hout : pc.outsideSlots = false) :
    Timed { s with idxRealTimeTask := s.idxRealTimeTask + 1, pc := pc } where
  normal := h.normal
  greedy := h.greedy
  current := h.current
  reached _ := by
    rw [entryTime_succ hslot]
    exact hend
  spin ceTime hpc := absurd hpc (hspin ceTime)
  outside hpc := by simp [hout] at hpc

theorem Timed.loopStep (h : Timed s) (hclk : s.clock = e.now) (hl : LoopStep s e t) :
    Timed t := by
  cases hl with
  | stays hs => exact h.of_stays hs
  | endSlot hpc hend =>
    obtain ⟨slot, hslot, rfl⟩ := h.spin _ hpc
    exact h.advance hslot (by omega) .slot (by simp) rfl
  | @skip slot hpc hslot hout =>
    -- the clock has reached the slot, so a reading outside of it comes after its end
    have hne : s.currentSchedule ≠ [] := by
      intro hnil
      simp [State.slotNow, hnil] at hslot
    have hreach := h.reached hne
    rw [h.current.entryTime_eq hslot] at hreach
    have hend : slot.eTime ≤ s.clock - s.cycleStartTime := by
      simp only [State.inSlot, Bool.and_eq_false_iff, decide_eq_false_iff_not] at hout
      omega
    obtain ⟨h₁, h₂, h₃, h₄, h₅, h₆⟩ := h.advance hslot hend .top (by simp) rfl
    exact ⟨h₁, h₂, h₃, h₄, h₅, h₆⟩
  | dispatch hpc hslot hfind =>
    exact ⟨h.normal, h.greedy, h.current, h.reached, by simp, by simp [Pc.outsideSlots]⟩
  | noTask hpc hslot hfind =>
    exact ⟨h.normal, h.greedy, h.current, h.reached, by simp, by simp [Pc.outsideSlots]⟩
  | rollover hpc =>
    refine ⟨h.normal, h.greedy, nextSchedule_contiguous h e.coin, fun _ => ?_, by simp,
      by simp [Pc.outsideSlots]⟩
    simp only [entryTime_zero]
    omega

/-- Only contiguous schedules are set. -/
def Label.Contiguous : Label → Prop
  | .setSchedule normal greedy => ContiguousFrom 0 normal ∧ ContiguousFrom 0 greedy
  | _ => True

theorem Timed.of_outside {l : Label} (h : Timed s) (ho : Outside s l t) (hl : l.Contiguous) :
    Timed t := by
  have hloop := ho.loop
  simp only [State.loop, Prod.mk.injEq] at hloop
  obtain ⟨hsch, hidx, -, hcs⟩ := hloop
  have hplan : ContiguousFrom 0 t.rtScheduleNormal ∧ ContiguousFrom 0 t.rtScheduleGreedy := by
    rcases ho.plan with ⟨hn, hg⟩ | rfl
    · exact ⟨hn ▸ h.normal, hg ▸ h.greedy⟩
    · exact hl
  refine ⟨hplan.1, hplan.2, hsch ▸ h.current, fun hne => ?_, fun ceTime hpc => ?_,
    fun hpc => ?_⟩
  · rw [hsch] at hne ⊢
    rw [hidx, ho.clock, hcs]
    exact h.reached hne
  · rw [State.slotNow, hsch, hidx]
    rcases ho.pc with hpc' | ⟨-, hpc'⟩
    · exact h.spin ceTime (hpc' ▸ hpc)
    · simp [hpc'] at hpc
  · rw [hasSlot_congr ho.loop]
    rcases ho.pc with hpc' | ⟨-, hpc'⟩
    · exact h.outside (hpc' ▸ hpc)
    · simp [hpc', Pc.outsideSlots] at hpc

/-- A step of the machine is a step of the main thread at a later clock, or outside of it. -/
theorem step_cases {l : Label} (hs : step s l = some t) :
    (∃ e, l = .main e ∧ s.clock ≤ e.now ∧ LoopStep { s with clock := e.now } e t) ∨
      Outside s l t := by
  cases l with
  | main e =>
    simp only [step, Option.ite_none_right_eq_some] at hs
    exact .inl ⟨e, rfl, hs.1, mainStep_loop hs.2⟩
  | _ => exact .inr (step_outside (by simp) hs)

theorem Timed.step {l : Label} (h : Timed s) (hl : l.Contiguous) (hs : step s l = some t) :
    Timed t := by
  rcases step_cases hs with ⟨e, rfl, hle, hloop⟩ | ho
  · exact (h.tick hle).loopStep rfl hloop
  · exact h.of_outside ho hl

theorem timed_initial (thiefSizes : List Nat) (start : Int) :
    Timed (initial thiefSizes start) := by
  constructor <;> simp [initial, ContiguousFrom, Pc.outsideSlots]

end Clock

end JamSched.Rib
