import JamSched.Time.Slots

/-!
# What an update collects

`timeouts_update` empties, in the order of the wheels and of the slots, all slots of some set. The
slots of that set are told by one word for each wheel, and whatever is due is in one of them.
-/
namespace JamSched.Timeouts

open Bits Ticks

variable {T : Timeouts} {p : Ptr} {i : Fin 4} {j : Fin 64}

section Clear

/-- The bits of a wheel tell which of its slots are in use. -/
def InUse (T : Timeouts) (i : Fin 4) : Prop :=
  ∀ j : Fin 64, (T.pending i)[(j : Nat)] = true ↔ T.list (.wheel i j) ≠ []

/-- Without the timeouts in the slots of a set. -/
def clear (T : Timeouts) (marks : Fin 4 → WheelT) : Timeouts :=
  { T with
    list := fun
      | .wheel i j => if (marks i)[(j : Nat)] then [] else T.list (.wheel i j)
      | .expired => T.list .expired
    pending := fun i => T.pending i &&& ~~~ marks i }

/-- What expires by a time can only be in slots of a set. -/
def Covers (T : Timeouts) (curtime : TimeoutT) (marks : Fin 4 → WheelT) : Prop :=
  ∀ (i : Fin 4) (j : Fin 64) expires, Fits T.curtime.toNat expires i j →
    tick 64 i expires ≤ tick 64 i curtime.toNat → (marks i)[(j : Nat)] = true

/-- The timeouts in the slots of a wheel that are in a set. -/
def inMarked (T : Timeouts) (marks : Fin 4 → WheelT) (i : Fin 4) : List Ptr :=
  (ones (marks i)).flatMap fun j => T.list (.wheel i j)

variable {marks : Fin 4 → WheelT}

@[simp] theorem curtime_clear : (T.clear marks).curtime = T.curtime := rfl

@[simp] theorem timeout_clear : (T.clear marks).timeout = T.timeout := rfl

@[simp] theorem list_clear_wheel : (T.clear marks).list (.wheel i j) =
    if (marks i)[(j : Nat)] then [] else T.list (.wheel i j) := rfl

@[simp] theorem list_clear_expired : (T.clear marks).list .expired = T.list .expired := rfl

@[simp] theorem getElem_pending_clear :
    ((T.clear marks).pending i)[(j : Nat)] =
      ((T.pending i)[(j : Nat)] && !(marks i)[(j : Nat)]) := by
  simp [clear]

theorem InUse.clear (h : InUse T i) : InUse (T.clear marks) i := by
  intro j
  rw [getElem_pending_clear, list_clear_wheel]
  have hj := h j
  grind

theorem mem_inMarked :
    p ∈ T.inMarked marks i ↔
      ∃ j : Fin 64, (marks i)[(j : Nat)] = true ∧ p ∈ T.list (.wheel i j) := by
  simp [inMarked]

theorem flatMap_filter_of_eq_nil {α β : Type} {f : α → List β} {q : α → Bool} {l : List α}
    (h : ∀ a, q a = false → f a = []) : (l.filter q).flatMap f = l.flatMap f := by
  induction l with
  | nil => rfl
  | cons a l ih =>
    have ha := h a
    grind

/-- Slots that are not in use make no difference. -/
theorem inMarked_eq (h : InUse T i) : T.inMarked marks i =
    (ones (marks i &&& T.pending i)).flatMap fun j => T.list (.wheel i j) := by
  have hones : ones (marks i &&& T.pending i) =
      (ones (marks i)).filter fun j : Fin 64 => (T.pending i)[(j : Nat)] := by
    simp only [ones, List.filter_filter, BitVec.getElem_and, Bool.and_comm]
  rw [hones, flatMap_filter_of_eq_nil fun j hj => ?_, inMarked]
  have hiff := h j
  grind

end Clear

section Drain

theorem ext' {S T : Timeouts} (hlist : ∀ l, S.list l = T.list l)
    (hpending : ∀ (i : Fin 4) (j : Fin 64), (S.pending i)[(j : Nat)] = (T.pending i)[(j : Nat)])
    (hcurtime : S.curtime = T.curtime) (htimeout : S.timeout = T.timeout) : S = T := by
  cases S
  cases T
  congr
  · funext l
    exact hlist l
  · funext i
    ext j hj
    exact hpending i ⟨j, hj⟩

/-- The marks of a single wheel. -/
def mark (i : Fin 4) (v : WheelT) : Fin 4 → WheelT := Function.update (fun _ => 0#64) i v

@[simp] theorem mark_self (i : Fin 4) (v : WheelT) : mark i v i = v := by simp [mark]

@[simp] theorem mark_of_ne {i k : Fin 4} (h : k ≠ i) (v : WheelT) : mark i v k = 0#64 := by
  simp [mark, h]

theorem getElem_mark (i k : Fin 4) (v : WheelT) (j : Fin 64) :
    (mark i v k)[(j : Nat)] = (decide (k = i) && v[(j : Nat)]) := by
  by_cases h : k = i
  · subst h
    simp
  · simp [h]

/-- Nothing to do where no slot of the set is in use. -/
theorem clear_mark_eq_self {v : WheelT} (h : InUse T i) (hv : v &&& T.pending i = 0#64) :
    T.clear (mark i v) = T := by
  have hbit (j : Fin 64) : (v[(j : Nat)] && (T.pending i)[(j : Nat)]) = false := by
    have hj := eq_zero_iff.mp hv j
    simpa using hj
  refine ext' (fun l => ?_) (fun k j => ?_) rfl rfl
  · cases l with
    | expired => rfl
    | wheel k j =>
      rw [list_clear_wheel, getElem_mark]
      have hj := h j
      have hb := hbit j
      grind
  · rw [getElem_pending_clear, getElem_mark]
    have hb := hbit j
    grind

/-- One round of the loop over the slots, and the slots that are left. -/
theorem clear_mark_step {v : WheelT} (hv : v[(j : Nat)] = true) :
    ((T.setList (.wheel i j) []).clearBit i j).clear (mark i v) = T.clear (mark i v) := by
  refine ext' (fun l => ?_) (fun k m => ?_) rfl rfl
  · cases l with
    | expired => rfl
    | wheel k m =>
      rw [list_clear_wheel, list_clear_wheel, getElem_mark]
      by_cases hkm : k = i ∧ m = j
      · simp [hkm, hv]
      · simp [hkm]
  · rw [getElem_pending_clear, getElem_pending_clear, getElem_mark]
    by_cases hk : k = i
    · subst hk
      simp only [pending_clearBit, pending_setList, ↓reduceIte, getElem_clear]
      grind
    · simp [hk]

theorem InUse.clear_slot (h : InUse T i) :
    InUse ((T.setList (.wheel i j) []).clearBit i j) i := by
  intro m
  have hm := h m
  by_cases hmj : m = j
  · subst hmj
    simp
  · simpa [hmj] using hm

theorem drain_spec {v : WheelT} {fuel : Nat} {todo : List Ptr} (h : InUse T i)
    (hfuel : (ones (v &&& T.pending i)).length ≤ fuel) :
    drain i v fuel todo T = (todo ++ T.inMarked (mark i v) i, T.clear (mark i v)) := by
  rw [inMarked_eq h, mark_self]
  induction fuel generalizing todo T with
  | zero =>
    have hnil := List.eq_nil_of_length_eq_zero (Nat.le_zero.mp hfuel)
    rw [drain, hnil, clear_mark_eq_self h (ones_eq_nil_iff.mp hnil)]
    simp
  | succ fuel ih =>
    rw [drain]
    split
    · next hzero =>
      rw [clear_mark_eq_self h hzero, ones_eq_nil_iff.mpr hzero]
      simp
    · next hne =>
      have hslot := getElem_lowest hne
      have hcons := ones_eq_cons hne
      obtain ⟨slot, heq⟩ : ∃ slot, lowest (v &&& T.pending i) hne = slot := ⟨_, rfl⟩
      simp only [heq] at hslot hcons ⊢
      have hrest : v &&& ((T.setList (.wheel i slot) []).clearBit i slot).pending i =
          v &&& T.pending i &&& ~~~ bit slot := by
        simp [BitVec.and_assoc]
      have hv : v[(slot : Nat)] = true := by
        simp only [BitVec.getElem_and, Bool.and_eq_true] at hslot
        exact hslot.1
      have hlength :
          (ones (v &&& ((T.setList (.wheel i slot) []).clearBit i slot).pending i)).length ≤
            fuel := by
        rw [hcons, List.length_cons] at hfuel
        rw [hrest]
        omega
      have hlists : ((ones (v &&& T.pending i &&& ~~~ bit slot)).flatMap fun m =>
            ((T.setList (.wheel i slot) []).clearBit i slot).list (.wheel i m)) =
          (ones (v &&& T.pending i &&& ~~~ bit slot)).flatMap fun m => T.list (.wheel i m) := by
        refine List.flatMap_congr fun m hm => ?_
        rw [mem_ones, getElem_clear, Bool.and_eq_true, Bool.not_eq_true', decide_eq_false_iff_not]
          at hm
        simp [hm.2]
      simp only [ih h.clear_slot hlength, hrest, hlists, clear_mark_step hv, hcons,
        List.flatMap_cons, List.append_assoc]

end Drain

section Wheels

variable {marks : Fin 4 → WheelT} {v : WheelT} {wheels : List (Fin 4)}

theorem inMarked_of_eq_zero (h : marks i = 0#64) : T.inMarked marks i = [] := by
  rw [inMarked, ones_eq_nil_iff.mpr h, List.flatMap_nil]

theorem inMarked_congr {marks' : Fin 4 → WheelT} (h : marks i = marks' i) :
    T.inMarked marks i = T.inMarked marks' i := by rw [inMarked, inMarked, h]

/-- What is left in another wheel is what was in it. -/
theorem inMarked_clear_mark {k : Fin 4} (h : k ≠ i) :
    (T.clear (mark i v)).inMarked marks k = T.inMarked marks k := by
  simp [inMarked, h]

theorem clear_mark_clear (h : marks i = 0#64) :
    (T.clear (mark i v)).clear marks = T.clear (Function.update marks i v) := by
  refine ext' (fun l => ?_) (fun k j => ?_) rfl rfl
  · cases l with
    | expired => rfl
    | wheel k j =>
      by_cases hk : k = i
      · subst hk
        simp [h]
      · simp [hk]
  · by_cases hk : k = i
    · subst hk
      simp [h]
    · simp [hk]

theorem clear_zero : T.clear (fun _ => 0#64) = T :=
  ext' (fun l => by cases l <;> simp) (by simp) rfl rfl

/-- What is taken from one wheel first and then from the others. -/
theorem flatMap_inMarked_update (hi : i ∉ wheels) :
    (i :: wheels).flatMap (T.inMarked (Function.update marks i v)) =
      T.inMarked (mark i v) i ++ wheels.flatMap ((T.clear (mark i v)).inMarked marks) := by
  have hfirst : T.inMarked (Function.update marks i v) i = T.inMarked (mark i v) i :=
    inMarked_congr (by simp)
  have hrest : wheels.flatMap (T.inMarked (Function.update marks i v)) =
      wheels.flatMap ((T.clear (mark i v)).inMarked marks) := by
    refine List.flatMap_congr fun k hk => ?_
    have hne : k ≠ i := fun heq => hi (heq ▸ hk)
    rw [inMarked_clear_mark hne]
    exact inMarked_congr (Function.update_of_ne hne _ _)
  rw [List.flatMap_cons, hfirst, hrest]

/-- Every wheel is the one above the wheel before it. -/
def Ascending (wheels : List (Fin 4)) : Prop := wheels.IsChain fun i k => k.val = i.val + 1

theorem Ascending.lt (h : Ascending (i :: wheels)) : ∀ k ∈ wheels, i < k := by
  induction wheels generalizing i with
  | nil => simp
  | cons m wheels ih =>
    rw [Ascending, List.isChain_cons_cons] at h
    intro k hk
    have him : i < m := Fin.lt_def.mpr (by omega)
    rcases List.mem_cons.mp hk with rfl | hk
    · exact him
    · exact him.trans (ih h.2 k hk)

theorem Ascending.tail (h : Ascending (i :: wheels)) : Ascending wheels := by
  cases wheels with
  | nil => exact .nil
  | cons m wheels =>
    rw [Ascending, List.isChain_cons_cons] at h
    exact h.2

theorem Ascending.head (h : Ascending (i :: wheels)) : ∀ k ∈ wheels.head?, k.val = i.val + 1 := by
  cases wheels with
  | nil => simp
  | cons m wheels =>
    rw [Ascending, List.isChain_cons_cons] at h
    simpa using h.1

/-- The time is rounded up to one place of the next wheel. -/
theorem le_round (elapsed : TimeoutT) (i : Fin 4) :
    elapsed.toNat ≤ (if 64#64 <<< (i.val * 6) < elapsed then elapsed
      else 64#64 <<< (i.val * 6)).toNat ∧
    64 ^ (i.val + 1) ≤ (if 64#64 <<< (i.val * 6) < elapsed then elapsed
      else 64#64 <<< (i.val * 6)).toNat := by
  have hturn : (64#64 <<< (i.val * 6)).toNat = 64 ^ (i.val + 1) := by
    match i with
    | 0 | 1 | 2 | 3 => rfl
  split
  · next h =>
    rw [BitVec.lt_def, hturn] at h
    exact ⟨Nat.le_refl _, h.le⟩
  · next h =>
    rw [BitVec.lt_def, hturn] at h
    rw [hturn]
    exact ⟨Nat.le_of_not_lt h, Nat.le_refl _⟩

/-- The loop over the wheels empties a set of slots, among them each whose timeouts are due. -/
theorem collect_spec {curtime elapsed : TimeoutT} (todo : List Ptr) (h : ∀ i, InUse T i)
    (hle : T.curtime ≤ curtime) (helapsed : curtime.toNat - T.curtime.toNat ≤ elapsed.toNat)
    (hwheels : Ascending wheels) (hround : ∀ i ∈ wheels.head?, i = 0 ∨ 64 ^ i.val ≤ elapsed.toNat) :
    ∃ marks, collect curtime wheels elapsed todo T =
        (todo ++ wheels.flatMap (T.inMarked marks), T.clear marks) ∧
      (∀ i ∉ wheels, marks i = 0#64) ∧
      ∀ i ∈ wheels, ∀ (j : Fin 64) expires, Fits T.curtime.toNat expires i j →
        tick 64 i expires ≤ tick 64 i curtime.toNat → (marks i)[(j : Nat)] = true := by
  induction wheels generalizing elapsed todo T with
  | nil => exact ⟨fun _ => 0#64, by simp [collect, clear_zero], by simp, by simp⟩
  | cons i wheels ih =>
    have hnotMem : i ∉ wheels := fun hi => (hwheels.lt i hi).false
    have hcover := turns_le (BitVec.le_def.mp hle) helapsed
      ((hround i rfl).imp (congrArg Fin.val) id)
    have hdrain : drain i (T.passed curtime elapsed i) 64 todo T =
        (todo ++ T.inMarked (mark i (T.passed curtime elapsed i)) i,
          T.clear (mark i (T.passed curtime elapsed i))) := drain_spec (h i) (length_ones_le _)
    rw [collect, hdrain]
    dsimp only
    split
    · next hzero =>
      -- the wheels above have not turned, so nothing in them is due
      refine ⟨mark i (T.passed curtime elapsed i), ?_, fun k hk => ?_,
        fun k hk j expires hfits hdue => ?_⟩
      · have hrest : wheels.flatMap (T.inMarked (mark i (T.passed curtime elapsed i))) = [] := by
          refine List.flatMap_eq_nil_iff.mpr fun k hk => inMarked_of_eq_zero (mark_of_ne ?_ _)
          rintro rfl
          exact hnotMem hk
        rw [List.flatMap_cons, hrest, List.append_nil]
      · exact mark_of_ne (List.ne_of_not_mem_cons hk) _
      · rcases List.mem_cons.mp hk with rfl | hk
        · rw [mark_self]
          exact passed_of_due hcover hfits hdue
        · have hturn := tick_succ_eq_of_passed hle hcover hzero
          have hsame := tick_eq_of_le hturn (Nat.succ_le_of_lt (Fin.lt_def.mp (hwheels.lt k hk)))
          have hlt := hfits.tick_lt
          omega
    · next hone =>
      have hturn := le_round elapsed i
      obtain ⟨marks, hcollect, hzero, hdue⟩ := ih
        (todo ++ T.inMarked (mark i (T.passed curtime elapsed i)) i)
        (fun k => (h k).clear) hle (helapsed.trans hturn.1) hwheels.tail
        fun k hk => .inr (hwheels.head k hk ▸ hturn.2)
      have hi := hzero i hnotMem
      refine ⟨Function.update marks i (T.passed curtime elapsed i), ?_, fun k hk => ?_,
        fun k hk j expires hfits hdue' => ?_⟩
      · rw [hcollect, clear_mark_clear hi, flatMap_inMarked_update hnotMem, List.append_assoc]
      · rw [Function.update_of_ne (List.ne_of_not_mem_cons hk)]
        exact hzero k (List.not_mem_of_not_mem_cons hk)
      · rcases List.mem_cons.mp hk with rfl | hk
        · rw [Function.update_self]
          exact passed_of_due hcover hfits hdue'
        · have hne : k ≠ i := fun heq => hnotMem (heq ▸ hk)
          rw [Function.update_of_ne hne]
          exact hdue k hk j expires hfits hdue'

end Wheels

end JamSched.Timeouts
