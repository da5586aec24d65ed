import JamSched.Core.Cbor
import JamSched.Machine.Run
import Mathlib.Logic.Function.Basic
import Mathlib.Data.List.Nodup

/-!
# Broadcast variables

`BroadcastVariable`: the redis thread appends the values it receives and any number of tasks wait
in `Get` for the next one. A value travels as a CBOR text string, which is binary, in a `char *`,
of which `Append` takes `strlen` bytes: a zero byte in the length header ends the entry there.

Every critical section under `mVarStream` is one step. `dump`, `parse` and `from_cbor` are those of
the JSON library; a call that throws is `none`.
-/
namespace JamSched.Data

open Machine

/-- The functions of the JSON library that a value passes through. -/
structure JsonLibrary (J : Type) where
  dump : J → Bytes
  parse : Bytes → Option J
  /-- `from_cbor`, then `get<std::string>`. -/
  fromCbor : Bytes → Option Bytes

/-- What the code relies on: a dump parses to its value and has no NUL, since control characters
are escaped; text strings are read back from CBOR, and an input that ends inside of their header
is an error. -/
structure JsonLibrary.Lawful {J : Type} (lib : JsonLibrary J) : Prop where
  parse_dump : ∀ v, lib.parse (lib.dump v) = some v
  zero_notMem_dump : ∀ v, 0 ∉ lib.dump v
  fromCbor_dump : ∀ v, lib.fromCbor (Cbor.toCbor (lib.dump v)) = some (lib.dump v)
  fromCbor_take : ∀ n k, k < (Cbor.textHeader n).length →
    lib.fromCbor ((Cbor.textHeader n).take k) = none

structure BroadcastVariable where
  bCastKey : Bytes
  isCancelled : Bool := false
  varStream : List Bytes := []
  deriving DecidableEq, Repr

/-- `Append`: `data` points to the bytes and to a NUL behind them. -/
def BroadcastVariable.append (var : BroadcastVariable) (data : Bytes) : BroadcastVariable :=
  { var with varStream := var.varStream ++ [cStr data] }

/-- Where a task stands in `Get`. -/
inductive GetPc where
  | idle
  | waiting
  /-- Notified, about to take the lock again. -/
  | woken
  /-- It has taken the entry of that number. -/
  | parsing (n : Nat) (streamObjectRaw : Bytes)
  deriving DecidableEq, Repr

structure State (J : Type) where
  var : BroadcastVariable
  /-- The tasks that wait on `cvVarStream`. -/
  waitList : List Nat := []
  pc : Nat → GetPc := fun _ => .idle
  /-- The values received, in their order. -/
  received : List J := []
  /-- How many entries were taken. -/
  takes : Nat := 0
  /-- What a `Get` has returned that took the entry of that number, or `none` if it threw. -/
  returned : List (Nat × Option J) := []

inductive Label (J : Type) where
  /-- `Append` of `to_cbor(v.dump())`. -/
  | append (v : J)
  | get (t : Nat)
  | resume (t : Nat)
  /-- The end of `Get`, behind the lock. -/
  | returns (t : Nat)
  /-- The destructor. -/
  | cancel

section Machine

variable {J : Type} (lib : JsonLibrary J)

namespace State

variable (s : State J)

def setPc (t : Nat) (pc : GetPc) : State J := { s with pc := Function.update s.pc t pc }

/-- `notify_one`. -/
def notifyOne : State J :=
  match s.waitList with
  | [] => s
  | t :: l => { s with waitList := l }.setPc t .woken

/-- `Get` with the lock held. -/
def tryTake (t : Nat) : State J :=
  match s.var.varStream with
  | [] =>
    -- returns `{"Exception": "Get Value after Scheduler Shutdown"}`
    if s.var.isCancelled then s.setPc t .idle
    else { s with waitList := s.waitList ++ [t] }.setPc t .waiting
  | raw :: varStream =>
    if s.var.isCancelled then s.setPc t .idle
    else { s with
      var := { s.var with varStream }
      takes := s.takes + 1 }.setPc t (.parsing s.takes raw)

end State

/-- `parse(from_cbor(streamObjectRaw).get<std::string>())`. -/
def JsonLibrary.decode (raw : Bytes) : Option J := lib.fromCbor raw >>= lib.parse

def step (s : State J) : Label J → Option (State J)
  | .append v =>
    some { s with
      var := s.var.append (Cbor.toCbor (lib.dump v)), received := s.received ++ [v] }.notifyOne
  | .get t => if s.pc t = .idle then some (s.tryTake t) else none
  | .resume t => if s.pc t = .woken then some (s.tryTake t) else none
  | .returns t => match s.pc t with
    | .parsing n raw =>
      some ({ s with returned := (n, lib.decode raw) :: s.returned }.setPc t .idle)
    | _ => none
  | .cancel =>
    some { s with
      var := { s.var with isCancelled := true }
      waitList := []
      pc := fun t => if t ∈ s.waitList then .woken else s.pc t }

/-- A variable that has received nothing. -/
def initial (bCastKey : Bytes) : State J := { var := { bCastKey } }

/-! ## Values come back in their order -/

/-- Every `Get` that has returned the value of an entry has returned the value that was received
with this entry, and no two have returned the same entry. -/
def Faithful (s : State J) : Prop :=
  (∀ x ∈ s.returned, ∃ v, s.received[x.1]? = some v ∧ x.2 = some v) ∧
    (s.returned.map (·.1)).Nodup

/-- The value whose entry the step decodes. -/
def State.reading (s : State J) : Label J → Option J
  | .returns t => match s.pc t with
    | .parsing n _ => s.received[n]?
    | _ => none
  | _ => none

/-- The length header of the entry that the step decodes has no zero byte. -/
def ReadsWhole (s : State J) (l : Label J) : Prop :=
  ∀ v ∈ s.reading l, 0 ∉ Cbor.textHeader (lib.dump v).length

instance (s : State J) (l : Label J) : Decidable (ReadsWhole lib s l) :=
  inferInstanceAs (Decidable (∀ v ∈ s.reading l, 0 ∉ Cbor.textHeader (lib.dump v).length))

variable {lib} {s u : State J} {l : Label J}

/-- The entry of a value decodes to the value exactly when no zero byte is in its header. -/
theorem decode_entry_iff (hlib : lib.Lawful) (v : J) :
    lib.decode (cStr (Cbor.toCbor (lib.dump v))) = some v ↔
      0 ∉ Cbor.textHeader (lib.dump v).length := by
  constructor
  · intro h hzero
    obtain ⟨k, hk, hcut⟩ := cStr_cut hzero (lib.dump v)
    rw [Cbor.toCbor, hcut, JsonLibrary.decode, hlib.fromCbor_take _ k hk] at h
    cases h
  · intro hzero
    have hwhole : cStr (Cbor.toCbor (lib.dump v)) = Cbor.toCbor (lib.dump v) := by
      rw [Cbor.toCbor, cStr_append hzero, cStr_eq_self (hlib.zero_notMem_dump v)]
    rw [hwhole, JsonLibrary.decode, hlib.fromCbor_dump]
    exact hlib.parse_dump v

/-- The queue holds the entries that were received and not taken, and every number below `takes`
belongs to at most one `Get`. -/
structure Inv (lib : JsonLibrary J) (s : State J) : Prop where
  takes_le : s.takes ≤ s.received.length
  varStream : s.var.varStream =
    (s.received.drop s.takes).map fun v => cStr (Cbor.toCbor (lib.dump v))
  parsing : ∀ t n raw, s.pc t = .parsing n raw →
    n < s.takes ∧ n ∉ s.returned.map (·.1) ∧
      ∃ v, s.received[n]? = some v ∧ raw = cStr (Cbor.toCbor (lib.dump v))
  distinct : ∀ t t' n raw raw', s.pc t = .parsing n raw → s.pc t' = .parsing n raw' → t = t'
  returned_lt : ∀ x ∈ s.returned, x.1 < s.takes
  nodup : (s.returned.map (·.1)).Nodup

theorem Inv.initial (bCastKey : Bytes) : Inv lib (initial bCastKey) := by
  constructor <;> simp [Data.initial]

/-- A change of a task's place that is no entry in `parsing`. -/
theorem Inv.setPc (h : Inv lib s) (t : Nat) (pc : GetPc) (hpc : ∀ n raw, pc ≠ .parsing n raw) :
    Inv lib (s.setPc t pc) where
  takes_le := h.takes_le
  varStream := h.varStream
  parsing := by
    intro t' n raw ht'
    by_cases htt : t' = t
    · simp [State.setPc, htt, hpc] at ht'
    · exact h.parsing t' n raw (by simpa [State.setPc, htt] using ht')
  distinct := by
    intro t₁ t₂ n raw raw' h₁ h₂
    by_cases ht₁ : t₁ = t
    · simp [State.setPc, ht₁, hpc] at h₁
    · by_cases ht₂ : t₂ = t
      · simp [State.setPc, ht₂, hpc] at h₂
      · exact h.distinct t₁ t₂ n raw raw' (by simpa [State.setPc, ht₁] using h₁)
          (by simpa [State.setPc, ht₂] using h₂)
  returned_lt := h.returned_lt
  nodup := h.nodup

theorem Inv.setWaitList (h : Inv lib s) (waitList : List Nat) : Inv lib { s with waitList } :=
  ⟨h.takes_le, h.varStream, h.parsing, h.distinct, h.returned_lt, h.nodup⟩

theorem Inv.append (h : Inv lib s) (v : J) :
    Inv lib { s with
      var := s.var.append (Cbor.toCbor (lib.dump v)), received := s.received ++ [v] } where
  takes_le := by
    have := h.takes_le
    simp only [List.length_append]
    omega
  varStream := by
    simp [BroadcastVariable.append, h.varStream, List.drop_append_of_le_length h.takes_le]
  parsing := by
    intro t n raw ht
    obtain ⟨hn, hfresh, w, hw, hraw⟩ := h.parsing t n raw ht
    obtain ⟨hlt, -⟩ := List.getElem?_eq_some_iff.mp hw
    exact ⟨hn, hfresh, w, by rw [List.getElem?_append_left hlt, hw], hraw⟩
  distinct := h.distinct
  returned_lt := h.returned_lt
  nodup := h.nodup

theorem Inv.notifyOne (h : Inv lib s) : Inv lib s.notifyOne := by
  unfold State.notifyOne
  split
  · exact h
  · exact (h.setWaitList _).setPc _ .woken (by simp)

theorem Inv.tryTake (h : Inv lib s) (t : Nat) : Inv lib (s.tryTake t) := by
  unfold State.tryTake
  split
  · split
    · exact h.setPc t .idle (by simp)
    · exact (h.setWaitList _).setPc _ .waiting (by simp)
  · next raw varStream hstream =>
    split
    · exact h.setPc t .idle (by simp)
    · have hdrop := h.varStream
      rw [hstream] at hdrop
      have hlt : s.takes < s.received.length := by
        by_contra hge
        rw [List.drop_eq_nil_of_le (by omega)] at hdrop
        cases hdrop
      rw [List.drop_eq_getElem_cons hlt, List.map_cons, List.cons.injEq] at hdrop
      obtain ⟨hraw, hrest⟩ := hdrop
      refine ⟨hlt, hrest, fun t' n raw' ht' => ?_, fun t₁ t₂ n raw₁ raw₂ h₁ h₂ => ?_,
        fun x hx => Nat.lt_succ_of_lt (h.returned_lt x hx), h.nodup⟩
      · by_cases htt : t' = t
        · simp only [State.setPc, htt, Function.update_self, GetPc.parsing.injEq] at ht'
          obtain ⟨rfl, rfl⟩ := ht'
          refine ⟨Nat.lt_succ_self _, fun hmem => ?_, _, List.getElem?_eq_getElem hlt, hraw⟩
          obtain ⟨x, hx, hxt⟩ := List.mem_map.mp hmem
          have := h.returned_lt x hx
          omega
        · have hold := h.parsing t' n raw' (by simpa [State.setPc, htt] using ht')
          exact ⟨Nat.lt_succ_of_lt hold.1, hold.2⟩
      · by_cases ht₁ : t₁ = t <;> by_cases ht₂ : t₂ = t
        · rw [ht₁, ht₂]
        · simp only [State.setPc, ht₁, Function.update_self, GetPc.parsing.injEq] at h₁
          have hold := (h.parsing t₂ n raw₂ (by simpa [State.setPc, ht₂] using h₂)).1
          omega
        · simp only [State.setPc, ht₂, Function.update_self, GetPc.parsing.injEq] at h₂
          have hold := (h.parsing t₁ n raw₁ (by simpa [State.setPc, ht₁] using h₁)).1
          omega
        · exact h.distinct t₁ t₂ n raw₁ raw₂ (by simpa [State.setPc, ht₁] using h₁)
            (by simpa [State.setPc, ht₂] using h₂)

theorem Inv.step (h : Inv lib s) (hu : step lib s l = some u) : Inv lib u := by
  cases l with
  | append v =>
    cases hu
    exact (h.append v).notifyOne
  | get t | resume t =>
    simp only [Data.step] at hu
    split at hu
    · cases hu
      exact h.tryTake t
    · cases hu
  | returns t =>
    simp only [Data.step] at hu
    split at hu
    · next n raw hpc =>
      cases hu
      obtain ⟨hn, hfresh, -⟩ := h.parsing t n raw hpc
      refine ⟨h.takes_le, h.varStream, fun t' n' raw' ht' => ?_, ?_, ?_, ?_⟩
      · by_cases htt : t' = t
        · simp [State.setPc, htt] at ht'
        · have ht'' : s.pc t' = .parsing n' raw' := by simpa [State.setPc, htt] using ht'
          obtain ⟨hn', hfresh', hv⟩ := h.parsing t' n' raw' ht''
          refine ⟨hn', ?_, hv⟩
          have hne : n' ≠ n := by
            rintro rfl
            exact htt (h.distinct t' t n' raw' raw ht'' hpc)
          simpa [State.setPc, hne] using hfresh'
      · exact (h.setPc t .idle (by simp)).distinct
      · exact List.forall_mem_cons.mpr ⟨hn, h.returned_lt⟩
      · exact List.nodup_cons.mpr ⟨hfresh, h.nodup⟩
    · cases hu
  | cancel =>
    cases hu
    have hpc (t : Nat) {n : Nat} {raw : Bytes}
        (ht : (if t ∈ s.waitList then GetPc.woken else s.pc t) = .parsing n raw) :
        s.pc t = .parsing n raw := by
      split at ht
      · cases ht
      · exact ht
    exact ⟨h.takes_le, h.varStream, fun t n raw ht => h.parsing t n raw (hpc t ht),
      fun t t' n raw raw' ht ht' => h.distinct t t' n raw raw' (hpc t ht) (hpc t' ht'),
      h.returned_lt, h.nodup⟩

/-- What a step adds to `returned`. -/
theorem step_returned (hu : step lib s l = some u) :
    (∃ t n raw, l = .returns t ∧ s.pc t = .parsing n raw ∧ u.received = s.received ∧
      u.returned = (n, lib.decode raw) :: s.returned) ∨
    ((∀ t, l ≠ .returns t) ∧ s.received <+: u.received ∧ u.returned = s.returned) := by
  cases l with
  | append v =>
    cases hu
    refine .inr ⟨by simp, ?_, ?_⟩ <;> unfold State.notifyOne <;> split <;> simp [State.setPc]
  | get t | resume t =>
    simp only [step] at hu
    split at hu
    · cases hu
      refine .inr ⟨by simp, ?_, ?_⟩ <;> unfold State.tryTake <;> split <;> split <;>
        simp [State.setPc]
    · cases hu
  | returns t =>
    simp only [step] at hu
    split at hu
    · next n raw hpc =>
      cases hu
      exact .inl ⟨t, n, raw, rfl, hpc, rfl, rfl⟩
    · cases hu
  | cancel =>
    cases hu
    exact .inr ⟨by simp, List.prefix_rfl, rfl⟩

/-- A step keeps the values faithful exactly when the entry it returns was read whole. -/
theorem faithful_step_iff (hlib : lib.Lawful) (h : Inv lib s) (hf : Faithful s)
    (hu : step lib s l = some u) : Faithful u ↔ ReadsWhole lib s l := by
  have hnodup := (h.step hu).nodup
  rcases step_returned hu with ⟨t, n, raw, rfl, hpc, hrec, hret⟩ | ⟨hl, hrec, hret⟩
  · obtain ⟨-, -, v, hv, rfl⟩ := h.parsing t n raw hpc
    simp only [ReadsWhole, State.reading, hpc, hv, Option.mem_some_iff, forall_eq']
    rw [← decode_entry_iff hlib v, Faithful, hret, hrec, List.forall_mem_cons, hv]
    rw [hret] at hnodup
    constructor
    · rintro ⟨⟨⟨w, hw, hdec⟩, -⟩, -⟩
      cases hw
      exact hdec
    · intro hdec
      exact ⟨⟨⟨v, rfl, hdec⟩, hf.1⟩, hnodup⟩
  · refine iff_of_true ⟨fun x hx => ?_, hnodup⟩ ?_
    · rw [hret] at hx
      obtain ⟨v, hv, hxv⟩ := hf.1 x hx
      obtain ⟨rest, hrest⟩ := hrec
      obtain ⟨hlt, -⟩ := List.getElem?_eq_some_iff.mp hv
      exact ⟨v, by rw [← hrest, List.getElem?_append_left hlt, hv], hxv⟩
    · cases l <;> simp_all [ReadsWhole, State.reading]

/-- In every run: the calls of `Get` return the values received, in the order in which they take
entries, each once and unaltered, in every state, exactly when every `Get` that returns has an
entry without a zero byte in its length header. -/
theorem faithful_iff (hlib : lib.Lawful) {bCastKey : Bytes} {ls : List (Label J)}
    (hr : run (step lib) (initial bCastKey) ls = some s) :
    Always (step lib) Faithful (initial bCastKey) ls ↔
      Along (step lib) (ReadsWhole lib) (initial bCastKey) ls := by
  refine always_iff_along (I := Inv lib) (fun _ _ _ h hu => h.step hu)
    (fun _ _ _ h hf hu => faithful_step_iff hlib h hf hu) (Inv.initial bCastKey) ?_ hr
  exact ⟨by simp [initial], by simp [initial]⟩

end Machine

/-! ## Plain strings -/

/-- A printable character that stands for itself in a JSON string. -/
def isPlain (c : UInt8) : Bool := 32 ≤ c && c < 127 && c != 34 && c != 92

/-- JSON strings of plain characters that are not too long for a length of 8 bytes. -/
def PlainString : Type := { text : Bytes // text.all isPlain = true ∧ text.length + 2 < 2 ^ 64 }

/-- `dump` and `parse` on plain strings: the text between quotes. -/
def plainStrings : JsonLibrary PlainString where
  dump v := 34 :: v.1 ++ [34]
  parse
    | 34 :: bs =>
      if h : bs.getLast? = some 34 ∧ bs.dropLast.all isPlain = true ∧
          bs.dropLast.length + 2 < 2 ^ 64 then some ⟨bs.dropLast, h.2⟩
      else none
    | _ => none
  fromCbor := Cbor.fromCbor

theorem plainStrings_lawful : plainStrings.Lawful where
  parse_dump v := by
    obtain ⟨text, hplain, hlen⟩ := v
    exact (dif_pos ⟨by simp, by simpa using hplain, by simpa using hlen⟩).trans (by simp)
  zero_notMem_dump v := by
    obtain ⟨text, hplain, hlen⟩ := v
    have htext : 0 ∉ text := fun hmem => by
      have := List.all_eq_true.mp hplain 0 hmem
      simp [isPlain] at this
    simp [plainStrings, htext]
  fromCbor_dump v := by
    obtain ⟨text, hplain, hlen⟩ := v
    refine Cbor.fromCbor_toCbor ?_
    simpa [plainStrings] using hlen
  fromCbor_take _ _ hk := Cbor.fromCbor_take hk

/-- A string of `n` times the letter a. -/
def letters (n : Nat) (h : n + 2 < 2 ^ 64) : PlainString :=
  ⟨List.replicate n 97, by simp [isPlain], by simpa using h⟩

/-- Two tasks wait for values, and the second value is the longer one. -/
def twoReaders : List (Label PlainString) :=
  [.get 0, .get 1, .append (letters 3 (by decide)), .append (letters 30 (by decide)), .resume 1,
    .resume 0, .returns 0, .returns 1]

theorem faithful_twoReaders :
    Always (step plainStrings) Faithful (initial []) twoReaders := by
  have hrun : (run (step plainStrings) (initial []) twoReaders).isSome = true := by decide
  obtain ⟨s, hs⟩ := Option.isSome_iff_exists.mp hrun
  exact (faithful_iff plainStrings_lawful hs).mpr (by decide)

/-- A string whose dump has 256 bytes: its header is `79 01 00`. -/
def evenReader : List (Label PlainString) :=
  [.append (letters 254 (by decide)), .get 0, .returns 0]

set_option maxRecDepth 4000 in
/-- The entry is cut off in its header and `Get` throws. -/
theorem not_faithful_evenReader :
    (run (step plainStrings) (initial []) evenReader).map (fun s =>
      s.returned.map fun x => (x.1, x.2.isNone)) = some [(0, true)] ∧
    ¬ Always (step plainStrings) Faithful (initial []) evenReader := by
  have hend : (run (step plainStrings) (initial []) evenReader).map (fun s =>
      s.returned.map fun x => (x.1, x.2.isNone)) = some [(0, true)] := by decide
  refine ⟨hend, fun h => ?_⟩
  obtain ⟨s, hs, hret⟩ := Option.map_eq_some_iff.mp hend
  obtain ⟨hall, -⟩ := h.last hs
  obtain ⟨x, hx, hxn⟩ : ∃ x ∈ s.returned, x.2.isNone = true := by
    cases hr : s.returned with
    | nil => simp [hr] at hret
    | cons x l =>
      refine ⟨x, by simp, ?_⟩
      simp only [hr, List.map_cons, List.cons.injEq, Prod.mk.injEq] at hret
      exact hret.1.2
  obtain ⟨v, -, hv⟩ := hall x hx
  simp [hv] at hxn

end JamSched.Data
