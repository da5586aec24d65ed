import JamSched.Sync.Primitives
import JamSched.Machine.Run

/-!
# The shared spin mutex

One `SharedSpinMutex` and any number of threads. Each of its operations loads the word and then
tries to exchange the value it has seen; a step is one such access. The loads are relaxed: a thread
may be given any value that the word has had since the last one it has seen or written. The
exchanges are weak: they may fail although the word has the expected value.

A thread calls `unlock` or `unlock_shared` only while it holds the mutex that way. What it holds is
written down beside the word, when the exchange that takes or releases the mutex has succeeded.
-/
namespace JamSched.Sync

open Machine

namespace SharedSpinMutex

inductive Op where
  | lock | tryLock | unlock | lockShared | tryLockShared | unlockShared
  deriving DecidableEq, Repr

/-- Where a thread stands. -/
inductive Pc where
  /-- In no operation; `result` is what the last one returned. -/
  | idle (result : Bool)
  | load (op : Op)
  | compareExchange (op : Op) (expected : Int)
  /-- At `assert(false)`. -/
  | failed
  deriving DecidableEq, Repr

namespace Op

/-- The test of the loaded value. -/
def admits (op : Op) (expected : Int) : Bool :=
  match op with
  | lock | tryLock => expected = 0
  | unlock => expected = -1
  | lockShared | tryLockShared => 0 ≤ expected
  | unlockShared => 0 < expected

/-- What follows when the test fails. -/
def refused : Op → Pc
  | lock => .load lock
  | lockShared => .load lockShared
  | tryLock | tryLockShared => .idle false
  | unlock | unlockShared => .failed

def desired (op : Op) (expected : Int) : Int :=
  match op with
  | lock | tryLock => -1
  | unlock => 0
  | lockShared | tryLockShared => int32 (1 + expected)
  | unlockShared => int32 (expected - 1)

/-- What follows when the exchange fails. -/
def retry : Op → Pc
  | tryLock | tryLockShared => .idle false
  | lock => .load lock
  | unlock => .load unlock
  | lockShared => .load lockShared
  | unlockShared => .load unlockShared

end Op

inductive Label where
  | call (p : Ptr) (op : Op)
  /-- The load gives the `i`-th value of the word. -/
  | load (p : Ptr) (i : Nat)
  | compareExchange (p : Ptr) (spurious : Bool)
  deriving DecidableEq, Repr

end SharedSpinMutex

structure SharedSpinMutex where
  /-- The values of the word, in the order in which they were written. -/
  l : Nat → Int := fun _ => 0
  /-- The index of its value now. -/
  last : Nat := 0
  /-- The latest value that a thread has seen or written. -/
  seen : Ptr → Nat := fun _ => 0
  pc : Ptr → SharedSpinMutex.Pc := fun _ => .idle true
  /-- The threads that hold the mutex exclusively. -/
  writers : List Ptr := []
  /-- The threads that hold it shared, once for each time. -/
  readers : List Ptr := []

namespace SharedSpinMutex

variable (s : SharedSpinMutex)

def word : Int := s.l s.last

def goto (p : Ptr) (pc : Pc) : SharedSpinMutex := { s with pc := Function.update s.pc p pc }

/-- The thread may call the operation: it releases only what it holds. -/
def MayCall (p : Ptr) : Op → Prop
  | .unlock => p ∈ s.writers
  | .unlockShared => p ∈ s.readers
  | .lock | .tryLock | .lockShared | .tryLockShared => True

instance (p : Ptr) (op : Op) : Decidable (s.MayCall p op) :=
  match op with
  | .unlock | .unlockShared => inferInstanceAs (Decidable (_ ∈ _))
  | .lock | .tryLock | .lockShared | .tryLockShared => inferInstanceAs (Decidable True)

/-- The thread writes the next value of the word. -/
def write (p : Ptr) (desired : Int) : SharedSpinMutex :=
  { s with
    l := Function.update s.l (s.last + 1) desired
    last := s.last + 1
    seen := Function.update s.seen p (s.last + 1) }

/-- What the thread holds after the exchange. -/
def settle (p : Ptr) : Op → SharedSpinMutex
  | .lock | .tryLock => { s with writers := p :: s.writers }
  | .unlock => { s with writers := s.writers.erase p }
  | .lockShared | .tryLockShared => { s with readers := p :: s.readers }
  | .unlockShared => { s with readers := s.readers.erase p }

def step : Label → Option SharedSpinMutex
  | .call p op => match s.pc p with
    | .idle _ => if s.MayCall p op then some (s.goto p (.load op)) else none
    | _ => none
  | .load p i => match s.pc p with
    | .load op =>
      if s.seen p ≤ i ∧ i ≤ s.last then
        some ({ s with seen := Function.update s.seen p i }.goto p
          (if op.admits (s.l i) then .compareExchange op (s.l i) else op.refused))
      else none
    | _ => none
  | .compareExchange p spurious => match s.pc p with
    | .compareExchange op expected =>
      if s.word = expected ∧ spurious = false then
        some (((s.settle p op).write p (op.desired expected)).goto p (.idle true))
      else some (s.goto p op.retry)
    | _ => none

/-- The constructor stores 0. -/
def initial : SharedSpinMutex := {}

/-! ## The invariant -/

/-- The word tells who holds the mutex, and a holder can only see values that tell so. -/
structure Held : Prop where
  word : s.word = if s.writers = [] then (s.readers.length : Int) else -1
  one : s.writers.length ≤ 1
  alone : s.writers ≠ [] → s.readers = []
  seen : ∀ p, s.seen p ≤ s.last
  writer : ∀ p ∈ s.writers, s.seen p = s.last
  reader : ∀ p ∈ s.readers, ∀ i, s.seen p ≤ i → i ≤ s.last → 0 < s.l i

/-- A thread in the middle of a release still holds what it releases. -/
def Fits (p : Ptr) : Pc → Prop
  | .idle _ => True
  | .load op => s.MayCall p op
  | .compareExchange op expected => s.MayCall p op ∧ op.admits expected = true
  | .failed => False

structure Inv : Prop where
  held : s.Held
  fits : ∀ p, s.Fits p (s.pc p)

theorem inv_initial : Inv initial where
  held := by constructor <;> simp [initial, SharedSpinMutex.word]
  fits _ := trivial

variable {s} {t : SharedSpinMutex} {p q : Ptr} {op : Op} {i : Nat} {expected : Int}

theorem Fits.mono {pc : Pc} (h : s.Fits p pc)
    (hmay : ∀ op, s.MayCall p op → t.MayCall p op) : t.Fits p pc := by
  cases pc with
  | idle result => trivial
  | load op => exact hmay op h
  | compareExchange op expected => exact ⟨hmay op h.1, h.2⟩
  | failed => exact h.elim

theorem Inv.goto (h : Inv s) {pc : Pc} (hfits : s.Fits p pc) : Inv (s.goto p pc) where
  held := ⟨h.held.word, h.held.one, h.held.alone, h.held.seen, h.held.writer, h.held.reader⟩
  fits q := by
    have hq : s.Fits q ((s.goto p pc).pc q) := by
      by_cases hq : q = p
      · subst hq
        simpa [SharedSpinMutex.goto] using hfits
      · simpa [SharedSpinMutex.goto, hq] using h.fits q
    exact hq.mono fun op hmay => by cases op <;> exact hmay

/-! ### Loads -/

theorem Held.load (h : Held s) (hle : s.seen p ≤ i) (hlast : i ≤ s.last) :
    Held { s with seen := Function.update s.seen p i } := by
  have hge : ∀ q, s.seen q ≤ Function.update s.seen p i q := by
    intro q
    rw [Function.update_apply]
    grind
  have hlast' : ∀ q, Function.update s.seen p i q ≤ s.last := by
    intro q
    have := h.seen q
    rw [Function.update_apply]
    grind
  refine ⟨h.word, h.one, h.alone, hlast', fun q hq => ?_, fun q hq j hj => ?_⟩
  · have := h.writer q hq
    have := hge q
    have := hlast' q
    simp only
    omega
  · exact h.reader q hq j (Nat.le_trans (hge q) hj)

/-- A thread that releases the mutex sees that it is held. -/
theorem Held.admits (h : Held s) (hmay : s.MayCall p op) (hle : s.seen p ≤ i) (hlast : i ≤ s.last)
    (hrel : op.refused = .failed) : op.admits (s.l i) = true := by
  cases op with
  | unlock =>
    obtain rfl : i = s.last := by
      have := h.writer p hmay
      omega
    have hword := h.word
    rw [if_neg (List.ne_nil_of_mem hmay), SharedSpinMutex.word] at hword
    simp [Op.admits, hword]
  | unlockShared => simpa [Op.admits] using h.reader p hmay i hle hlast
  | lock => cases hrel
  | tryLock => cases hrel
  | lockShared => cases hrel
  | tryLockShared => cases hrel

theorem Inv.load (h : Inv s) (hp : s.pc p = .load op) (hle : s.seen p ≤ i) (hlast : i ≤ s.last) :
    Inv ({ s with seen := Function.update s.seen p i }.goto p
      (if op.admits (s.l i) then .compareExchange op (s.l i) else op.refused)) := by
  have hmay : s.MayCall p op := by simpa [Fits, hp] using h.fits p
  have hadmits := h.held.admits hmay hle hlast
  have hinv : Inv { s with seen := Function.update s.seen p i } :=
    ⟨h.held.load hle hlast, fun q => (h.fits q).mono fun op hq => by cases op <;> exact hq⟩
  refine hinv.goto ?_
  split
  · rename_i hadm
    exact ⟨by cases op <;> exact hmay, hadm⟩
  · rename_i hadm
    cases op with
    | lock | tryLock | lockShared | tryLockShared => trivial
    | unlock | unlockShared => exact absurd (hadmits rfl) hadm

/-! ### Exchanges -/

theorem fits_retry (hmay : s.MayCall p op) : s.Fits p op.retry := by
  cases op <;> exact hmay

/-- What the other threads hold stays. -/
theorem mayCall_settle (op : Op) (hq : q ≠ p) {op' : Op} (h : s.MayCall q op') :
    (s.settle p op).MayCall q op' := by
  cases op <;> cases op' <;>
    simp only [MayCall, settle, List.mem_cons, List.mem_erase_of_ne hq] at h ⊢ <;> simp [h]

/-- The next value tells who holds the mutex then: nobody or the thread that wrote it
exclusively, or that thread and earlier readers. -/
theorem Held.write (h : Held s) {v : Int} {writers readers : List Ptr}
    (hword : v = if writers = [] then (readers.length : Int) else -1)
    (hone : writers.length ≤ 1) (halone : writers ≠ [] → readers = [])
    (hwriter : ∀ q ∈ writers, q = p) (hreader : ∀ q ∈ readers, q ≠ p → q ∈ s.readers) :
    Held ({ s with writers, readers }.write p v) := by
  refine ⟨?_, hone, halone, fun q => ?_, fun q hq => ?_, fun q hq i hle hlast => ?_⟩
  · exact (Function.update_self (s.last + 1) v s.l).trans hword
  · have := h.seen q
    simp only [SharedSpinMutex.write, Function.update_apply]
    split <;> omega
  · simp [hwriter q hq, SharedSpinMutex.write]
  · simp only [SharedSpinMutex.write, Function.update_apply] at hq hle hlast ⊢
    by_cases hi : i = s.last + 1
    · have hpos := List.length_pos_of_mem hq
      have hnil : writers = [] := by
        by_contra hne
        simp [halone hne] at hq
      rw [if_pos hnil] at hword
      rw [if_pos hi]
      omega
    · have hne : q ≠ p := by
        rintro rfl
        rw [if_pos rfl] at hle
        omega
      rw [if_neg hne] at hle
      rw [if_neg hi]
      exact h.reader q (hreader q hq hne) i hle (by omega)

theorem Held.writers_eq_nil (h : Held s) (hword : 0 ≤ s.word) : s.writers = [] := by
  by_contra hne
  have := h.word
  rw [if_neg hne] at this
  omega

theorem Held.length_readers (h : Held s) (hword : 0 ≤ s.word) :
    (s.readers.length : Int) = s.word := by
  rw [h.word, if_pos (h.writers_eq_nil hword)]

/-- A successful exchange. The word has the value that was expected. -/
theorem Held.exchange (h : Held s) (hmay : s.MayCall p op) (hadm : op.admits s.word = true)
    (hfew : s.readers.length < 2147483647) :
    Held ((s.settle p op).write p (op.desired s.word)) := by
  have hlock : s.word = 0 → Held ({ s with writers := p :: s.writers }.write p (-1)) := by
    intro hword
    have hwriters := h.writers_eq_nil (by omega)
    have hreaders : s.readers = [] := by
      have := h.length_readers (by omega)
      exact List.eq_nil_of_length_eq_zero (by omega)
    exact h.write (by simp) (by simp [hwriters]) (fun _ => hreaders) (by simp [hwriters])
      fun q hq _ => hq
  have hshared : 0 ≤ s.word →
      Held ({ s with readers := p :: s.readers }.write p (int32 (1 + s.word))) := by
    intro hword
    have hwriters := h.writers_eq_nil hword
    have hlen := h.length_readers hword
    refine h.write ?_ h.one (by simp [hwriters]) (by simp [hwriters]) fun q hq hne => ?_
    · rw [int32_eq (by omega) (by omega), if_pos hwriters, List.length_cons]
      omega
    · simpa [hne] using hq
  cases op with
  | lock => exact hlock (by simpa [Op.admits] using hadm)
  | tryLock => exact hlock (by simpa [Op.admits] using hadm)
  | lockShared => exact hshared (by simpa [Op.admits] using hadm)
  | tryLockShared => exact hshared (by simpa [Op.admits] using hadm)
  | unlock =>
    have hmem : p ∈ s.writers := hmay
    have hwriters : s.writers.erase p = [] := by
      have := List.length_erase_of_mem hmem
      have := h.one
      exact List.eq_nil_of_length_eq_zero (by omega)
    have hreaders := h.alone (List.ne_nil_of_mem hmem)
    exact h.write (by simp [Op.desired, hwriters, hreaders]) (by simp [hwriters])
      (fun _ => hreaders) (by simp [hwriters]) fun q hq _ => hq
  | unlockShared =>
    have hpos : 0 < s.word := by simpa [Op.admits] using hadm
    have hwriters := h.writers_eq_nil (by omega)
    have hlen := h.length_readers (by omega)
    have herase := List.length_erase_of_mem (show p ∈ s.readers from hmay)
    refine h.write ?_ h.one (by simp [hwriters]) (by simp [hwriters])
      fun q hq _ => List.mem_of_mem_erase hq
    rw [if_pos hwriters, Op.desired, int32_eq (by omega) (by omega)]
    omega

theorem Inv.exchange (h : Inv s) (hp : s.pc p = .compareExchange op expected)
    (hword : s.word = expected) (hfew : s.readers.length < 2147483647) :
    Inv (((s.settle p op).write p (op.desired expected)).goto p (.idle true)) := by
  subst hword
  have hfits : s.MayCall p op ∧ op.admits s.word = true := by simpa [Fits, hp] using h.fits p
  refine ⟨?_, fun q => ?_⟩
  · obtain ⟨h₁, h₂, h₃, h₄, h₅, h₆⟩ := h.held.exchange hfits.1 hfits.2 hfew
    exact ⟨h₁, h₂, h₃, h₄, h₅, h₆⟩
  · by_cases hq : q = p
    · subst hq
      simp [SharedSpinMutex.goto, Fits]
    · have hpc : (((s.settle p op).write p (op.desired s.word)).goto p (.idle true)).pc q =
          s.pc q := by
        simp only [SharedSpinMutex.goto, write, Function.update_of_ne hq]
        cases op <;> rfl
      rw [hpc]
      refine (h.fits q).mono fun op' hmay => ?_
      have := mayCall_settle op hq hmay
      cases op' <;> exact this

theorem Inv.step (h : Inv s) (hfew : s.readers.length < 2147483647) {l : Label}
    (hs : s.step l = some t) : Inv t := by
  cases l with
  | call p op =>
    cases hp : s.pc p <;>
      simp only [SharedSpinMutex.step, hp, Option.ite_none_right_eq_some, Option.some.injEq,
        reduceCtorEq] at hs
    obtain ⟨hmay, rfl⟩ := hs
    exact h.goto hmay
  | load p i =>
    cases hp : s.pc p <;>
      simp only [SharedSpinMutex.step, hp, Option.ite_none_right_eq_some, Option.some.injEq,
        reduceCtorEq] at hs
    obtain ⟨⟨hle, hlast⟩, rfl⟩ := hs
    exact h.load hp hle hlast
  | compareExchange p spurious =>
    cases hp : s.pc p <;> simp only [SharedSpinMutex.step, hp, reduceCtorEq] at hs
    split at hs
    · rename_i hword
      cases hs
      exact h.exchange hp hword.1 hfew
    · cases hs
      have hfits := h.fits p
      rw [hp] at hfits
      exact h.goto (fits_retry hfits.1)

/-- In every run in which there are fewer than `2 ^ 31 - 1` readers, whatever values the loads give
and whichever exchanges fail: the word is -1 exactly when there is one writer and no reader, and
otherwise it is the number of readers; a writer is the only holder; and no release comes to its
`assert(false)`. -/
theorem word_counts_holders (ls : List Label) (s : SharedSpinMutex)
    (hfew : Always step (fun s => s.readers.length < 2147483647) initial ls)
    (hr : run step initial ls = some s) :
    (s.word = -1 ↔ s.writers.length = 1 ∧ s.readers = []) ∧
    (s.word ≠ -1 → s.writers = [] ∧ s.word = s.readers.length) ∧
    (s.writers ≠ [] → s.writers.length = 1 ∧ s.readers = []) ∧ ∀ p, s.pc p ≠ .failed := by
  have h : Inv s := run_invariant_always (I := Inv) (P := fun _ _ => True)
    (fun _ _ _ h hfew _ _ hs => h.step hfew hs) inv_initial hfew
    (along_of_mem fun _ _ => trivial) hr
  obtain ⟨hword, hone, halone, -, -, -⟩ := h.held
  refine ⟨⟨fun hw => ?_, fun hw => ?_⟩, fun hw => ?_, fun hne => ?_, fun p hp => ?_⟩
  · have hne : s.writers ≠ [] := by
      intro hnil
      rw [if_pos hnil] at hword
      omega
    have := List.length_pos_of_ne_nil hne
    exact ⟨by omega, halone hne⟩
  · rw [hword, if_neg (List.ne_nil_of_length_pos (by omega))]
  · have hnil : s.writers = [] := by
      by_contra hne
      exact hw (by rw [hword, if_neg hne])
    exact ⟨hnil, by rw [hword, if_pos hnil]⟩
  · have := List.length_pos_of_ne_nil hne
    exact ⟨by omega, halone hne⟩
  · have := h.fits p
    rw [hp] at this
    exact this

/-- A call of a thread that comes through at once. Its load sees the word as it is:
`i` is the index of its value. -/
def through (p : Ptr) (op : Op) (i : Nat) : List Label :=
  [.call p op, .load p i, .compareExchange p false]

/-- Threads 0 and 1 read. Thread 2 tries to write and is refused. Thread 0 leaves after an
exchange that fails for no reason, while thread 1 releases between its load and its exchange. Then
thread 2 writes. -/
def readersRun : List Label :=
  through 0 .lockShared 0 ++ through 1 .lockShared 1 ++ [Label.call 2 .tryLock, .load 2 2] ++
  [Label.call 0 .unlockShared, .load 0 1, .compareExchange 0 true, .load 0 2] ++
  through 1 .unlockShared 2 ++
  [Label.compareExchange 0 false, .load 0 3, .compareExchange 0 false] ++ through 2 .lock 4

theorem word_counts_holders_readersRun : ∃ s, run step initial readersRun = some s ∧
    s.writers = [2] ∧ s.word = -1 ∧ s.readers = [] ∧ s.pc 2 = .idle true := by
  have h := word_counts_holders readersRun _ (by decide) rfl
  exact ⟨_, rfl, by decide, h.1.mpr (by decide), by decide, by decide⟩

end SharedSpinMutex

end JamSched.Sync
