import JamSched.Core.Task
import JamSched.Core.Bits

/-!
# The timing wheel

`timeout.c`: four wheels of 64 slots, the slots of each wheel spanning as much time as all those of
the wheel below together, a word for each wheel that tells which of its slots are in use, and the
queue of what has expired. `timeouts_update` looks only at the slots that the wheels have passed; it
puts what it finds there into the expired queue or into slots that are finer.
-/
namespace JamSched

open Bits

/-- `timeout_t`. -/
abbrev TimeoutT := BitVec 64

/-- `wheel_t`. -/
abbrev WheelT := BitVec 64

/-- A `struct timeout_list` of `struct timeouts`. -/
inductive TimeoutList where
  | wheel (i : Fin 4) (j : Fin 64)
  | expired
  deriving DecidableEq

/-- `struct timeout`; `pending` is null when the timeout is in no list. -/
structure Timeout where
  flags : Nat := 0
  expires : TimeoutT := 0
  pending : Option TimeoutList := none
  interval : TimeoutT := 0

namespace Timeout

/-- `TIMEOUT_INT`. -/
def isInt (t : Timeout) : Bool := t.flags &&& 1 ≠ 0

/-- `TIMEOUT_ABS`. -/
def isAbs (t : Timeout) : Bool := t.flags &&& 2 ≠ 0

end Timeout

/-- `struct timeouts`, and the timeouts that the lists are made of. -/
structure Timeouts where
  list : TimeoutList → List Ptr := fun _ => []
  pending : Fin 4 → WheelT := fun _ => 0
  curtime : TimeoutT := 0
  timeout : Ptr → Timeout := fun _ => {}

section Words

def rotl (v : WheelT) (c : Nat) : WheelT :=
  let c := c &&& 63
  if c = 0 then v else (v <<< c) ||| (v >>> (64 - c))

def rotr (v : WheelT) (c : Nat) : WheelT :=
  let c := c &&& 63
  if c = 0 then v else (v >>> c) ||| (v <<< (64 - c))

def fls (n : WheelT) : Nat := 64 - n.clz.toNat

/-- `TIMEOUT_MAX`. -/
def timeoutMax : TimeoutT := 16777215

theorem fls_le {n : WheelT} {k : Nat} (h : n.toNat < 2 ^ k) : fls n ≤ k := by
  by_cases hn : n = 0#64
  · subst hn
    simp [fls, BitVec.clz_eq_iff_eq_zero.mpr]
  · have hle : 2 ^ (64 - 1 - n.clz.toNat) ≤ n.toNat :=
      BitVec.two_pow_sub_clz_le_toNat_of_ne_zero (by decide) hn
    have hlt : 2 ^ (64 - 1 - n.clz.toNat) < 2 ^ k := Nat.lt_of_le_of_lt hle h
    have hexp := (Nat.pow_lt_pow_iff_right (by decide)).mp hlt
    unfold fls
    omega

theorem fls_min_le (timeout : TimeoutT) :
    fls (if timeout < timeoutMax then timeout else timeoutMax) ≤ 24 := by
  apply fls_le
  split
  · next h =>
    rw [BitVec.lt_def] at h
    exact Nat.lt_trans h (by decide)
  · decide

/-- Must be called with `timeout != 0`. -/
def timeoutWheel (timeout : TimeoutT) : Fin 4 :=
  ⟨(fls (if timeout < timeoutMax then timeout else timeoutMax) - 1) / 6, by
    have hle := fls_min_le timeout
    omega⟩

theorem and_mask_lt (v : TimeoutT) : (63#64 &&& v).toNat < 64 := by
  rw [BitVec.toNat_and]
  exact Nat.lt_of_le_of_lt Nat.and_le_left (by decide)

/-- `WHEEL_MASK & v`, as the index of a slot. -/
def slotOf (v : TimeoutT) : Fin 64 := ⟨(63#64 &&& v).toNat, and_mask_lt v⟩

def timeoutSlot (wheel : Fin 4) (expires : TimeoutT) : Fin 64 :=
  slotOf ((expires >>> (wheel.val * 6)) - if wheel = 0 then 0 else 1)

end Words

namespace Timeouts

variable (T : Timeouts)

section Lists

/-- Assignments to the members of a timeout. -/
def modify (p : Ptr) (f : Timeout → Timeout) : Timeouts :=
  { T with timeout := Function.update T.timeout p (f (T.timeout p)) }

def setList (l : TimeoutList) (xs : List Ptr) : Timeouts :=
  { T with list := Function.update T.list l xs }

/-- `TAILQ_REMOVE`. -/
def unlink (l : TimeoutList) (p : Ptr) : Timeouts := T.setList l ((T.list l).erase p)

/-- `TAILQ_INSERT_TAIL`, with `to->pending`. -/
def insertTail (l : TimeoutList) (p : Ptr) : Timeouts :=
  (T.setList l (T.list l ++ [p])).modify p fun t => { t with pending := some l }

def setBit (i : Fin 4) (j : Fin 64) : Timeouts :=
  { T with pending := Function.update T.pending i (T.pending i ||| bit j) }

def clearBit (i : Fin 4) (j : Fin 64) : Timeouts :=
  { T with pending := Function.update T.pending i (T.pending i &&& ~~~ bit j) }

end Lists

/-- `timeout_init`, of a timeout that belongs to the caller. -/
def timeoutInit (p : Ptr) (flags : Nat) : Timeouts := T.modify p fun _ => { flags }

/-- The bit of a slot out of which a timeout was taken. -/
def clearIfEmpty : TimeoutList → Timeouts
  | .wheel i j => if T.list (.wheel i j) = [] then T.clearBit i j else T
  | .expired => T

def del (p : Ptr) : Timeouts :=
  match (T.timeout p).pending with
  | none => T
  | some l => ((T.unlink l p).clearIfEmpty l).modify p fun t => { t with pending := none }

/-- The list that a timeout is put into. -/
def place (expires : TimeoutT) : TimeoutList :=
  if T.curtime < expires then
    let wheel := timeoutWheel (expires - T.curtime)
    .wheel wheel (timeoutSlot wheel expires)
  else .expired

/-- The bit of a slot into which a timeout was put. -/
def setInUse : TimeoutList → Timeouts
  | .wheel i j => T.setBit i j
  | .expired => T

/-- The rest of `timeouts_sched`. -/
def link (p : Ptr) (expires : TimeoutT) : Timeouts :=
  let l := T.place expires
  ((T.modify p fun t => { t with expires }).insertTail l p).setInUse l

def sched (p : Ptr) (expires : TimeoutT) : Timeouts := (T.del p).link p expires

def readd (p : Ptr) : Timeouts :=
  let interval := (T.timeout p).interval
  let expires := (T.timeout p).expires + interval
  if expires ≤ T.curtime then
    let n := T.curtime - expires
    let r := n % interval
    T.sched p (T.curtime + (interval - r))
  else T.sched p expires

def add (p : Ptr) (timeout : TimeoutT) : Timeouts :=
  let t := T.timeout p
  let T := if t.isInt then
      T.modify p fun t => { t with interval := if 1 < timeout then timeout else 1 }
    else T
  if t.isAbs then T.sched p timeout else T.sched p (T.curtime + timeout)

section Fields

variable {T} {p q : Ptr} {f : Timeout → Timeout} {l m : TimeoutList} {xs : List Ptr} {i k : Fin 4}
  {j : Fin 64}

@[simp] theorem list_modify : (T.modify p f).list = T.list := rfl

@[simp] theorem pending_modify : (T.modify p f).pending = T.pending := rfl

@[simp] theorem curtime_modify : (T.modify p f).curtime = T.curtime := rfl

@[simp] theorem timeout_modify : (T.modify p f).timeout q =
    if q = p then f (T.timeout p) else T.timeout q := Function.update_apply ..

@[simp] theorem list_setList : (T.setList l xs).list m = if m = l then xs else T.list m :=
  Function.update_apply ..

@[simp] theorem pending_setList : (T.setList l xs).pending = T.pending := rfl

@[simp] theorem curtime_setList : (T.setList l xs).curtime = T.curtime := rfl

@[simp] theorem timeout_setList : (T.setList l xs).timeout = T.timeout := rfl

@[simp] theorem list_setBit : (T.setBit i j).list = T.list := rfl

@[simp] theorem curtime_setBit : (T.setBit i j).curtime = T.curtime := rfl

@[simp] theorem timeout_setBit : (T.setBit i j).timeout = T.timeout := rfl

@[simp] theorem pending_setBit : (T.setBit i j).pending k =
    if k = i then T.pending i ||| bit j else T.pending k := Function.update_apply ..

@[simp] theorem list_clearBit : (T.clearBit i j).list = T.list := rfl

@[simp] theorem curtime_clearBit : (T.clearBit i j).curtime = T.curtime := rfl

@[simp] theorem timeout_clearBit : (T.clearBit i j).timeout = T.timeout := rfl

@[simp] theorem pending_clearBit : (T.clearBit i j).pending k =
    if k = i then T.pending i &&& ~~~ bit j else T.pending k := Function.update_apply ..

@[simp] theorem list_insertTail : (T.insertTail l p).list m =
    if m = l then T.list l ++ [p] else T.list m := list_setList

@[simp] theorem pending_insertTail : (T.insertTail l p).pending = T.pending := rfl

@[simp] theorem curtime_insertTail : (T.insertTail l p).curtime = T.curtime := rfl

@[simp] theorem timeout_insertTail : (T.insertTail l p).timeout q =
    if q = p then { T.timeout p with pending := some l } else T.timeout q := timeout_modify

@[simp] theorem list_unlink : (T.unlink l p).list m =
    if m = l then (T.list l).erase p else T.list m := list_setList

@[simp] theorem pending_unlink : (T.unlink l p).pending = T.pending := rfl

@[simp] theorem curtime_unlink : (T.unlink l p).curtime = T.curtime := rfl

@[simp] theorem timeout_unlink : (T.unlink l p).timeout = T.timeout := rfl

@[simp] theorem list_setInUse : (T.setInUse l).list = T.list := by cases l <;> rfl

@[simp] theorem curtime_setInUse : (T.setInUse l).curtime = T.curtime := by cases l <;> rfl

@[simp] theorem timeout_setInUse : (T.setInUse l).timeout = T.timeout := by cases l <;> rfl

@[simp] theorem list_clearIfEmpty : (T.clearIfEmpty l).list = T.list := by
  unfold clearIfEmpty
  split <;> [split; skip] <;> rfl

@[simp] theorem curtime_clearIfEmpty : (T.clearIfEmpty l).curtime = T.curtime := by
  unfold clearIfEmpty
  split <;> [split; skip] <;> rfl

@[simp] theorem timeout_clearIfEmpty : (T.clearIfEmpty l).timeout = T.timeout := by
  unfold clearIfEmpty
  split <;> [split; skip] <;> rfl

end Fields

section Update

/-- The slots of a wheel that are passed, some more among them. -/
def passed (curtime elapsed : TimeoutT) (wheel : Fin 4) : WheelT :=
  if 63 < elapsed >>> (wheel.val * 6) then BitVec.allOnes 64
  else
    let elapsed := slotOf (elapsed >>> (wheel.val * 6))
    let oslot := slotOf (T.curtime >>> (wheel.val * 6))
    let nslot := slotOf (curtime >>> (wheel.val * 6))
    rotl ((1#64 <<< elapsed.val) - 1) oslot |||
      rotr (rotl ((1#64 <<< elapsed.val) - 1) nslot) elapsed ||| bit nslot

/-- The loop over the slots of a wheel that are passed and in use. -/
def drain (wheel : Fin 4) (pending : WheelT) : Nat → List Ptr → Timeouts → List Ptr × Timeouts
  | 0, todo, T => (todo, T)
  | fuel + 1, todo, T =>
    if h : pending &&& T.pending wheel = 0#64 then (todo, T)
    else
      let slot := lowest (pending &&& T.pending wheel) h
      drain wheel pending fuel (todo ++ T.list (.wheel wheel slot))
        ((T.setList (.wheel wheel slot) []).clearBit wheel slot)

/-- The loop over the wheels. -/
def collect (curtime : TimeoutT) :
    List (Fin 4) → TimeoutT → List Ptr → Timeouts → List Ptr × Timeouts
  | [], _, todo, T => (todo, T)
  | wheel :: wheels, elapsed, todo, T =>
    let pending := T.passed curtime elapsed wheel
    let (todo, T) := drain wheel pending 64 todo T
    if pending[0] = false then (todo, T)
    else
      let turn := 64#64 <<< (wheel.val * 6)
      collect curtime wheels (if turn < elapsed then elapsed else turn) todo T

/-- The timeouts that were collected are scheduled anew. -/
def resched (todo : List Ptr) : Timeouts :=
  todo.foldl (fun T p =>
    (T.modify p fun t => { t with pending := none }).sched p (T.timeout p).expires) T

def update (curtime : TimeoutT) : Timeouts :=
  let (todo, T) := collect curtime (List.finRange 4) (curtime - T.curtime) [] T
  { T with curtime }.resched todo

end Update

/-- How many places a wheel turns until a slot that is in use. -/
def turns (wheel : Fin 4) : Nat :=
  let slot := slotOf (T.curtime >>> (wheel.val * 6))
  (rotr (T.pending wheel) slot).ctz.toNat + if wheel = 0 then 0 else 1

/-- `_timeout` of `timeouts_int`; `relmask` tells how much lower wheels have progressed. -/
def wheelInt (wheel : Fin 4) (relmask : TimeoutT) : TimeoutT :=
  BitVec.ofNat 64 (T.turns wheel <<< (wheel.val * 6)) - (relmask &&& T.curtime)

/-- The loop of `timeouts_int`. -/
def intLoop : List (Fin 4) → TimeoutT → TimeoutT → TimeoutT
  | [], timeout, _ => timeout
  | wheel :: wheels, timeout, relmask =>
    let timeout :=
      if T.pending wheel = 0#64 then timeout
      else if T.wheelInt wheel relmask < timeout then T.wheelInt wheel relmask else timeout
    intLoop wheels timeout (relmask <<< 6 ||| 63)

/-- `timeouts_int`. -/
def int : TimeoutT := T.intLoop (List.finRange 4) (BitVec.allOnes 64) 0

/-- `timeouts_timeout`. -/
def timeoutsTimeout : TimeoutT := if T.list .expired ≠ [] then 0 else T.int

def get : Option (Ptr × Timeouts) :=
  match T.list .expired with
  | [] => none
  | p :: _ =>
    let T := (T.unlink .expired p).modify p fun t => { t with pending := none }
    let T := if (T.timeout p).isInt ∧ 0 < (T.timeout p).interval then T.readd p else T
    some (p, T)

/-- `timeouts_pending`. -/
def timeoutsPending : Bool := (List.finRange 4).foldl (fun v i => v ||| T.pending i) 0#64 ≠ 0#64

/-- The timeouts in the slots, in the order in which the loops of `timeouts_min` go. -/
def inSlots : List Ptr :=
  (List.finRange 4).flatMap fun i => (List.finRange 64).flatMap fun j => T.list (.wheel i j)

/-- The loop body of `timeouts_min`. -/
def earlier : Option Ptr → Ptr → Option Ptr
  | none, p => some p
  | some m, p => if (T.timeout p).expires < (T.timeout m).expires then some p else some m

/-- `timeouts_min`. -/
def timeoutsMin : Option Ptr := T.inSlots.foldl T.earlier none

/-- `timeouts_check`. -/
def check : Bool :=
  match T.timeoutsMin with
  | some p =>
    T.curtime < (T.timeout p).expires && T.int ≤ (T.timeout p).expires - T.curtime &&
      T.timeoutsTimeout ≤ (T.timeout p).expires - T.curtime
  | none =>
    if T.list .expired ≠ [] then T.timeoutsTimeout = 0 else T.timeoutsTimeout = BitVec.allOnes 64

/-- `timeouts_close`, as far as the timeouts see it. -/
def close : Timeouts :=
  (T.inSlots ++ T.list .expired).foldl
    (fun T p => T.modify p fun t => { t with pending := none }) T

end Timeouts

end JamSched
