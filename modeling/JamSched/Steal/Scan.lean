import JamSched.Steal.StealFrom
import Mathlib.Data.List.Nodup

/-!
# One scan of the workers

The `for` loop of `StealScheduler::GetNextTask` that tries the other workers, with no other thread
in between. The index is computed in `size_t` and the counter `T_T` is an `int`: the index walks
once around the ring of workers from the start down, whatever the start, as long as the counter
does not leave its type.
-/
namespace JamSched.Steal

/-- `INT_MAX`. -/
def intMax : Nat := 2147483647

/-- `(rStart - T_T + n) % n` in the `size_t` of 64 bits. -/
def scanIndex (n rStart T_T : Nat) : Nat :=
  ((UInt64.ofNat rStart - UInt64.ofNat T_T + UInt64.ofNat n) % UInt64.ofNat n).toNat

namespace Pool

/-- The loop from `T_T` on, with `left` workers to go, for worker `i`: the pool afterwards and the
workers that were tried, or `none` when `T_T++` overflows. -/
def scanLoop (i rStart : Nat) : (left T_T : Nat) → Pool → Option (Pool × List Nat)
  | 0, _, s => some (s, [])
  | left + 1, T_T, s =>
    let j := scanIndex s.nThiefs rStart T_T
    if j = i then if T_T = intMax then none else scanLoop i rStart left (T_T + 1) s
    else
      let r := s.stealFrom i j
      if r.2 > 0 then some (r.1, [j])
      else if T_T = intMax then none
      else (scanLoop i rStart left (T_T + 1) r.1).map fun x => (x.1, j :: x.2)

def scan (s : Pool) (i rStart : Nat) : Option (Pool × List Nat) :=
  s.scanLoop i rStart s.nThiefs 0

end Pool

/-- The scan ends, tries other workers only and none of them twice, its index comes by every
worker, and afterwards worker `i` has a task or no other worker has two that it could steal. -/
def ScanRight (s : Pool) (i rStart : Nat) : Prop :=
  ∃ t tried, s.scan i rStart = some (t, tried) ∧ tried.Nodup ∧
    (∀ j ∈ tried, j < s.nThiefs ∧ j ≠ i) ∧
    (∀ j < s.nThiefs, ∃ T_T < s.nThiefs, scanIndex s.nThiefs rStart T_T = j) ∧
    (t.isReady (.thief i) ≠ [] ∨ ∀ j < s.nThiefs, j ≠ i → t.stealableCount j ≤ 1)

/-! ## The index -/

section Index

variable {n rStart : Nat}

/-- The unsigned difference may wrap, the index does not see it. -/
theorem scanIndex_eq (hn : n < 2 ^ 31) (hr : rStart < n) {T_T : Nat} (ht : T_T < n) :
    scanIndex n rStart T_T = if T_T ≤ rStart then rStart - T_T else rStart + n - T_T := by
  have hsum : (UInt64.ofNat rStart - UInt64.ofNat T_T + UInt64.ofNat n).toNat =
      rStart + n - T_T := by
    simp only [UInt64.toNat_add, UInt64.toNat_sub, UInt64.toNat_ofNat']
    omega
  have hmod : (UInt64.ofNat n).toNat = n := by
    rw [UInt64.toNat_ofNat']
    omega
  rw [scanIndex, UInt64.toNat_mod, hsum, hmod]
  split
  · have hle : rStart + n - T_T = rStart - T_T + n := by omega
    rw [hle, Nat.add_mod_right, Nat.mod_eq_of_lt (by omega)]
  · exact Nat.mod_eq_of_lt (by omega)

theorem scanIndex_lt (hn : n < 2 ^ 31) (hr : rStart < n) {T_T : Nat} (ht : T_T < n) :
    scanIndex n rStart T_T < n := by
  rw [scanIndex_eq hn hr ht]
  split <;> omega

theorem scanIndex_injective (hn : n < 2 ^ 31) (hr : rStart < n) {T₁ T₂ : Nat} (h₁ : T₁ < n)
    (h₂ : T₂ < n) (heq : scanIndex n rStart T₁ = scanIndex n rStart T₂) : T₁ = T₂ := by
  rw [scanIndex_eq hn hr h₁, scanIndex_eq hn hr h₂] at heq
  split at heq <;> split at heq <;> omega

/-- The index comes by every worker. -/
theorem scanIndex_surjective (hn : n < 2 ^ 31) (hr : rStart < n) {j : Nat} (hj : j < n) :
    ∃ T_T < n, scanIndex n rStart T_T = j := by
  by_cases hle : j ≤ rStart
  · refine ⟨rStart - j, by omega, ?_⟩
    rw [scanIndex_eq hn hr (by omega)]
    split <;> omega
  · refine ⟨rStart + n - j, by omega, ?_⟩
    rw [scanIndex_eq hn hr (by omega)]
    split <;> omega

end Index

/-! ## The loop -/

section Loop

variable {s t : Pool} {i j rStart : Nat}

/-- A theft that takes nothing changes nothing. -/
theorem stealFrom_eq_self (h : (s.stealFrom i j).2 = 0) : (s.stealFrom i j).1 = s := by
  have htaken : (s.stealOutOf j).2 = [] := List.length_eq_zero_iff.mp h
  have htakes := stealOutOf_takesLast s j
  rw [htaken] at htakes
  have hkept : (s.stealOutOf j).1 = s.isReady (.thief j) := htakes.eq_of_nil
  simp [Pool.stealFrom, htaken, hkept, Pool.setReady, Pool.addSize, Pool.subSize]

/-- A theft that takes nothing has found at most one stealable task: half of two is one. -/
theorem stealableCount_le_one (h : (s.stealFrom i j).2 = 0) : s.stealableCount j ≤ 1 := by
  have hlen : s.stealCount j = 0 := by
    have htakes := (stealOutOf_takesLast s j).length
    rw [List.length_reverse] at htakes
    exact htakes.symm.trans h
  have hle : s.stealableCount j ≤ (s.isReady (.thief j)).length := List.countP_le_length
  unfold Pool.stealCount at hlen
  split at hlen <;> omega

/-- After a theft the thief has a task. -/
theorem isReady_ne_nil (h : 0 < (s.stealFrom i j).2) :
    (s.stealFrom i j).1.isReady (.thief i) ≠ [] := by
  have htaken : (s.stealOutOf j).2 ≠ [] := List.length_pos_iff.mp h
  simp [stealFrom_isReady, htaken]

/-- The loop from `T_T` on: it tries a part of the workers that are left, in their order, and
either takes something or has found nothing to take at any of them. -/
theorem scanLoop_spec {left T_T : Nat} (hn : s.nThiefs < 2 ^ 31)
    (hleft : T_T + left = s.nThiefs) :
    ∃ t tried, s.scanLoop i rStart left T_T = some (t, tried) ∧
      tried.Sublist ((List.range' T_T left).map (scanIndex s.nThiefs rStart)) ∧
      (∀ j ∈ tried, j ≠ i) ∧
      (t.isReady (.thief i) ≠ [] ∨ t = s ∧ ∀ k, T_T ≤ k → k < s.nThiefs →
        scanIndex s.nThiefs rStart k ≠ i →
          s.stealableCount (scanIndex s.nThiefs rStart k) ≤ 1) := by
  induction left generalizing T_T with
  | zero =>
    refine ⟨s, [], rfl, by simp, by simp, .inr ⟨rfl, fun k hk hlt => ?_⟩⟩
    omega
  | succ left ih =>
    have hmax : T_T ≠ intMax := by
      unfold intMax
      omega
    have hnext : T_T + 1 + left = s.nThiefs := by omega
    obtain ⟨t, tried, hscan, hsub, hne, hend⟩ := ih hnext
    rw [List.range'_succ, List.map_cons]
    by_cases hj : scanIndex s.nThiefs rStart T_T = i
    · refine ⟨t, tried, by simp [Pool.scanLoop, hj, hmax, hscan], hsub.cons _, hne, ?_⟩
      refine hend.imp_right fun hs => ⟨hs.1, fun k hk hlt hki => ?_⟩
      have hkT : k ≠ T_T := fun heq => hki (heq ▸ hj)
      exact hs.2 k (by omega) hlt hki
    · by_cases hpos : 0 < (s.stealFrom i (scanIndex s.nThiefs rStart T_T)).2
      · refine ⟨_, [scanIndex s.nThiefs rStart T_T], by simp [Pool.scanLoop, hj, hpos],
          by simp, by simpa using hj, .inl (isReady_ne_nil hpos)⟩
      · have hzero : (s.stealFrom i (scanIndex s.nThiefs rStart T_T)).2 = 0 := by omega
        have hself := stealFrom_eq_self hzero
        refine ⟨t, scanIndex s.nThiefs rStart T_T :: tried,
          by simp [Pool.scanLoop, hj, hzero, hself, hmax, hscan], hsub.cons_cons _,
          List.forall_mem_cons.mpr ⟨hj, hne⟩, ?_⟩
        refine hend.imp_right fun hs => ⟨hs.1, fun k hk hlt hki => ?_⟩
        rcases Nat.eq_or_lt_of_le hk with rfl | hk
        · exact stealableCount_le_one hzero
        · exact hs.2 k hk hlt hki

/-- With few enough workers the scan is right. -/
theorem scanRight_of_lt (hn : s.nThiefs < 2 ^ 31) (hr : rStart < s.nThiefs) :
    ScanRight s i rStart := by
  obtain ⟨t, tried, hscan, hsub, hne, hend⟩ :=
    @scanLoop_spec s i rStart _ _ hn (Nat.zero_add s.nThiefs)
  refine ⟨t, tried, hscan, ?_, fun j hj => ⟨?_, hne j hj⟩, ?_, ?_⟩
  · refine hsub.nodup (List.Nodup.map_on ?_ List.nodup_range')
    intro k hk k' hk' heq
    rw [List.mem_range'_1] at hk hk'
    exact scanIndex_injective hn hr (by omega) (by omega) heq
  · obtain ⟨k, hk, rfl⟩ := List.mem_map.mp (hsub.subset hj)
    rw [List.mem_range'_1] at hk
    exact scanIndex_lt hn hr (by omega)
  · intro j hj
    exact scanIndex_surjective hn hr hj
  · refine hend.imp_right fun ⟨hts, hle⟩ j hj hji => ?_
    obtain ⟨k, hk, rfl⟩ := scanIndex_surjective hn hr hj
    rw [hts]
    exact hle k (Nat.zero_le k) hk hji

/-- Where nobody has anything to steal, the counter runs on until it overflows. -/
theorem scanLoop_eq_none (hempty : ∀ x, s.isReady x = []) {left T_T : Nat} (hT : T_T ≤ intMax)
    (hleft : intMax < T_T + left) : s.scanLoop i rStart left T_T = none := by
  induction left generalizing T_T with
  | zero => omega
  | succ left ih =>
    have hcount (j : Nat) : (s.stealFrom i j).2 = 0 := by
      simp [Pool.stealFrom, Pool.stealOutOf, Pool.stealableCount, hempty]
    have hnext : T_T ≠ intMax → s.scanLoop i rStart left (T_T + 1) = none := fun hne =>
      ih (by omega) (by omega)
    by_cases hmax : T_T = intMax
    · simp [Pool.scanLoop, hcount, hmax]
    · simp [Pool.scanLoop, hcount, hmax, stealFrom_eq_self, hnext hmax]

end Loop

end JamSched.Steal
