import JamSched.Data.BroadcastVariable

/-!
# Broadcast routing

`BroadcastManager`: its constructor names a redis key for every variable, `Append` takes the key of
a message apart again and looks for the variable. The keys are put together by concatenation and
taken apart by `sscanf` with `"aps[%s].ns[%s].bcasts[%s]"`. In this format a `%s` reads through the
closing bracket up to the next white space or the end, so no key has a second field: the names
`Append` looks up are the zeros its buffers were filled with, and the first field is longer than
its buffer unless white space cuts it short.
-/
namespace JamSched.Data

open Machine

def convertToRedisKey (apId nameSpace varName : Bytes) : Bytes :=
  cStr (ascii ['a', 'p', 's', '['] ++ apId ++ ascii [']', '.', 'n', 's', '['] ++ nameSpace ++
    ascii [']', '.', 'b', 'c', 'a', 's', 't', 's', '['] ++ cStr varName ++ ascii [']'])

/-- `"aps[%s].ns[%s].bcasts[%s]"`. -/
def keyFormat : List Directive :=
  parseFormat (ascii ['a', 'p', 's', '[', '%', 's', ']', '.', 'n', 's', '[', '%', 's', ']', '.',
    'b', 'c', 'a', 's', 't', 's', '[', '%', 's', ']'])

/-- The stores of the manager; `nameSpaceMaxLen` and `varNameMaxLen` have no initializer. -/
structure BroadcastManager where
  nameSpaceMaxLen : Nat
  varNameMaxLen : Nat
  bCastVarStores : Bytes → Option (Bytes → Option BroadcastVariable) := fun _ => none

namespace BroadcastManager

variable (m : BroadcastManager)

/-- `bCastVarStores[nameSpace][varName]`, if it is there. -/
def find (nameSpace varName : Bytes) : Option BroadcastVariable :=
  m.bCastVarStores nameSpace >>= fun store => store varName

/-- Apply `f` to one variable. -/
def modify (nameSpace varName : Bytes) (f : BroadcastVariable → BroadcastVariable) :
    BroadcastManager :=
  { m with
    bCastVarStores := fun ns =>
      if ns = nameSpace then
        (m.bCastVarStores ns).map fun store v =>
          if v = varName then (store v).map f else store v
      else m.bCastVarStores ns }

/-- The namespace of one entry of `variableInfo`. -/
def emplaceNameSpace (nameSpace : Bytes) : BroadcastManager :=
  match m.bCastVarStores nameSpace with
  | some _ => m
  | none => { m with
      bCastVarStores := fun ns => if ns = nameSpace then some fun _ => none else
        m.bCastVarStores ns
      nameSpaceMaxLen := max nameSpace.length m.nameSpaceMaxLen }

/-- The variable of one entry, in a namespace that is there. The constructor throws when there is
no `mainFogInfo`. -/
def emplaceVariable (appId : Option Bytes) (nameSpace varName : Bytes) :
    Option BroadcastManager :=
  match m.find nameSpace varName with
  | some _ => some m
  | none => appId.map fun appId => { m with
      bCastVarStores := fun ns =>
        if ns = nameSpace then
          (m.bCastVarStores ns).map fun store v =>
            if v = varName then some { bCastKey := convertToRedisKey appId nameSpace varName }
            else store v
        else m.bCastVarStores ns
      varNameMaxLen := max varName.length m.varNameMaxLen }

/-- The loop of the constructor. -/
def register (appId : Option Bytes) : List (Bytes × Bytes) → BroadcastManager →
    Option BroadcastManager
  | [], m => some m
  | (nameSpace, varName) :: variableInfo, m =>
    (m.emplaceNameSpace nameSpace).emplaceVariable appId nameSpace varName >>=
      register appId variableInfo

/-- The constructor, in memory where the two lengths have the given values. -/
def new (nameSpaceMaxLen varNameMaxLen : Nat) (appId : Option Bytes)
    (variableInfo : List (Bytes × Bytes)) : Option BroadcastManager :=
  register appId variableInfo { nameSpaceMaxLen, varNameMaxLen }

/-- A buffer of `n` zeros, after `sscanf` has stored its field, if there is one. -/
def buffer (n : Nat) : Option Bytes → Option Bytes
  | none => some (List.replicate n 0)
  | some word => storeString n word

/-- The lookup of `Append` and what follows it. -/
def deliver (nameSpace varName data : Bytes) : BroadcastManager :=
  match m.find nameSpace varName with
  | some _ => m.modify nameSpace varName (·.append data)
  | none => m

/-- `Append`, with the `appId` of `mainFogInfo`; `none` when `sscanf` writes behind a buffer. -/
def append (appId : Option Bytes) (key data : Bytes) : Option BroadcastManager :=
  match appId with
  | none => some m
  | some appId =>
    let fields := sscanf keyFormat (cStr key)
    buffer appId.length fields[0]? >>= fun _ =>
    buffer m.nameSpaceMaxLen fields[1]? >>= fun nameSpace =>
    buffer m.varNameMaxLen fields[2]? >>= fun varName =>
    some (m.deliver nameSpace varName data)

/-- The entry in front of the stream is taken by a `Get`. -/
def take (nameSpace varName : Bytes) : BroadcastManager :=
  m.modify nameSpace varName fun var => { var with varStream := var.varStream.tail }

end BroadcastManager

/-- What happens to a manager: messages arrive, tasks take values of registered variables. -/
inductive Op where
  | append (key data : Bytes)
  | get (nameSpace varName : Bytes)
  deriving DecidableEq, Repr

def BroadcastManager.step (appId : Option Bytes) (m : BroadcastManager) :
    Op → Option BroadcastManager
  | .append key data => m.append appId key data
  | .get nameSpace varName =>
    if (m.find nameSpace varName).isSome then some (m.take nameSpace varName) else none

/-- The word that the first `%s` reads in the key of a variable. -/
def keyWord (appId nameSpace varName : Bytes) : Bytes :=
  scanWord (cStr (appId ++ ascii [']', '.', 'n', 's', '['] ++ nameSpace ++
    ascii [']', '.', 'b', 'c', 'a', 's', 't', 's', '['] ++ cStr varName ++ ascii [']']))

section Routing

variable {m m' : BroadcastManager} {appId key data nameSpace varName : Bytes}

/-! ## Taking a key apart -/

theorem keyFormat_eq :
    ∃ fmt, keyFormat = (ascii ['a', 'p', 's', '[']).map .lit ++ .string :: .lit 93 :: fmt :=
  ⟨_, rfl⟩

/-- No input has more than one field of the format. -/
theorem length_sscanf_keyFormat (input : Bytes) : (sscanf keyFormat input).length ≤ 1 := by
  obtain ⟨fmt, hfmt⟩ := keyFormat_eq
  rw [hfmt]
  generalize ascii ['a', 'p', 's', '['] = text
  induction text generalizing input with
  | nil =>
    rw [List.map_nil, List.nil_append, sscanf_string_lit (by decide)]
    split <;> simp
  | cons c text ih =>
    cases input with
    | nil => simp [sscanf]
    | cons x input =>
      simp only [List.map_cons, List.cons_append, sscanf]
      split
      · exact ih input
      · simp

/-- The one field of the key of a variable. -/
theorem sscanf_convertToRedisKey (appId nameSpace varName : Bytes) :
    sscanf keyFormat (cStr (convertToRedisKey appId nameSpace varName)) =
      if keyWord appId nameSpace varName = [] then [] else [keyWord appId nameSpace varName] := by
  obtain ⟨fmt, hfmt⟩ := keyFormat_eq
  have hkey : cStr (convertToRedisKey appId nameSpace varName) =
      ascii ['a', 'p', 's', '['] ++ cStr (appId ++ ascii [']', '.', 'n', 's', '['] ++ nameSpace ++
        ascii [']', '.', 'b', 'c', 'a', 's', 't', 's', '['] ++ cStr varName ++ ascii [']']) := by
    rw [convertToRedisKey, cStr_cStr]
    simp only [List.append_assoc]
    exact cStr_append (by decide) _
  rw [hkey, hfmt, sscanf_lit, sscanf_string_lit (by decide), keyWord]

/-- `Append` looks for the names that its buffers were filled with. -/
theorem append_eq (m : BroadcastManager) (appId key data : Bytes) :
    m.append (some appId) key data =
      (BroadcastManager.buffer appId.length (sscanf keyFormat (cStr key))[0]?).map fun _ =>
        m.deliver (List.replicate m.nameSpaceMaxLen 0) (List.replicate m.varNameMaxLen 0)
          data := by
  have hlen := length_sscanf_keyFormat (cStr key)
  have h₁ : (sscanf keyFormat (cStr key))[1]? = none := List.getElem?_eq_none hlen
  have h₂ : (sscanf keyFormat (cStr key))[2]? = none := List.getElem?_eq_none (by omega)
  simp only [BroadcastManager.append, h₁, h₂]
  cases BroadcastManager.buffer appId.length (sscanf keyFormat (cStr key))[0]? <;> rfl

/-! ## The stores -/

theorem find_modify (m : BroadcastManager) (a b : Bytes) (f : BroadcastVariable → BroadcastVariable)
    (nameSpace varName : Bytes) :
    (m.modify a b f).find nameSpace varName =
      if nameSpace = a ∧ varName = b then (m.find nameSpace varName).map f
      else m.find nameSpace varName := by
  unfold BroadcastManager.find BroadcastManager.modify
  by_cases ha : nameSpace = a
  · subst ha
    by_cases hb : varName = b <;> cases hstore : m.bCastVarStores nameSpace <;> simp [hb, hstore]
  · simp [ha]

theorem find_emplaceNameSpace (m : BroadcastManager) (a nameSpace varName : Bytes) :
    (m.emplaceNameSpace a).find nameSpace varName = m.find nameSpace varName := by
  unfold BroadcastManager.emplaceNameSpace
  cases ha : m.bCastVarStores a with
  | some store => rfl
  | none =>
    by_cases hns : nameSpace = a
    · simp [BroadcastManager.find, hns, ha]
    · simp [BroadcastManager.find, hns]

theorem find_emplaceVariable (m : BroadcastManager) (appId a b : Bytes)
    (h : (m.bCastVarStores a).isSome) :
    ∃ m', m.emplaceVariable (some appId) a b = some m' ∧ ∀ nameSpace varName,
      m'.find nameSpace varName =
        if nameSpace = a ∧ varName = b ∧ m.find a b = none then
          some { bCastKey := convertToRedisKey appId a b }
        else m.find nameSpace varName := by
  obtain ⟨store, hstore⟩ := Option.isSome_iff_exists.mp h
  unfold BroadcastManager.emplaceVariable
  cases hfind : m.find a b with
  | some var => exact ⟨m, rfl, fun nameSpace varName => by simp⟩
  | none =>
    refine ⟨_, rfl, fun nameSpace varName => ?_⟩
    by_cases ha : nameSpace = a
    · by_cases hb : varName = b <;> simp [BroadcastManager.find, ha, hb, hstore]
    · simp [BroadcastManager.find, ha]

/-- Every variable has the key of its names. -/
def KeysRight (appId : Bytes) (m : BroadcastManager) : Prop :=
  ∀ nameSpace varName var, m.find nameSpace varName = some var →
    var.bCastKey = convertToRedisKey appId nameSpace varName

/-- The constructor makes every variable it is given, with its key. -/
theorem register_spec {info : List (Bytes × Bytes)} (hkeys : KeysRight appId m)
    (h : BroadcastManager.register (some appId) info m = some m') :
    KeysRight appId m' ∧
      ∀ a b, (m.find a b).isSome ∨ (a, b) ∈ info → (m'.find a b).isSome := by
  induction info generalizing m with
  | nil =>
    obtain rfl : m = m' := by simpa [BroadcastManager.register] using h
    exact ⟨hkeys, fun a b hab => by simpa using hab⟩
  | cons x info ih =>
    obtain ⟨a, b⟩ := x
    have hstore : ((m.emplaceNameSpace a).bCastVarStores a).isSome := by
      unfold BroadcastManager.emplaceNameSpace
      cases ha : m.bCastVarStores a <;> simp [ha]
    obtain ⟨u, hu, hfind⟩ := find_emplaceVariable (m.emplaceNameSpace a) appId a b hstore
    simp only [find_emplaceNameSpace] at hfind
    rw [BroadcastManager.register, hu] at h
    have hkeysu : KeysRight appId u := by
      intro nameSpace varName var hvar
      rw [hfind] at hvar
      split at hvar
      · next hnew =>
        obtain ⟨rfl, rfl, -⟩ := hnew
        cases hvar
        rfl
      · exact hkeys _ _ _ hvar
    obtain ⟨hkeys', hsome⟩ := ih hkeysu h
    refine ⟨hkeys', fun c d hcd => hsome c d ?_⟩
    rw [hfind]
    by_cases hc : c = a ∧ d = b
    · obtain ⟨rfl, rfl⟩ := hc
      left
      split
      · rfl
      · next hold => simpa [Option.isSome_iff_ne_none] using hold
    · have hne : ¬ (c = a ∧ d = b ∧ m.find a b = none) := fun h => hc ⟨h.1, h.2.1⟩
      rw [if_neg hne]
      refine hcd.imp_right fun hmem => ?_
      rcases List.mem_cons.mp hmem with heq | hmem
      · exact absurd (Prod.mk.inj heq) hc
      · exact hmem

/-- `Append` and `Get` keep the variables and their keys. -/
theorem find_step {op : Op} (h : m.step (some appId) op = some m') (nameSpace varName : Bytes) :
    ∃ f : BroadcastVariable → BroadcastVariable, (∀ var, (f var).bCastKey = var.bCastKey) ∧
      m'.find nameSpace varName = (m.find nameSpace varName).map f := by
  have hmodify (a b : Bytes) {f : BroadcastVariable → BroadcastVariable}
      (hf : ∀ var, (f var).bCastKey = var.bCastKey) :
      ∃ g : BroadcastVariable → BroadcastVariable, (∀ var, (g var).bCastKey = var.bCastKey) ∧
        (m.modify a b f).find nameSpace varName = (m.find nameSpace varName).map g := by
    rw [find_modify]
    split
    · exact ⟨f, hf, rfl⟩
    · exact ⟨id, fun _ => rfl, by simp⟩
  cases op with
  | append key data =>
    rw [BroadcastManager.step, append_eq] at h
    obtain ⟨-, -, rfl⟩ := Option.map_eq_some_iff.mp h
    unfold BroadcastManager.deliver
    split
    · exact hmodify _ _ fun _ => rfl
    · exact ⟨id, fun _ => rfl, by simp⟩
  | get a b =>
    simp only [BroadcastManager.step] at h
    split at h
    · cases h
      exact hmodify _ _ fun _ => rfl
    · cases h

/-- In every state of a manager, a registered variable is there with its key. -/
theorem find_registered {n₀ v₀ : Nat} {info : List (Bytes × Bytes)} {ops : List Op}
    {m₀ : BroadcastManager} (hnew : BroadcastManager.new n₀ v₀ (some appId) info = some m₀)
    (hr : run (BroadcastManager.step (some appId)) m₀ ops = some m)
    (hmem : (nameSpace, varName) ∈ info) :
    ∃ var, m.find nameSpace varName = some var ∧
      var.bCastKey = convertToRedisKey appId nameSpace varName := by
  obtain ⟨hkeys, hsome⟩ := register_spec (fun _ _ _ h => by simp [BroadcastManager.find] at h) hnew
  have hinv : ∃ var, m.find nameSpace varName = some var ∧
      var.bCastKey = convertToRedisKey appId nameSpace varName := by
    refine run_invariant (I := fun m => ∃ var, m.find nameSpace varName = some var ∧
      var.bCastKey = convertToRedisKey appId nameSpace varName) ?_ ?_ hr
    · rintro u op w ⟨var, hvar, hkey⟩ hw
      obtain ⟨f, hf, hfind⟩ := find_step hw nameSpace varName
      exact ⟨f var, by rw [hfind, hvar]; rfl, (hf var).trans hkey⟩
    · obtain ⟨var, hvar⟩ := Option.isSome_iff_exists.mp (hsome nameSpace varName (.inr hmem))
      exact ⟨var, hvar, hkeys _ _ _ hvar⟩
  exact hinv

/-! ## The round trip -/

/-- The stream of a variable that is there tells which variable a message went to. -/
theorem deliver_eq_modify_iff {var : BroadcastVariable} (hvar : m.find nameSpace varName = some var)
    (a b : Bytes) :
    m.deliver a b data = m.modify nameSpace varName (·.append data) ↔
      nameSpace = a ∧ varName = b := by
  have hgrown : (m.modify nameSpace varName (·.append data)).find nameSpace varName =
      some (var.append data) := by simp [find_modify, hvar]
  have hne : var ≠ var.append data := by
    intro heq
    have hlen := congrArg (fun v => v.varStream.length) heq
    simp [BroadcastVariable.append] at hlen
  constructor
  · intro h
    by_contra hab
    have hsame : (m.deliver a b data).find nameSpace varName = some var := by
      unfold BroadcastManager.deliver
      split
      · rw [find_modify, if_neg hab, hvar]
      · exact hvar
    rw [h, hgrown] at hsame
    exact hne (Option.some.inj hsame).symm
  · rintro ⟨rfl, rfl⟩
    simp [BroadcastManager.deliver, hvar]

/-- The first field fits its buffer exactly when the word in the key does. -/
theorem buffer_isSome_iff (appId nameSpace varName : Bytes) :
    (BroadcastManager.buffer appId.length
      (sscanf keyFormat (cStr (convertToRedisKey appId nameSpace varName)))[0]?).isSome = true ↔
        (keyWord appId nameSpace varName).length ≤ appId.length := by
  rw [sscanf_convertToRedisKey]
  by_cases hw : keyWord appId nameSpace varName = []
  · simp [hw, BroadcastManager.buffer]
  · by_cases hlen : (keyWord appId nameSpace varName).length ≤ appId.length <;>
      simp [hw, hlen, BroadcastManager.buffer, storeString]

/-- An application id without white space and NUL leads to a word that is longer than it. -/
theorem length_lt_keyWord (hspace : ∀ c ∈ appId, isSpace c = false) (hzero : 0 ∉ appId)
    (nameSpace varName : Bytes) : appId.length < (keyWord appId nameSpace varName).length := by
  have hkey (rest : Bytes) : scanWord (appId ++ 93 :: rest) =
      appId ++ 93 :: rest.takeWhile (!isSpace ·) := by
    have hdrop : (appId ++ 93 :: rest).dropWhile isSpace = appId ++ 93 :: rest := by
      cases appId with
      | nil => rfl
      | cons c appId => simp [hspace c (by simp)]
    have hbracket : isSpace 93 = false := by decide
    rw [scanWord, hdrop, List.takeWhile_append_of_pos (by simpa using hspace)]
    simp [hbracket]
  have hcut (rest : Bytes) : cStr (93 :: rest) = 93 :: cStr rest := by simp [cStr]
  rw [keyWord]
  simp only [List.append_assoc]
  rw [cStr_append hzero]
  change appId.length < (scanWord (appId ++ cStr (93 :: _))).length
  rw [hcut, hkey]
  simp

/-- For every manager in every state and every registered variable: a message with the key of the
variable is appended to this variable and to no other exactly when the word that `sscanf` reads
for the application id is not longer than the id, and both names are zeros of the lengths of the
buffers. -/
theorem append_routes_iff {n₀ v₀ : Nat} {info : List (Bytes × Bytes)} {ops : List Op}
    {m₀ : BroadcastManager} (hnew : BroadcastManager.new n₀ v₀ (some appId) info = some m₀)
    (hr : run (BroadcastManager.step (some appId)) m₀ ops = some m)
    (hmem : (nameSpace, varName) ∈ info) (data : Bytes) :
    ∃ var, m.find nameSpace varName = some var ∧
      (m.append (some appId) var.bCastKey data =
          some (m.modify nameSpace varName (·.append data)) ↔
        (keyWord appId nameSpace varName).length ≤ appId.length ∧
          nameSpace = List.replicate m.nameSpaceMaxLen 0 ∧
          varName = List.replicate m.varNameMaxLen 0) := by
  obtain ⟨var, hvar, hkey⟩ := find_registered hnew hr hmem
  refine ⟨var, hvar, ?_⟩
  rw [hkey, append_eq, ← buffer_isSome_iff, ← deliver_eq_modify_iff hvar, Option.map_eq_some_iff]
  constructor
  · rintro ⟨word, hword, heq⟩
    exact ⟨by rw [hword]; rfl, heq⟩
  · rintro ⟨hsome, heq⟩
    obtain ⟨word, hword⟩ := Option.isSome_iff_exists.mp hsome
    exact ⟨word, hword, heq⟩

end Routing

/-- An application id of twenty blanks. -/
def blankId : Bytes := List.replicate 20 32

/-- One variable without a name in a namespace without a name. -/
theorem append_routes_nameless :
    ∃ m, BroadcastManager.new 0 0 (some blankId) [([], [])] = some m ∧
      ∃ var, m.find [] [] = some var ∧
        m.append (some blankId) var.bCastKey [1] = some (m.modify [] [] (·.append [1])) := by
  have hsome : (BroadcastManager.new 0 0 (some blankId) [([], [])]).isSome = true := by decide
  have hlens : (BroadcastManager.new 0 0 (some blankId) [([], [])]).map (fun m =>
      (m.nameSpaceMaxLen, m.varNameMaxLen)) = some (0, 0) := by decide
  obtain ⟨m, hm⟩ := Option.isSome_iff_exists.mp hsome
  rw [hm, Option.map_some, Option.some.injEq, Prod.mk.injEq] at hlens
  obtain ⟨var, hvar, hiff⟩ := append_routes_iff hm (run_nil _) (List.mem_singleton.mpr rfl) [1]
  exact ⟨m, hm, var, hvar, hiff.mpr ⟨by decide, by rw [hlens.1]; rfl, by rw [hlens.2]; rfl⟩⟩

/-- The variable v of the namespace ns. -/
def oneVariable : List (Bytes × Bytes) := [(ascii ['n', 's'], ascii ['v'])]

/-- With the id app, the first field has 21 bytes and overruns its buffer of three. With twenty
blanks in front of the id, nothing is overrun and the message goes nowhere. -/
theorem append_not_routes_oneVariable :
    (BroadcastManager.new 0 0 (some (ascii ['a', 'p', 'p'])) oneVariable).map (fun m =>
      (m.append (some (ascii ['a', 'p', 'p'])) (convertToRedisKey (ascii ['a', 'p', 'p'])
        (ascii ['n', 's']) (ascii ['v'])) [1]).isSome) = some false ∧
    ((BroadcastManager.new 0 0 (some (blankId ++ ascii ['a', 'p', 'p'])) oneVariable) >>= fun m =>
      (m.append (some (blankId ++ ascii ['a', 'p', 'p'])) (convertToRedisKey
        (blankId ++ ascii ['a', 'p', 'p']) (ascii ['n', 's']) (ascii ['v'])) [1]) >>= fun m =>
          (m.find (ascii ['n', 's']) (ascii ['v'])).map (·.varStream)) = some [] := by
  decide

end JamSched.Data
