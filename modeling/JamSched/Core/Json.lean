import Mathlib.Algebra.Group.Int.Defs
import Mathlib.Algebra.Group.Nat.Defs
import Mathlib.Data.List.Basic

/-!
# JSON values

The part of `nlohmann::json` that the remote layer uses. A call that throws in C++ is `none`
here. A read with the const `operator[]` of a key or an index that is not there is undefined,
and `none` as well: `field` and `element` are these two reads, so at a use of them `none` is
undefined behaviour, while at a use of `getUInt32` or `getString` it is an exception.
-/
namespace JamSched

inductive Json where
  | null
  | bool (b : Bool)
  /-- `number_unsigned`. -/
  | unsigned (n : Nat)
  /-- `number_integer`, the type of negative integers. -/
  | integer (i : Int)
  /-- `number_float`, by its integral part. -/
  | float (i : Int)
  | str (s : String)
  | arr (elements : List Json)
  | obj (fields : List (String × Json))

namespace Json

instance : Inhabited Json := ⟨.null⟩

/-- `contains`, false on everything that is no object. -/
def contains : Json → String → Bool
  | .obj fields, key => (fields.lookup key).isSome
  | _, _ => false

/-- `operator[](key) const`. -/
def field : Json → String → Option Json
  | .obj fields, key => fields.lookup key
  | _, _ => none

/-- `operator[](index) const`. -/
def element : Json → Nat → Option Json
  | .arr elements, i => elements[i]?
  | _, _ => none

def isString : Json → Bool
  | .str _ => true
  | _ => false

def isArray : Json → Bool
  | .arr _ => true
  | _ => false

def isNumberUnsigned : Json → Bool
  | .unsigned _ => true
  | _ => false

/-- `get<std::string>`. -/
def getString : Json → Option String
  | .str s => some s
  | _ => none

/-- `get<std::uint32_t>`: every number and every Boolean is cast. -/
def getUInt32 : Json → Option Nat
  | .unsigned n => some (n % 2 ^ 32)
  | .integer i | .float i => some (i % 2 ^ 32).toNat
  | .bool b => some b.toNat
  | _ => none

/-- `get<int>`, the same cast with a sign. -/
def getInt : Json → Option Int
  | .unsigned n => some (Int.bmod n (2 ^ 32))
  | .integer i | .float i => some (i.bmod (2 ^ 32))
  | .bool b => some b.toNat
  | _ => none

/-- Assignment to `operator[](key)`, an exception on everything but null and objects. -/
def set : Json → String → Json → Option Json
  | .null, key, v => some (.obj [(key, v)])
  | .obj fields, key, v => some (.obj ((key, v) :: fields.filter (·.1 ≠ key)))
  | _, _, _ => none

/-- What `parse` makes of the text that `dump` writes: the members of an object come in any order,
and the text of an integer does not tell its type, so one without a sign is `number_unsigned`. -/
inductive Reread : Json → Json → Prop where
  | null : Reread .null .null
  | bool (b : Bool) : Reread (.bool b) (.bool b)
  | unsigned (n : Nat) : Reread (.unsigned n) (.unsigned n)
  | natural (n : Nat) : Reread (.integer n) (.unsigned n)
  | negative {i : Int} (h : i < 0) : Reread (.integer i) (.integer i)
  | float (i : Int) : Reread (.float i) (.float i)
  | str (s : String) : Reread (.str s) (.str s)
  | arr {xs ys : List Json} (length : xs.length = ys.length)
      (elements : ∀ (i : Nat) (x y : Json), xs[i]? = some x → ys[i]? = some y → Reread x y) :
      Reread (.arr xs) (.arr ys)
  | obj {fs gs : List (String × Json)}
      (keys : ∀ key, (fs.lookup key).isSome = (gs.lookup key).isSome)
      (members : ∀ (key : String) (x y : Json),
        fs.lookup key = some x → gs.lookup key = some y → Reread x y) :
      Reread (.obj fs) (.obj gs)

/-- The value of a failed call, `{"exception", text}`: an array of two strings. -/
def exception (text : String) : Json := .arr [.str "exception", .str text]

def isException : Json → Bool
  | .arr [.str "exception", .str _] => true
  | _ => false

@[simp] theorem isException_exception (text : String) : (exception text).isException = true :=
  rfl

theorem contains_iff_field {j : Json} {key : String} :
    j.contains key = true ↔ ∃ v, j.field key = some v := by
  cases j <;> simp [contains, field, Option.isSome_iff_exists]

theorem lookup_filter_ne {fields : List (String × Json)} {key name : String} (h : name ≠ key) :
    (fields.filter (·.1 ≠ key)).lookup name = fields.lookup name := by
  induction fields with
  | nil => rfl
  | cons f fields ih =>
    obtain ⟨k, v⟩ := f
    by_cases hk : k = key
    · have hname : (name == k) = false := by simpa [hk] using h
      simpa [hk, List.lookup_cons, hk ▸ hname] using ih
    · simp only [ne_eq, hk, not_false_eq_true, decide_true, List.filter_cons_of_pos,
        List.lookup_cons]
      rw [← ih]

/-- The member is set and the others are as they were. -/
theorem field_set {j r v : Json} {key : String} (h : j.set key v = some r) (name : String) :
    r.field name = if name = key then some v else j.field name := by
  by_cases hname : name = key
  · cases j <;> simp only [set, Option.some.injEq, reduceCtorEq] at h
    all_goals
      subst h
      simp [field, hname]
  · have hne : (name == key) = false := by simpa using hname
    cases j <;> simp only [set, Option.some.injEq, reduceCtorEq] at h
    all_goals
      subst h
      simp only [field, List.lookup_cons, hne, hname, ↓reduceIte, List.lookup_nil,
        lookup_filter_ne hname]

/-- An object whose members are read back one by one. -/
theorem Reread.members {fs gs : List (String × Json)}
    (h : List.Forall₂ (fun f g => f.1 = g.1 ∧ f.2.Reread g.2) fs gs) :
    (Json.obj fs).Reread (.obj gs) := by
  have hlookup (key : String) : (fs.lookup key).isSome = (gs.lookup key).isSome ∧
      ∀ x y, fs.lookup key = some x → gs.lookup key = some y → x.Reread y := by
    induction h with
    | nil => simp
    | @cons f g _ _ hfg _ ih =>
      obtain ⟨name, v⟩ := f
      obtain ⟨_, w⟩ := g
      obtain ⟨rfl, hread⟩ := hfg
      simp only [List.lookup_cons]
      split
      · refine ⟨rfl, fun x y hx hy => ?_⟩
        cases hx
        cases hy
        exact hread
      · exact ih
  exact .obj (fun key => (hlookup key).1) fun key => (hlookup key).2

/-- The members of an object are read back under their keys. -/
theorem Reread.field {j r v : Json} (h : j.Reread r) {key : String} (hv : j.field key = some v) :
    ∃ w, r.field key = some w ∧ v.Reread w := by
  cases h with
  | obj keys members =>
    have hsome := keys key
    rw [show List.lookup key _ = some v from hv] at hsome
    obtain ⟨w, hw⟩ := Option.isSome_iff_exists.mp hsome.symm
    exact ⟨w, hw, members key v w hv hw⟩
  | _ => cases hv

end Json

end JamSched
