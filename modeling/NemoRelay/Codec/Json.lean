import Mathlib.Data.Nat.Log
import Mathlib.Data.String.Basic
import NemoRelay.Lib.SortedMap

/-!
# JSON values

`serde_json::Value` as the codecs see it. Objects are maps with sorted keys. Numbers are compared
as the codecs compare them: integers and floating-point numbers are different, and the two
floating-point zeros are the same.
-/

namespace NemoRelay

open List

/-- The finite 64-bit floating-point numbers, up to the sign of zero. -/
structure F64 where
  bits : BitVec 64
  finite : (bits >>> 52) &&& 0x7ff ≠ 0x7ff
  noNegativeZero : bits ≠ 0x8000000000000000
  deriving DecidableEq

namespace F64

def zero : F64 := ⟨0, by decide, by decide⟩

def ofBits (bits : BitVec 64) : F64 :=
  if h : (bits >>> 52) &&& 0x7ff ≠ 0x7ff ∧ bits ≠ 0x8000000000000000 then ⟨bits, h.1, h.2⟩
  else zero

/-- The bits of the double that is nearest to a natural number, ties to even. -/
def nearest (n : Nat) : BitVec 64 :=
  if n = 0 then 0
  else
    let exponent := n.log2
    let mantissa :=
      if exponent ≤ 52 then n * 2 ^ (52 - exponent)
      else
        let shift := exponent - 52
        let quotient := n / 2 ^ shift
        let rest := n % 2 ^ shift
        let half := 2 ^ (shift - 1)
        if half < rest || (rest = half && quotient % 2 = 1) then quotient + 1 else quotient
    BitVec.ofNat 64 ((exponent + 1022) * 2 ^ 52 + mantissa)

def ofNat (n : Nat) : F64 := ofBits (nearest n)

def ofNegSucc (n : Nat) : F64 := ofBits (nearest (n + 1) ||| 0x8000000000000000)

end F64

/-- `serde_json::Number`. A negative integer is `-(n + 1)`. -/
inductive Number
  | posInt (n : Nat)
  | negInt (n : Nat)
  | float (f : F64)
  deriving DecidableEq

namespace Number

def asU64 : Number → Option Nat
  | posInt n => some n
  | negInt _ | float _ => none

def asI64 : Number → Option Int
  | posInt n => if n < 2 ^ 63 then some (Int.ofNat n) else none
  | negInt n => some (Int.negSucc n)
  | float _ => none

def asF64 : Number → F64
  | posInt n => F64.ofNat n
  | negInt n => F64.ofNegSucc n
  | float f => f

def ofI64 : Int → Number
  | Int.ofNat n => posInt n
  | Int.negSucc n => negInt n

end Number

inductive Json
  | null
  | bool (value : Bool)
  | num (value : Number)
  | str (value : String)
  | arr (items : List Json)
  | obj (entries : List (String × Json))

/-- `serde_json::Map`. -/
abbrev Object := List (String × Json)

namespace Json

mutual

def decEq : (a b : Json) → Decidable (a = b)
  | .null, .null => isTrue rfl
  | .bool a, .bool b => decidable_of_iff (a = b) (by simp)
  | .num a, .num b => decidable_of_iff (a = b) (by simp)
  | .str a, .str b => decidable_of_iff (a = b) (by simp)
  | .arr a, .arr b => @decidable_of_iff _ (a = b) (by simp) (decEqItems a b)
  | .obj a, .obj b => @decidable_of_iff _ (a = b) (by simp) (decEqEntries a b)
  | .null, .bool _ | .null, .num _ | .null, .str _ | .null, .arr _ | .null, .obj _
  | .bool _, .null | .bool _, .num _ | .bool _, .str _ | .bool _, .arr _ | .bool _, .obj _
  | .num _, .null | .num _, .bool _ | .num _, .str _ | .num _, .arr _ | .num _, .obj _
  | .str _, .null | .str _, .bool _ | .str _, .num _ | .str _, .arr _ | .str _, .obj _
  | .arr _, .null | .arr _, .bool _ | .arr _, .num _ | .arr _, .str _ | .arr _, .obj _
  | .obj _, .null | .obj _, .bool _ | .obj _, .num _ | .obj _, .str _ | .obj _, .arr _ =>
    isFalse nofun
  termination_by structural a => a

def decEqItems : (a b : List Json) → Decidable (a = b)
  | [], [] => isTrue rfl
  | a :: as, b :: bs =>
    @decidable_of_iff _ (a = b ∧ as = bs) (by simp)
      (@instDecidableAnd _ _ (decEq a b) (decEqItems as bs))
  | [], _ :: _ | _ :: _, [] => isFalse nofun
  termination_by structural a => a

def decEqEntries : (a b : List (String × Json)) → Decidable (a = b)
  | [], [] => isTrue rfl
  | a :: as, b :: bs =>
    @decidable_of_iff _ (a = b ∧ as = bs) (by simp)
      (@instDecidableAnd _ _ (decEqEntry a b) (decEqEntries as bs))
  | [], _ :: _ | _ :: _, [] => isFalse nofun
  termination_by structural a => a

def decEqEntry : (a b : String × Json) → Decidable (a = b)
  | (k, a), (l, b) =>
    @decidable_of_iff _ (k = l ∧ a = b) (by simp)
      (@instDecidableAnd _ _ (inferInstanceAs (Decidable (k = l))) (decEq a b))
  termination_by structural a => a

end

instance : DecidableEq Json := decEq

/-! ### Access -/

def asStr : Json → Option String
  | .str value => some value
  | _ => none

def asArray : Json → Option (List Json)
  | .arr items => some items
  | _ => none

def asObject : Json → Option Object
  | .obj entries => some entries
  | _ => none

def asU64 : Json → Option Nat
  | .num value => value.asU64
  | _ => none

def asI64 : Json → Option Int
  | .num value => value.asI64
  | _ => none

def asF64 : Json → Option F64
  | .num value => some value.asF64
  | _ => none

/-- `Value::get` with a key. -/
def get (value : Json) (key : String) : Option Json :=
  value.asObject.bind fun entries => SortedMap.get entries key

def isNull : Json → Bool
  | null => true
  | _ => false

def isString (value : Json) : Bool := value.asStr.isSome

def isArray (value : Json) : Bool := value.asArray.isSome

def isObject (value : Json) : Bool := value.asObject.isSome

/-- An array of strings. -/
def strings (values : List String) : Json := .arr (values.map .str)

variable {value : Json} {text : String}

theorem asStr_eq_some : value.asStr = some text ↔ value = .str text := by
  cases value <;> simp [asStr]

variable {entries : Object}

theorem asObject_eq_some : value.asObject = some entries ↔ value = .obj entries := by
  cases value <;> simp [asObject]

variable {items : List Json}

theorem asArray_eq_some : value.asArray = some items ↔ value = .arr items := by
  cases value <;> simp [asArray]

theorem bind_asStr {member : Option Json} :
    member.bind asStr = some text ↔ member = some (.str text) := by
  simp [Option.bind_eq_some_iff, asStr_eq_some]

theorem bind_asObject {member : Option Json} :
    member.bind asObject = some entries ↔ member = some (.obj entries) := by
  simp [Option.bind_eq_some_iff, asObject_eq_some]

theorem bind_asArray {member : Option Json} :
    member.bind asArray = some items ↔ member = some (.arr items) := by
  simp [Option.bind_eq_some_iff, asArray_eq_some]

theorem mapM_asStr (texts : List String) : (texts.map .str).mapM asStr = some texts := by
  induction texts with
  | nil => rfl
  | cons text texts ih =>
    rw [map_cons, mapM_cons, ih]
    rfl

/-- A kind with a default is a given other text only if it is written so. -/
theorem getD_asStr {member : Option Json} {default : String} (h : default ≠ text) :
    (member.bind asStr).getD default = text ↔ member = some (.str text) := by
  rw [← bind_asStr]
  cases member.bind asStr <;> simp [h]

/-! ### Well-formed values -/

mutual

def wf : Json → Bool
  | .null | .bool _ | .num _ | .str _ => true
  | .arr items => wfItems items
  | .obj entries => wfEntries entries

def wfItems : List Json → Bool
  | [] => true
  | item :: items => item.wf && wfItems items

def wfEntries : List (String × Json) → Bool
  | [] => true
  | entry :: entries =>
    (entries.all fun other => entry.1 < other.1) && wfEntry entry && wfEntries entries

def wfEntry : String × Json → Bool
  | (_, value) => value.wf

end

/-- The invariant of `serde_json::Map`, at every depth. -/
def WF (value : Json) : Prop := value.wf = true

instance (value : Json) : Decidable value.WF := inferInstanceAs (Decidable (value.wf = true))

@[simp] theorem wf_null : Json.null.WF := rfl

@[simp] theorem wf_bool (value : Bool) : (Json.bool value).WF := rfl

@[simp] theorem wf_num (value : Number) : (Json.num value).WF := rfl

@[simp] theorem wf_str (value : String) : (Json.str value).WF := rfl

theorem wf_arr : (Json.arr items).WF ↔ ∀ item ∈ items, item.WF := by
  simp only [WF, wf]
  induction items with
  | nil => simp [wfItems]
  | cons item items ih => simp [wfItems, ih]

theorem wf_obj :
    (Json.obj entries).WF ↔ SortedMap.Sorted entries ∧ ∀ entry ∈ entries, entry.2.WF := by
  simp only [WF, wf]
  induction entries with
  | nil => simp [wfEntries, SortedMap.Sorted]
  | cons entry entries ih =>
    obtain ⟨key, value⟩ := entry
    simp only [wfEntries, SortedMap.sorted_cons, Bool.and_eq_true, all_eq_true,
      decide_eq_true_eq, forall_mem_cons]
    tauto

theorem wf_strings (values : List String) : (strings values).WF := by
  refine wf_arr.mpr fun item hitem => ?_
  obtain ⟨text, -, rfl⟩ := mem_map.mp hitem
  exact wf_str text

theorem WF.member {key : String} (h : (Json.obj entries).WF)
    (hget : SortedMap.get entries key = some value) : value.WF :=
  (wf_obj.mp h).2 _ (SortedMap.mem_of_get hget)

theorem wf_obj_of_get (hsorted : SortedMap.Sorted entries)
    (h : ∀ key value, SortedMap.get entries key = some value → value.WF) :
    (Json.obj entries).WF := by
  refine wf_obj.mpr ⟨hsorted, fun entry hentry => ?_⟩
  exact h entry.1 entry.2 (hsorted.get_of_mem hentry)

theorem WF.insert (h : (Json.obj entries).WF) (key : String) (hvalue : value.WF) :
    (Json.obj (SortedMap.insert entries key value)).WF := by
  refine wf_obj_of_get ((wf_obj.mp h).1.insert key value) fun key' value' hget => ?_
  rw [SortedMap.get_insert] at hget
  split at hget
  · cases hget
    exact hvalue
  · exact h.member hget

theorem WF.filter (h : (Json.obj entries).WF) (p : String × Json → Bool) :
    (Json.obj (entries.filter p)).WF :=
  wf_obj.mpr ⟨(wf_obj.mp h).1.filter p, fun entry hentry =>
    (wf_obj.mp h).2 entry (mem_filter.mp hentry).1⟩

@[elab_as_elim]
theorem induction {motive : Json → Prop} (null : motive .null) (bool : ∀ b, motive (.bool b))
    (num : ∀ n, motive (.num n)) (str : ∀ s, motive (.str s))
    (arr : ∀ items, (∀ item ∈ items, motive item) → motive (.arr items))
    (obj : ∀ entries, (∀ entry ∈ entries, motive entry.2) → motive (.obj entries))
    (value : Json) : motive value := by
  refine @Json.rec motive (fun items => ∀ item ∈ items, motive item)
    (fun entries => ∀ entry ∈ entries, motive entry.2) (fun entry => motive entry.2)
    null bool num str arr obj ?_ ?_ ?_ ?_ ?_ value
  · exact nofun
  · intro item items hitem hitems
    exact forall_mem_cons.mpr ⟨hitem, hitems⟩
  · exact nofun
  · intro entry entries hentry hentries
    exact forall_mem_cons.mpr ⟨hentry, hentries⟩
  · intro key value hvalue
    exact hvalue

/-! ### Numbers as doubles -/

mutual

/-- Every number replaced by the nearest double. -/
def asDoubles : Json → Json
  | .num value => .num (.float value.asF64)
  | .arr items => .arr (asDoublesItems items)
  | .obj entries => .obj (asDoublesEntries entries)
  | .null => .null
  | .bool value => .bool value
  | .str value => .str value

def asDoublesItems : List Json → List Json
  | [] => []
  | item :: items => item.asDoubles :: asDoublesItems items

def asDoublesEntries : List (String × Json) → List (String × Json)
  | [] => []
  | entry :: entries => asDoublesEntry entry :: asDoublesEntries entries

def asDoublesEntry : String × Json → String × Json
  | (key, value) => (key, value.asDoubles)

end

theorem asDoubles_arr (items : List Json) : (arr items).asDoubles = .arr (items.map asDoubles) := by
  rw [asDoubles]
  congr 1
  induction items with
  | nil => rfl
  | cons item items ih => rw [asDoublesItems, ih, map_cons]

theorem asDoubles_obj (entries : Object) :
    (obj entries).asDoubles = .obj (entries.map fun entry => (entry.1, entry.2.asDoubles)) := by
  rw [asDoubles]
  congr 1
  induction entries with
  | nil => rfl
  | cons entry entries ih => rw [asDoublesEntries, ih, map_cons, asDoublesEntry]

end Json

/-! ### Building objects -/

/-- Inserts the members that are given, in order. -/
def insertFields (base : Object) (fields : List (String × Option Json)) : Object :=
  fields.foldl (fun entries field =>
    match field.2 with
    | some value => SortedMap.insert entries field.1 value
    | none => entries) base

/-- The value that `insertFields` gives to a key. -/
def fieldOf (fields : List (String × Option Json)) (key : String) : Option Json :=
  match fields with
  | [] => none
  | field :: fields => (fieldOf fields key).or (if key = field.1 then field.2 else none)

variable {fields : List (String × Option Json)}

theorem fieldOf_eq_none {key : String} (h : key ∉ fields.map Prod.fst) :
    fieldOf fields key = none := by
  induction fields with
  | nil => rfl
  | cons field fields ih =>
    rw [map_cons, mem_cons, not_or] at h
    rw [fieldOf, ih h.2, if_neg h.1, Option.none_or]

theorem get_insertFields (base : Object) (fields : List (String × Option Json)) (key : String) :
    SortedMap.get (insertFields base fields) key =
      (fieldOf fields key).or (SortedMap.get base key) := by
  induction fields generalizing base with
  | nil => rfl
  | cons field fields ih =>
    obtain ⟨key', value⟩ := field
    rw [insertFields, foldl_cons, ← insertFields, ih, fieldOf, Option.or_assoc]
    congr 1
    cases value with
    | none => simp
    | some value =>
      rw [SortedMap.get_insert]
      split <;> rfl

theorem get_insertFields_nil (fields : List (String × Option Json)) (key : String) :
    SortedMap.get (insertFields [] fields) key = fieldOf fields key := by
  rw [get_insertFields, SortedMap.get_nil, Option.or_none]

theorem sorted_insertFields {base : Object} (hbase : SortedMap.Sorted base)
    (fields : List (String × Option Json)) : SortedMap.Sorted (insertFields base fields) := by
  refine List.foldlRecOn fields _ hbase fun obj hobj field _ => ?_
  split
  · exact hobj.insert _ _
  · exact hobj

theorem wf_insertFields {base : Object} (hbase : (Json.obj base).WF)
    (hfields : ∀ field ∈ fields, ∀ value, field.2 = some value → value.WF) :
    (Json.obj (insertFields base fields)).WF := by
  refine List.foldlRecOn (motive := fun obj => (Json.obj obj).WF) fields _ hbase
    fun obj hobj field hfield => ?_
  split
  · rename_i value hvalue
    exact hobj.insert _ (hfields field hfield value hvalue)
  · exact hobj

end NemoRelay
