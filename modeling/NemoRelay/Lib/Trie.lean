import Mathlib.Data.List.Infix
import NemoRelay.Lib.SortedMap

/-!
# Tries

A tree of values with named children. A node that does not exist yet is taken to have the value of
a new node: with that reading, changing the value at a path changes nothing else, although it
creates all the nodes on the way.
-/

inductive Trie (κ ν : Type*) where
  | node (value : ν) (children : List (κ × Trie κ ν))

namespace Trie

open List

variable {κ ν α β : Type*} [LinearOrder κ]

def value : Trie κ ν → ν
  | node value _ => value

def children : Trie κ ν → List (κ × Trie κ ν)
  | node _ children => children

def leaf (value : ν) : Trie κ ν := node value []

def child (t : Trie κ ν) (key : κ) : Option (Trie κ ν) := SortedMap.get t.children key

variable (new : κ → ν)

/-- The child with a key, or a new one. -/
def childOrNew (t : Trie κ ν) (key : κ) : Trie κ ν := (t.child key).getD (leaf (new key))

/-- Change the value at a path. The nodes on the way are created. -/
def modify (change : ν → ν) : List κ → Trie κ ν → Trie κ ν
  | [], t => node (change t.value) t.children
  | key :: path, t =>
    node t.value (SortedMap.insert t.children key (modify change path (t.childOrNew new key)))

/-- The value at a path, where missing nodes are new. -/
def valueAt : List κ → Trie κ ν → ν
  | [], t => t.value
  | key :: path, t => valueAt path (t.childOrNew new key)

/-- Follow a path as long as there are nodes. The last answer counts. -/
def walk (answer : ν → Option β) : Option β → List κ → Trie κ ν → Option β
  | best, [], _ => best
  | best, key :: path, t =>
    match t.child key with
    | some next => walk answer ((answer next.value).or best) path next
    | none => best

def deepest (answer : ν → Option β) (path : List κ) (t : Trie κ ν) : Option β :=
  walk answer (answer t.value) path t

variable {new} {change : ν → ν}

/-! ### Changes -/

theorem valueAt_modify (path path' : List κ) (t : Trie κ ν) :
    valueAt new path' (modify new change path t) =
      if path' = path then change (valueAt new path' t) else valueAt new path' t := by
  induction path generalizing path' t with
  | nil => cases path' <;> rfl
  | cons key path ih =>
    cases path' with
    | nil => rfl
    | cons key' path' =>
      have hchild : (modify new change (key :: path) t).childOrNew new key' =
          if key' = key then modify new change path (t.childOrNew new key')
          else t.childOrNew new key' := by
        rw [childOrNew, child, modify, children, SortedMap.get_insert]
        by_cases hkey : key' = key
        · rw [if_pos hkey, if_pos hkey, hkey]
          rfl
        · rw [if_neg hkey, if_neg hkey]
          rfl
      rw [valueAt, hchild, valueAt]
      by_cases hkey : key' = key
      · rw [if_pos hkey, ih]
        simp only [hkey, List.cons.injEq, true_and]
      · rw [if_neg hkey, if_neg fun h => hkey (List.cons.inj h).1]

section Fold

variable {path : α → List κ} (changes : α → ν → ν) {items : List α}

theorem valueAt_foldl_modify_of_notMem {path' : List κ} (hpath : ∀ item ∈ items, path item ≠ path')
    (t : Trie κ ν) :
    valueAt new path' (items.foldl (fun t item => modify new (changes item) (path item) t) t) =
      valueAt new path' t := by
  induction items generalizing t with
  | nil => rfl
  | cons item items ih =>
    rw [forall_mem_cons] at hpath
    rw [foldl_cons, ih hpath.2, valueAt_modify, if_neg hpath.1.symm]

/-- Changes at different paths do not meet. -/
theorem valueAt_foldl_modify_of_mem (hnodup : (items.map path).Nodup) {item : α}
    (hitem : item ∈ items) (t : Trie κ ν) :
    valueAt new (path item)
        (items.foldl (fun t item => modify new (changes item) (path item) t) t) =
      changes item (valueAt new (path item) t) := by
  induction items generalizing t with
  | nil => cases hitem
  | cons first items ih =>
    rw [map_cons, nodup_cons] at hnodup
    rw [foldl_cons]
    obtain rfl | hitem := mem_cons.mp hitem
    · have hrest : ∀ other ∈ items, path other ≠ path item := fun other hother heq =>
        hnodup.1 (mem_map.mpr ⟨other, hother, heq⟩)
      rw [valueAt_foldl_modify_of_notMem changes hrest, valueAt_modify, if_pos rfl]
    · have hfirst : path item ≠ path first := fun heq =>
        hnodup.1 (mem_map.mpr ⟨item, hitem, heq⟩)
      rw [ih hnodup.2 hitem, valueAt_modify, if_neg hfirst]

end Fold

/-! ### Searches -/

variable {answer : ν → Option β}

theorem walk_leaf (best : Option β) (path : List κ) (value : ν) :
    walk answer best path (leaf value) = best := by
  cases path <;> rfl

section

variable (hnew : ∀ key, answer (new key) = none)
include hnew

/-- A search could as well go on through new nodes. -/
theorem walk_cons (best : Option β) (key : κ) (path : List κ) (t : Trie κ ν) :
    walk answer best (key :: path) t =
      walk answer ((answer (t.childOrNew new key).value).or best) path (t.childOrNew new key) := by
  rw [walk, childOrNew]
  cases t.child key with
  | none =>
    rw [Option.getD_none, walk_leaf, leaf, value, hnew]
    rfl
  | some next => rfl

theorem walk_eq (best : Option β) (path : List κ) (t : Trie κ ν) :
    walk answer ((answer t.value).or best) path t =
      (path.inits.reverse.findSome? fun front => answer (valueAt new front t)).or best := by
  induction path generalizing best t with
  | nil => simp [walk, valueAt]
  | cons key path ih =>
    rw [walk_cons hnew, ih, List.inits, reverse_cons, findSome?_append, Option.or_assoc,
      ← map_reverse, findSome?_map]
    simp [valueAt, Function.comp_def]

/-- The answer found is that of the longest part of the path which has one. -/
theorem deepest_eq (path : List κ) (t : Trie κ ν) :
    deepest answer path t =
      path.inits.reverse.findSome? fun front => answer (valueAt new front t) := by
  rw [deepest, ← Option.or_none (o := answer t.value), walk_eq hnew, Option.or_none]

end

end Trie
