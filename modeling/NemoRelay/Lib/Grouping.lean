import Mathlib.Data.List.Pairwise
import NemoRelay.Lib.Tally

/-!
# Groups and their pairing

Two families of groups are paired: the groups of one key are paired member by member, if they have
the same size.
-/

namespace Grouping

open List

variable {κ α β ν : Type*} [LinearOrder κ] {l : List α}

open OrderedMap Tally

/-! ### Pairs -/

section Pairs

variable {left : OrderedMap κ (List α)} {right : OrderedMap κ (List β)} {order : κ → Nat}

/-- The pairs of one group. -/
def pairsOf (right : OrderedMap κ (List β)) (group : κ × List α) : List (α × β) :=
  match right.get group.1 with
  | some others => if group.2.length = others.length then group.2.zip others else []
  | none => []

def pairs (order : κ → Nat) (left : OrderedMap κ (List α)) (right : OrderedMap κ (List β)) :
    List (α × β) :=
  (left.iterate order).flatMap (pairsOf right)

/-- Two members that are paired. -/
def Paired (left : κ → List α) (right : κ → List β) (a : α) (b : β) : Prop :=
  ∃ key, (left key).length = (right key).length ∧ (a, b) ∈ (left key).zip (right key)

theorem mem_pairsOf {group : κ × List α} {pair : α × β} :
    pair ∈ pairsOf right group ↔ ∃ others, right.get group.1 = some others ∧
      group.2.length = others.length ∧ pair ∈ group.2.zip others := by
  unfold pairsOf
  cases right.get group.1 with
  | none => simp
  | some others =>
    by_cases hlength : group.2.length = others.length <;> simp [hlength]

variable {a : α} {b : β}

theorem mem_pairs {entries : List (κ × α)} {entries' : List (κ × β)} :
    (a, b) ∈ pairs order (group entries) (group entries') ↔
      Paired (members entries) (members entries') a b := by
  rw [pairs, mem_flatMap]
  constructor
  · rintro ⟨⟨key, items⟩, hitems, hpair⟩
    have hitems : (group entries).get key = some items := (OrderedMap.mem_iterate order).mp hitems
    obtain ⟨others, hothers, hlength, hpair⟩ := mem_pairsOf.mp hpair
    obtain ⟨rfl, -⟩ := group_eq_some.mp hitems
    obtain ⟨rfl, -⟩ := group_eq_some.mp hothers
    exact ⟨key, hlength, hpair⟩
  · rintro ⟨key, hlength, hpair⟩
    have hmem := of_mem_zip hpair
    refine ⟨(key, members entries key), ?_, mem_pairsOf.mpr ⟨members entries' key, ?_, hlength,
      hpair⟩⟩
    · rw [OrderedMap.mem_iterate]
      exact group_eq_some.mpr ⟨rfl, ne_nil_of_mem hmem.1⟩
    · exact group_eq_some.mpr ⟨rfl, ne_nil_of_mem hmem.2⟩

variable {l' : List β}

theorem mem_zip_iff : (a, b) ∈ l.zip l' ↔ ∃ i : Nat, l[i]? = some a ∧ l'[i]? = some b := by
  rw [mem_iff_getElem?]
  simp only [getElem?_zip_eq_some]

theorem index_unique {i j : Nat} (hl : l.Nodup) (hi : l[i]? = some a) (hj : l[j]? = some a) :
    i = j := by
  have hlt : i < l.length := (List.getElem?_eq_some_iff.mp hi).1
  exact (getElem?_inj hlt hl).mp (hi.trans hj.symm)

/-- In a group without repetitions a member is paired once. -/
theorem zip_right_unique {b' : β} (hl : l.Nodup) (h : (a, b) ∈ l.zip l') (h' : (a, b') ∈ l.zip l') :
    b = b' := by
  obtain ⟨i, hi, hb⟩ := mem_zip_iff.mp h
  obtain ⟨j, hj, hb'⟩ := mem_zip_iff.mp h'
  obtain rfl := index_unique hl hi hj
  exact Option.some_inj.mp (hb.symm.trans hb')

theorem zip_left_unique {a' : α} (hl : l'.Nodup) (h : (a, b) ∈ l.zip l') (h' : (a', b) ∈ l.zip l') :
    a = a' := by
  obtain ⟨i, ha, hi⟩ := mem_zip_iff.mp h
  obtain ⟨j, ha', hj⟩ := mem_zip_iff.mp h'
  obtain rfl := index_unique hl hi hj
  exact Option.some_inj.mp (ha.symm.trans ha')

/-- Without repetitions a value has one origin. -/
theorem eq_of_nodup_filterMap {f : α → Option β} {a' : α} (h : (l.filterMap f).Nodup) (ha : a ∈ l)
    (ha' : a' ∈ l) (hb : f a = some b) (hb' : f a' = some b) : a = a' := by
  have : Std.Symm fun a a' : α => ∀ b, f a = some b → ∀ b', f a' = some b' → b ≠ b' :=
    ⟨fun _ _ hne b hb b' hb' heq => hne b' hb' b hb heq.symm⟩
  by_contra hne
  exact (pairwise_filterMap.mp h).forall ha ha' hne b hb b hb' rfl

theorem filterMap_eq_of_zip {f : α → Option β} (hlength : l.length = l'.length)
    (h : ∀ a b, (a, b) ∈ l.zip l' → f a = some b) : l.filterMap f = l' := by
  induction l generalizing l' with
  | nil => exact (length_eq_zero_iff.mp hlength.symm).symm
  | cons a l ih =>
    cases l' with
    | nil => exact absurd hlength (Nat.succ_ne_zero _)
    | cons b l' =>
      rw [filterMap_cons_some (h a b mem_cons_self)]
      refine congrArg (b :: ·) (ih (Nat.succ.inj hlength) ?_)
      exact fun a b hmem => h a b (mem_cons_of_mem _ hmem)

end Pairs

/-! ### Entering pairs into a table -/

section Overwrite

variable {m : OrderedMap κ ν} {entries : List (κ × ν)} {key : κ} {v : ν}

def overwrite (m : OrderedMap κ ν) (entries : List (κ × ν)) : OrderedMap κ ν :=
  entries.foldl (fun m entry => m.insert entry.1 entry.2) m

theorem get_overwrite_of_notMem (h : ∀ v, (key, v) ∉ entries) :
    (overwrite m entries).get key = m.get key := by
  induction entries generalizing m with
  | nil => rfl
  | cons entry entries ih =>
    have hne : key ≠ entry.1 := fun hkey => h entry.2 (hkey ▸ mem_cons_self)
    refine (ih fun v hv => h v (mem_cons_of_mem _ hv)).trans ?_
    exact get_insert_of_ne m _ hne

/-- The last entry of a key is one of its entries. -/
theorem get_overwrite_of_mem (h : (key, v) ∈ entries) :
    ∃ v', (overwrite m entries).get key = some v' ∧ (key, v') ∈ entries := by
  induction entries generalizing m v with
  | nil => exact absurd h not_mem_nil
  | cons entry entries ih =>
    by_cases hrest : ∃ v, (key, v) ∈ entries
    · obtain ⟨v, hv⟩ := hrest
      obtain ⟨v', hget, hmem⟩ := ih hv
      exact ⟨v', hget, mem_cons_of_mem _ hmem⟩
    · push Not at hrest
      obtain rfl : (key, v) = entry := (mem_cons.mp h).resolve_right (hrest v)
      refine ⟨v, ?_, mem_cons_self⟩
      exact (get_overwrite_of_notMem hrest).trans (get_insert_self m key v)

/-- Values entered under their own keys. -/
def enter (key : ν → κ) (m : OrderedMap κ ν) (values : List ν) : OrderedMap κ ν :=
  overwrite m (values.map fun v => (key v, v))

variable {keyOf : ν → κ} {values : List ν}

theorem mem_of_mem_enter (h : v ∈ (enter keyOf .empty values).entries.map Prod.snd) :
    v ∈ values := by
  obtain ⟨⟨key, _⟩, hentry, rfl⟩ := mem_map.mp h
  rw [mem_entries] at hentry
  by_cases hkey : ∃ v, (key, v) ∈ values.map fun v => (keyOf v, v)
  · obtain ⟨v, hv⟩ := hkey
    obtain ⟨v', hget, hv'⟩ := get_overwrite_of_mem hv
    obtain rfl := Option.some_inj.mp (hget.symm.trans hentry)
    obtain ⟨w, hw, heq⟩ := mem_map.mp hv'
    cases heq
    exact hw
  · push Not at hkey
    exact nomatch (get_overwrite_of_notMem hkey).symm.trans hentry

theorem exists_mem_enter (h : v ∈ values) :
    ∃ v' ∈ (enter keyOf m values).entries.map Prod.snd, keyOf v' = keyOf v := by
  have hentry : (keyOf v, v) ∈ values.map fun v => (keyOf v, v) := mem_map_of_mem h
  obtain ⟨v', hget, hv'⟩ := get_overwrite_of_mem hentry
  refine ⟨v', mem_map.mpr ⟨_, mem_entries.mpr hget, rfl⟩, ?_⟩
  obtain ⟨w, -, heq⟩ := mem_map.mp hv'
  obtain ⟨hkey, rfl⟩ := Prod.mk.inj heq
  exact hkey

end Overwrite

end Grouping
