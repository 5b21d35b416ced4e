import NemoRelay.Lib.OrderedMap
import Mathlib.Data.List.Count
import Mathlib.Data.List.Induction
import Mathlib.Data.Prod.Lex

/-!
# Tallies and groups

Counting and grouping the members of a list by key, in a map. The loops that fill the map go
through the list in order; what they compute is the number of occurrences of each key, and the
members with each key in the order of the list.

`lastMax` selects the last of the greatest members of a list. When no two members have the same
key, it does not depend on the order of the list. `firstMax` selects the first of them.
-/

namespace Tally

open OrderedMap List

variable {α κ : Type*} [LinearOrder κ]

/-! ### Counting -/

/-- One more occurrence of a key. -/
def bump (counts : OrderedMap κ Nat) (key : κ) : OrderedMap κ Nat :=
  counts.insert key ((counts.get key).getD 0 + 1)

def tally (keys : List κ) : OrderedMap κ Nat := keys.foldl bump .empty

theorem get_foldl_bump (keys : List κ) (counts : OrderedMap κ Nat) (key : κ) :
    (keys.foldl bump counts).get key =
      if key ∈ keys then some ((counts.get key).getD 0 + keys.count key) else counts.get key := by
  induction keys generalizing counts with
  | nil => rfl
  | cons first keys ih =>
    rw [foldl_cons, ih]
    obtain rfl | hne := eq_or_ne key first
    · rw [bump, get_insert_self, if_pos mem_cons_self, count_cons_self]
      by_cases hmem : key ∈ keys
      · rw [if_pos hmem, Option.getD_some]
        congr 1
        omega
      · rw [if_neg hmem, count_eq_zero_of_not_mem hmem]
    · simp [bump, get_insert_of_ne _ _ hne, hne, hne.symm]

theorem get_tally (keys : List κ) (key : κ) :
    (tally keys).get key = if key ∈ keys then some (keys.count key) else none := by
  rw [tally, get_foldl_bump]
  simp

theorem tally_append (first second : List κ) :
    tally (first ++ second) = second.foldl bump (tally first) := foldl_append

theorem tally_perm {keys keys' : List κ} (h : keys.Perm keys') : tally keys = tally keys' := by
  apply ext
  intro key
  rw [get_tally, get_tally, h.count_eq]
  simp only [h.mem_iff]

/-! ### Grouping -/

/-- One more member of a group. -/
def put (groups : OrderedMap κ (List α)) (entry : κ × α) : OrderedMap κ (List α) :=
  groups.insert entry.1 ((groups.get entry.1).getD [] ++ [entry.2])

def group (entries : List (κ × α)) : OrderedMap κ (List α) := entries.foldl put .empty

/-- The members with a key, in order. -/
def members (entries : List (κ × α)) (key : κ) : List α :=
  (entries.filter fun entry => entry.1 = key).map Prod.snd

variable {entries : List (κ × α)} {key : κ}

theorem mem_members {item : α} : item ∈ members entries key ↔ (key, item) ∈ entries := by
  simp [members]

theorem members_cons_self (entry : κ × α) (entries : List (κ × α)) :
    members (entry :: entries) entry.1 = entry.2 :: members entries entry.1 := by
  simp [members]

theorem members_cons_of_ne {entry : κ × α} (h : key ≠ entry.1) (entries : List (κ × α)) :
    members (entry :: entries) key = members entries key := by
  simp [members, h.symm]

/-- One more sample for the accumulator of a key. -/
def feed {β : Type*} (add : β → α → β) (initial : β) (accumulators : OrderedMap κ β)
    (entry : κ × α) : OrderedMap κ β :=
  accumulators.insert entry.1 (add ((accumulators.get entry.1).getD initial) entry.2)

theorem get_foldl_feed {β : Type*} {add : β → α → β} {initial : β} (entries : List (κ × α))
    (accumulators : OrderedMap κ β) (key : κ) :
    (entries.foldl (feed add initial) accumulators).get key =
      if members entries key = [] then accumulators.get key
      else some ((members entries key).foldl add ((accumulators.get key).getD initial)) := by
  induction entries generalizing accumulators with
  | nil => rfl
  | cons entry entries ih =>
    rw [foldl_cons, ih]
    obtain rfl | hne := eq_or_ne key entry.1
    · rw [members_cons_self, feed]
      by_cases hempty : members entries entry.1 = [] <;> simp [hempty]
    · rw [members_cons_of_ne hne, feed, get_insert_of_ne _ _ hne]

theorem get_foldl_put (entries : List (κ × α)) (groups : OrderedMap κ (List α)) (key : κ) :
    (entries.foldl put groups).get key =
      if members entries key = [] then groups.get key
      else some ((groups.get key).getD [] ++ members entries key) := by
  have happend : ∀ items first : List α,
      items.foldl (fun group item => group ++ [item]) first = first ++ items := by
    intro items
    induction items with
    | nil => simp
    | cons item items ih => simp [ih]
  have hput : @put α κ _ = feed (fun group item => group ++ [item]) [] := rfl
  rw [hput, get_foldl_feed, happend]

theorem get_group (entries : List (κ × α)) (key : κ) :
    (group entries).get key =
      if members entries key = [] then none else some (members entries key) := by
  rw [group, get_foldl_put]
  simp

variable {items : List α}

theorem group_eq_some :
    (group entries).get key = some items ↔ items = members entries key ∧ items ≠ [] := by
  rw [get_group]
  by_cases hempty : members entries key = []
  · simp only [hempty, if_true, reduceCtorEq, false_iff, not_and, not_not]
    exact id
  · rw [if_neg hempty, Option.some_inj]
    constructor
    · rintro rfl
      exact ⟨rfl, hempty⟩
    · exact fun h => h.1.symm

theorem length_members_le (entries : List (κ × α)) (key : κ) :
    (members entries key).length ≤ entries.length := by
  rw [members, length_map]
  exact length_filter_le _ _

theorem length_members_add {key' : κ} (h : key ≠ key') :
    (members entries key).length + (members entries key').length ≤ entries.length := by
  induction entries with
  | nil => simp [members]
  | cons entry entries ih =>
    simp only [members, length_map] at ih
    by_cases hk : entry.1 = key
    · have hk' : entry.1 ≠ key' := hk ▸ h
      simp [members, hk, hk ▸ hk']
      omega
    · by_cases hk' : entry.1 = key'
      · simp [members, hk', hk' ▸ hk]
        omega
      · simp [members, hk, hk']
        omega

/-- The first group, in the order of iteration, with a number of members. -/
def dominant (order : κ → Nat) (required : Nat) (entries : List (κ × α)) : Option (List α) :=
  (((group entries).iterate order).map Prod.snd).find? fun items => required ≤ items.length

variable {order : κ → Nat}

theorem mem_iterate_group :
    items ∈ ((group entries).iterate order).map Prod.snd ↔
      ∃ key, items = members entries key ∧ items ≠ [] := by
  simp only [mem_map, OrderedMap.mem_iterate, Prod.exists, group_eq_some, exists_eq_right]

variable {required : Nat}

theorem dominant_eq_members (h : dominant order required entries = some items) :
    ∃ key, items = members entries key := by
  obtain ⟨key, hitems, -⟩ := mem_iterate_group.mp (mem_of_find?_eq_some h)
  exact ⟨key, hitems⟩

/-- **Majority**: two groups cannot both have more than half of the members. -/
theorem dominant_eq_some (h : entries.length < 2 * required) :
    dominant order required entries = some items ↔
      ∃ key, items = members entries key ∧ required ≤ items.length := by
  constructor
  · intro hfind
    obtain ⟨key, hitems⟩ := dominant_eq_members hfind
    exact ⟨key, hitems, by simpa using find?_some hfind⟩
  · rintro ⟨key, rfl, hrequired⟩
    have hmem : members entries key ∈ ((group entries).iterate order).map Prod.snd := by
      refine mem_iterate_group.mpr ⟨key, rfl, ?_⟩
      intro hempty
      rw [hempty, length_nil] at hrequired
      omega
    cases hfind : dominant order required entries with
    | none =>
      have := find?_eq_none.mp hfind _ hmem
      simp only [decide_eq_true_eq] at this
      omega
    | some found =>
      obtain ⟨key', rfl⟩ := dominant_eq_members hfind
      have hfound : required ≤ (members entries key').length := by
        simpa using find?_some hfind
      by_cases hkey : key = key'
      · rw [hkey]
      · have hboth : (members entries key).length + (members entries key').length ≤
            entries.length := length_members_add hkey
        omega

/-- Two parts of a list with more members than the list have one in common. -/
theorem exists_mem_both {l : List α} {p q : α → Bool} (h : l.length < l.countP p + l.countP q) :
    ∃ a ∈ l, p a = true ∧ q a = true := by
  by_contra hdisjoint
  have hle : l.countP p ≤ l.countP fun a => decide ¬ q a = true :=
    countP_mono_left fun a ha hp => decide_eq_true fun hq => hdisjoint ⟨a, ha, hp, hq⟩
  have htotal := length_eq_countP_add_countP q (l := l)
  omega

theorem members_perm {entries' : List (κ × α)} (h : entries.Perm entries') (key : κ) :
    (members entries key).Perm (members entries' key) :=
  (h.filter _).map _

/-- The majority of a list is that of every rearrangement of it. -/
theorem dominant_perm {order' : κ → Nat} {entries' : List (κ × α)} (hperm : entries.Perm entries')
    (h : entries.length < 2 * required) :
    Option.Rel List.Perm (dominant order required entries) (dominant order' required entries') := by
  have h' : entries'.length < 2 * required := hperm.length_eq ▸ h
  cases hfirst : dominant order required entries with
  | none =>
    cases hsecond : dominant order' required entries' with
    | none => exact .none
    | some items =>
      obtain ⟨key, rfl, hrequired⟩ := (dominant_eq_some h').mp hsecond
      rw [← (members_perm hperm key).length_eq] at hrequired
      rw [(dominant_eq_some h).mpr ⟨key, rfl, hrequired⟩] at hfirst
      cases hfirst
  | some items =>
    obtain ⟨key, rfl, hrequired⟩ := (dominant_eq_some h).mp hfirst
    have hlength := (members_perm hperm key).length_eq
    rw [(dominant_eq_some h').mpr ⟨key, rfl, hlength ▸ hrequired⟩]
    exact .some (members_perm hperm key)

/-! ### Selection -/

/-- The last of the members with the greatest key. -/
def lastMax (key : α → κ) (items : List α) : Option α :=
  items.foldl (fun best item =>
    match best with
    | none => some item
    | some best => if key item < key best then some best else some item) none

variable (key : α → κ)

theorem lastMax_concat (items : List α) (item : α) :
    lastMax key (items ++ [item]) =
      match lastMax key items with
      | none => some item
      | some best => if key item < key best then some best else some item := by
  rw [lastMax, foldl_append]
  rfl

/-- A selection that is revised for every member, either way in favour of the greater key, selects
one of the greatest. -/
theorem exists_greatest {select : List α → Option α} (hnil : select [] = none)
    (hnone : ∀ {items last}, select items = none → select (items ++ [last]) = some last)
    (hsome : ∀ {items best last}, select items = some best →
      select (items ++ [last]) = some best ∧ key last ≤ key best ∨
        select (items ++ [last]) = some last ∧ key best ≤ key last) (hne : items ≠ []) :
    ∃ best, select items = some best ∧ best ∈ items ∧ ∀ item ∈ items, key item ≤ key best := by
  induction items using List.reverseRecOn with
  | nil => exact absurd rfl hne
  | append_singleton items last ih =>
    simp only [mem_append, mem_singleton, or_imp, forall_and, forall_eq]
    obtain rfl | hitems := eq_or_ne items []
    · exact ⟨last, hnone hnil, .inr rfl, by simp, le_rfl⟩
    obtain ⟨best, hbest, hmem, hle⟩ := ih hitems
    obtain ⟨hselect, hlast⟩ | ⟨hselect, hlast⟩ := @hsome _ _ last hbest
    · exact ⟨best, hselect, .inl hmem, hle, hlast⟩
    · exact ⟨last, hselect, .inr rfl, fun item hitem => (hle item hitem).trans hlast, le_rfl⟩

theorem lastMax_spec (hne : items ≠ []) :
    ∃ best, lastMax key items = some best ∧ best ∈ items ∧ ∀ item ∈ items, key item ≤ key best := by
  refine exists_greatest key rfl (fun h => by rw [lastMax_concat, h]) (fun h => ?_) hne
  rw [lastMax_concat, h]
  dsimp only
  split
  · rename_i hlt
    exact .inl ⟨rfl, hlt.le⟩
  · rename_i hlt
    exact .inr ⟨rfl, not_lt.mp hlt⟩

/-- Without ties the selection does not depend on the order. -/
theorem lastMax_perm {key : α → κ} {items' : List α} (h : items.Perm items')
    (hinj : ∀ a ∈ items, ∀ b ∈ items, key a = key b → a = b) :
    lastMax key items = lastMax key items' := by
  obtain rfl | hne := eq_or_ne items []
  · rw [nil_perm.mp h]
  have hne' : items' ≠ [] := by
    rintro rfl
    exact hne (perm_nil.mp h)
  obtain ⟨best, hbest, hmem, hle⟩ := lastMax_spec key hne
  obtain ⟨best', hbest', hmem', hle'⟩ := lastMax_spec key hne'
  rw [hbest, hbest']
  have hsame : key best = key best' :=
    le_antisymm (hle' best (h.mem_iff.mp hmem)) (hle best' (h.mem_iff.mpr hmem'))
  rw [hinj best hmem best' (h.mem_iff.mpr hmem') hsame]

/-- The first of the members with the greatest key. -/
def firstMax (key : α → κ) (items : List α) : Option α :=
  items.foldl (fun best item => if best.all (key · < key item) then some item else best) none

theorem firstMax_concat (items : List α) (item : α) :
    firstMax key (items ++ [item]) =
      if (firstMax key items).all (key · < key item) then some item else firstMax key items := by
  rw [firstMax, foldl_append]
  rfl

theorem firstMax_spec (hne : items ≠ []) :
    ∃ best, firstMax key items = some best ∧ best ∈ items ∧
      ∀ item ∈ items, key item ≤ key best := by
  refine exists_greatest key rfl (fun h => by rw [firstMax_concat, h]; rfl) (fun h => ?_) hne
  rw [firstMax_concat, h]
  split
  · rename_i hlt
    exact .inr ⟨rfl, (of_decide_eq_true hlt).le⟩
  · rename_i hlt
    exact .inl ⟨rfl, not_lt.mp (by simpa using hlt)⟩

/-- A first member that is one of the greatest is selected. -/
theorem firstMax_cons {key : α → κ} {first : α} (h : ∀ item ∈ items, key item ≤ key first) :
    firstMax key (first :: items) = some first := by
  induction items using List.reverseRecOn with
  | nil => rfl
  | append_singleton items last ih =>
    have hlast : key last ≤ key first := h last (by simp)
    rw [← cons_append, firstMax_concat, ih fun item hitem => h item (by simp [hitem])]
    simp [not_lt.mpr hlast]

end Tally
