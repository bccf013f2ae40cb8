/-
# Theory.Table — sums over a finite map

A table is a finite map from keys to values.  `total f t` adds up `f` over its
entries.  What an insertion and an erasure do to a total is said once here; the
number of entries with a property, the memory they take and any other account
that is kept in step with a table are totals.
-/
import Mathlib.Data.List.AList
import Mathlib.Algebra.BigOperators.Group.List.Basic
import Mathlib.Algebra.Order.Ring.Nat

namespace Baton.Theory

open Function

set_option autoImplicit false

abbrev Table (α β : Type) := AList fun _ : α => β

namespace Table

variable {α β : Type} [DecidableEq α]

def total (f : α → β → Nat) (t : Table α β) : Nat := (t.entries.map fun e => f e.1 e.2).sum

/-- The keys of the entries with a property. -/
def keysWhere (p : α → β → Bool) (t : Table α β) : List α :=
  (t.entries.filter fun e => p e.1 e.2).map Sigma.fst

/-- The value of one key is replaced by `f` of it; a missing key stays missing. -/
def modify (k : α) (f : β → β) (t : Table α β) : Table α β :=
  match t.lookup k with
  | none => t
  | some v => t.insert k (f v)

/-- The same keys, with `f` applied to every value. -/
def mapValues (f : β → β) (t : Table α β) : Table α β where
  entries := t.entries.map fun e => ⟨e.1, f e.2⟩
  nodupKeys := by
    have keys : (t.entries.map fun e => (⟨e.1, f e.2⟩ : (_ : α) × β)).keys = t.entries.keys := by
      simp [List.keys, comp_def]
    unfold List.NodupKeys
    rw [keys]
    exact t.nodupKeys

section Lemmas

variable {t t' : Table α β} {k : α} {v w : β} {f g : α → β → Nat} {p : α → β → Bool}

theorem lookup_eq_some_iff : t.lookup k = some v ↔ ⟨k, v⟩ ∈ t.entries := AList.mem_lookup_iff

theorem lookup_mapValues (h : β → β) : (mapValues h t).lookup k = (t.lookup k).map h := by
  apply Option.ext
  intro v
  rw [lookup_eq_some_iff]
  constructor
  · intro mem
    obtain ⟨⟨k', v'⟩, mem', same⟩ := List.mem_map.1 mem
    cases same
    simp [lookup_eq_some_iff.2 mem']
  · intro mapped
    obtain ⟨v', found, same⟩ := Option.map_eq_some_iff.1 mapped
    subst same
    exact List.mem_map.2 ⟨⟨k, v'⟩, lookup_eq_some_iff.1 found, rfl⟩

theorem sum_kerase (found : t.lookup k = some v) :
    ((List.kerase k t.entries).map fun e => f e.1 e.2).sum + f k v = t.total f := by
  have mem : k ∈ t.entries.keys := AList.mem_keys.1 (AList.lookup_isSome.1 (by simp [found]))
  obtain ⟨v', l₁, l₂, -, parts, erased⟩ := List.exists_of_kerase mem
  have same : v' = v := by
    have mem' : (⟨k, v'⟩ : (_ : α) × β) ∈ t.entries := by
      rw [parts]
      simp
    rw [lookup_eq_some_iff.2 mem'] at found
    exact Option.some.inj found
  subst same
  unfold total
  rw [erased, parts]
  simp only [List.map_append, List.map_cons, List.sum_append, List.sum_cons]
  omega

theorem total_insert_new (absent : t.lookup k = none) :
    total f (t.insert k v) = total f t + f k v := by
  unfold total
  rw [AList.entries_insert, List.kerase_of_notMem_keys (AList.lookup_eq_none.1 absent),
    List.map_cons, List.sum_cons]
  exact Nat.add_comm _ _

theorem total_insert_old (found : t.lookup k = some w) :
    total f (t.insert k v) + f k w = total f t + f k v := by
  have rest := sum_kerase (f := f) found
  have unfolded : total f (t.insert k v)
      = f k v + ((List.kerase k t.entries).map fun e => f e.1 e.2).sum := by
    unfold total
    rw [AList.entries_insert, List.map_cons, List.sum_cons]
  omega

theorem total_erase (found : t.lookup k = some v) : total f (t.erase k) + f k v = total f t :=
  sum_kerase found

/-- Writing a value with the same summand does not change a total. -/
theorem total_insert_same (found : t.lookup k = some w) (same : f k v = f k w) :
    total f (t.insert k v) = total f t := by
  have := total_insert_old (f := f) (v := v) found
  omega

theorem modify_of_lookup {h : β → β} (found : t.lookup k = some v) :
    modify k h t = t.insert k (h v) := by
  simp [modify, found]

theorem lookup_modify (h : β → β) (k' : α) :
    (modify k h t).lookup k' = if k' = k then (t.lookup k).map h else t.lookup k' := by
  unfold modify
  by_cases same : k' = k
  · subst same
    rw [if_pos rfl]
    split
    · rename_i absent
      rw [absent]
      rfl
    · rename_i v found
      rw [AList.lookup_insert, found]
      rfl
  · rw [if_neg same]
    split
    · rfl
    · rw [AList.lookup_insert_ne same]

/-- What a modification keeps of every value, a lookup keeps. -/
theorem map_lookup_modify {γ : Type} {g : β → γ} {h : β → β} (keeps : ∀ v, g (h v) = g v) (k' : α) :
    ((modify k h t).lookup k').map g = (t.lookup k').map g := by
  rw [lookup_modify]
  split
  · rename_i same
    rw [same, Option.map_map]
    congr 1
    funext v
    exact keeps v
  · rfl

theorem map_lookup_modify_update {γ : Type} {g : β → γ} {h : β → β} (found : t.lookup k = some v) :
    (fun k' => ((modify k h t).lookup k').map g)
      = update (fun k' => (t.lookup k').map g) k (some (g (h v))) := by
  funext k'
  rw [lookup_modify, update_apply]
  split
  · rw [found]
    rfl
  · rfl

theorem total_congr (same : ∀ k v, t.lookup k = some v → f k v = g k v) :
    total f t = total g t := by
  unfold total
  congr 1
  apply List.map_congr_left
  intro e mem
  exact same e.1 e.2 (lookup_eq_some_iff.2 mem)

theorem total_eq_zero (zero : ∀ k v, t.lookup k = some v → f k v = 0) : total f t = 0 := by
  rw [total_congr (g := fun _ _ => 0) zero]
  simp [total]

omit [DecidableEq α] in
theorem keysWhere_nodup : (keysWhere p t).Nodup := by
  have nodup : (t.entries.map Sigma.fst).Nodup := t.nodupKeys
  exact nodup.sublist (List.filter_sublist.map _)

theorem mem_keysWhere : k ∈ keysWhere p t ↔ ∃ v, t.lookup k = some v ∧ p k v = true := by
  unfold keysWhere
  simp only [List.mem_map, List.mem_filter]
  constructor
  · rintro ⟨⟨k', v⟩, ⟨mem, holds⟩, same⟩
    subst same
    exact ⟨v, lookup_eq_some_iff.2 mem, holds⟩
  · rintro ⟨v, found, holds⟩
    exact ⟨⟨k, v⟩, ⟨lookup_eq_some_iff.1 found, holds⟩, rfl⟩

omit [DecidableEq α] in
theorem length_keysWhere :
    (keysWhere p t).length = total (fun k v => if p k v then 1 else 0) t := by
  unfold keysWhere total
  rw [List.length_map]
  show _ = (t.entries.map fun e => if p e.1 e.2 then 1 else 0).sum
  induction t.entries with
  | nil => rfl
  | cons e rest ih =>
    simp only [List.filter_cons, List.map_cons, List.sum_cons]
    split
    · rw [List.length_cons, ih]
      omega
    · rw [ih]
      omega

/-- A list without repetitions of the keys with a property is as long as they are many. -/
theorem length_eq_total {l : List α} (nodup : l.Nodup)
    (members : ∀ k, k ∈ l ↔ ∃ v, t.lookup k = some v ∧ p k v = true) :
    l.length = total (fun k v => if p k v then 1 else 0) t := by
  rw [← length_keysWhere]
  apply List.Perm.length_eq
  rw [List.perm_ext_iff_of_nodup nodup keysWhere_nodup]
  intro k
  rw [members k, mem_keysWhere]

/-- A sum over a list of the keys is a total. -/
theorem sum_keys {ids : List α} (nodup : ids.Nodup) (mem : ∀ k, k ∈ ids ↔ k ∈ t) :
    (ids.map fun k => (t.lookup k).elim 0 (f k)).sum = total f t := by
  have perm : ids.Perm t.keys := by
    rw [List.perm_ext_iff_of_nodup nodup t.keys_nodup]
    intro k
    rw [mem, AList.mem_keys]
  rw [(perm.map _).sum_eq]
  unfold total AList.keys List.keys
  rw [List.map_map]
  congr 1
  apply List.map_congr_left
  intro e mem_e
  have found : t.lookup e.1 = some e.2 := lookup_eq_some_iff.2 mem_e
  simp [found]

end Lemmas

end Table

end Baton.Theory
