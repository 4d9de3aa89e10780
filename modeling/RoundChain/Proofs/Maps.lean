import RoundChain.WordMap
import Mathlib.Data.List.Nodup
import Mathlib.Data.List.Sort

/-!
# Entries of maps

What the entries of a map are behind a change. A `WordMap` has each key once, so that setting the value at
a new key adds one entry to the others, `WordMap.perm_insert`, and a map is known by what its entries are,
`WordMap.eq_of_perm`. In a list of entries that may repeat a key, `lookup` finds what is left behind a
filter on keys.
-/

namespace RoundChain

/-! ### Lists of entries -/

section

variable {α β : Type} [BEq α] [LawfulBEq α] {key other : α}

theorem lookup_filter_ne (entries : List (α × β)) (h : other ≠ key) :
    (entries.filter fun e => e.1 != key).lookup other = entries.lookup other := by
  induction entries with
  | nil => rfl
  | cons e rest ih =>
    obtain ⟨first, value⟩ := e
    by_cases hfirst : first = key
    · have hother : (other == first) = false := by
        rw [hfirst]
        exact beq_false_of_ne h
      rw [List.filter_cons_of_neg (by simp [hfirst]), ih, List.lookup_cons, hother]
    · rw [List.filter_cons_of_pos (by simp [hfirst]), List.lookup_cons, List.lookup_cons, ih]

theorem lookup_filter_self (entries : List (α × β)) :
    (entries.filter fun e => e.1 != key).lookup key = none := by
  simp only [List.lookup_eq_none_iff, List.mem_filter, bne_iff_ne]
  exact fun e he => he.2.symm

end

/-! ### Maps keyed by words -/

namespace WordMap

variable {α : Type} {m n : WordMap α} {k : UInt64}

theorem contains_eq_true_iff : m.contains k = true ↔ ∃ v, (k, v) ∈ m.entries := by
  rw [contains, Option.isSome_iff_exists]
  exact exists_congr fun v => find?_eq_some_iff

theorem mem_keys_iff : k ∈ m.keys ↔ m.contains k = true := by
  rw [contains_eq_true_iff, keys, List.mem_map]
  constructor
  · rintro ⟨⟨_, v⟩, hmem, rfl⟩
    exact ⟨v, hmem⟩
  · rintro ⟨v, hmem⟩
    exact ⟨(k, v), hmem, rfl⟩

theorem contains_insert (m : WordMap α) (k k' : UInt64) (v : α) :
    (m.insert k v).contains k' = (k' == k || m.contains k') := by
  rw [contains, find?_insert]
  by_cases hk : k' = k
  · simp [hk]
  · simp [hk, contains]

/-- The keys of a map ascend. -/
theorem pairwise_keys (m : WordMap α) : m.keys.Pairwise (· < ·) := List.pairwise_map.mpr m.sorted

theorem nodup_keys (m : WordMap α) : m.keys.Nodup := m.pairwise_keys.imp UInt64.ne_of_lt

theorem nodup_entries (m : WordMap α) : m.entries.Nodup := List.Nodup.of_map _ m.nodup_keys

/-- A map is known by what its entries are, in whatever order. -/
theorem eq_of_perm (h : m.entries.Perm n.entries) : m = n := by
  refine WordMap.ext (List.Perm.eq_of_pairwise ?_ m.sorted n.sorted h)
  intro a b _ _ hab hba
  exact absurd hba (UInt64.lt_asymm hab)

/-- **Setting the value at a new key adds one entry.** -/
theorem perm_insert (v : α) (h : m.contains k = false) :
    (m.insert k v).entries.Perm ((k, v) :: m.entries) := by
  have hnew : (k, v) ∉ m.entries := by
    intro hmem
    rw [contains_eq_true_iff.mpr ⟨v, hmem⟩] at h
    cases h
  refine (List.perm_ext_iff_of_nodup (nodup_entries _) (List.nodup_cons.mpr ⟨hnew, m.nodup_entries⟩)).mpr ?_
  rintro ⟨k', v'⟩
  rw [← find?_eq_some_iff, find?_insert, List.mem_cons, ← find?_eq_some_iff, Prod.mk.injEq]
  by_cases hk : k' = k
  · subst hk
    have hnone : m.find? k' = none := by simpa [contains] using h
    simp [hnone, eq_comm]
  · simp [hk]

theorem insertEntry_of_lt {entries : List (UInt64 × α)} (v : α) (h : ∀ e ∈ entries, e.1 < k) :
    insertEntry k v entries = entries ++ [(k, v)] := by
  induction entries with
  | nil => rfl
  | cons e rest ih =>
    have hlt : e.1 < k := h e List.mem_cons_self
    rw [insertEntry, if_neg (UInt64.lt_asymm hlt), if_neg (UInt64.ne_of_lt hlt).symm,
      ih fun e' he' => h e' (List.mem_cons_of_mem _ he'), List.cons_append]

/-- A value at a key above all others is the last entry. -/
theorem entries_insert_of_lt (v : α) (h : ∀ e ∈ m.entries, e.1 < k) :
    (m.insert k v).entries = m.entries ++ [(k, v)] := insertEntry_of_lt v h

theorem size_insert (v : α) (h : m.contains k = false) : (m.insert k v).size = m.size + 1 :=
  (perm_insert v h).length_eq

end WordMap

end RoundChain
