/-!
# Finite maps keyed by words

A `WordMap` lists its entries by ascending key, and each key once: that is part of
the type. Looking up after inserting or erasing is what `find?_insert` and
`find?_erase` say.
-/

namespace RoundChain

/-- A finite map from 64-bit words, its entries in ascending order of their keys. -/
structure WordMap (α : Type) where
  entries : List (UInt64 × α)
  sorted : entries.Pairwise fun a b => a.1 < b.1

namespace WordMap

variable {α : Type}

@[ext] theorem ext {m n : WordMap α} (h : m.entries = n.entries) : m = n := by
  cases m; cases n; cases h; rfl

instance [DecidableEq α] : DecidableEq (WordMap α) := fun m n =>
  decidable_of_iff (m.entries = n.entries) ⟨WordMap.ext, fun h => h ▸ rfl⟩

instance [Repr α] : Repr (WordMap α) := ⟨fun m k => reprPrec m.entries k⟩

/-- The map without entries. -/
def empty : WordMap α := ⟨[], .nil⟩

instance : Inhabited (WordMap α) := ⟨empty⟩

/-- The keys, ascending. -/
def keys (m : WordMap α) : List UInt64 := m.entries.map (·.1)

/-- The number of entries. -/
def size (m : WordMap α) : Nat := m.entries.length

/-- The value at a key. -/
def find? (m : WordMap α) (k : UInt64) : Option α := (m.entries.find? (·.1 == k)).map (·.2)

/-- Whether a key has a value. -/
def contains (m : WordMap α) (k : UInt64) : Bool := (m.find? k).isSome

/-! ### Changing a map -/

/-- Entries with the value at a key set. -/
def insertEntry (k : UInt64) (v : α) : List (UInt64 × α) → List (UInt64 × α)
  | [] => [(k, v)]
  | e :: rest =>
    if k < e.1 then (k, v) :: e :: rest
    else if k = e.1 then (k, v) :: rest
    else e :: insertEntry k v rest

theorem key_of_mem_insertEntry {k : UInt64} {v : α} {es : List (UInt64 × α)} {e : UInt64 × α}
    (h : e ∈ insertEntry k v es) : e.1 = k ∨ e ∈ es := by
  induction es with
  | nil => simp [insertEntry] at h; exact .inl (by rw [h])
  | cons e' rest ih =>
    unfold insertEntry at h
    split at h
    · rcases List.mem_cons.mp h with rfl | h
      · exact .inl rfl
      · exact .inr h
    · split at h
      · rcases List.mem_cons.mp h with rfl | h
        · exact .inl rfl
        · exact .inr (List.mem_cons_of_mem _ h)
      · rcases List.mem_cons.mp h with rfl | h
        · exact .inr (List.mem_cons_self ..)
        · rcases ih h with h | h
          · exact .inl h
          · exact .inr (List.mem_cons_of_mem _ h)

theorem sorted_insertEntry {k : UInt64} {v : α} {es : List (UInt64 × α)}
    (h : es.Pairwise fun a b => a.1 < b.1) :
    (insertEntry k v es).Pairwise fun a b => a.1 < b.1 := by
  induction es with
  | nil => simp [insertEntry]
  | cons e rest ih =>
    obtain ⟨hhead, htail⟩ := List.pairwise_cons.mp h
    unfold insertEntry
    split
    · rename_i hk
      refine List.pairwise_cons.mpr ⟨fun a ha => ?_, h⟩
      rcases List.mem_cons.mp ha with rfl | ha
      · exact hk
      · exact UInt64.lt_trans hk (hhead a ha)
    · split
      · rename_i hk
        exact List.pairwise_cons.mpr ⟨fun a ha => hk ▸ hhead a ha, htail⟩
      · rename_i hlt hne
        refine List.pairwise_cons.mpr ⟨fun a ha => ?_, ih htail⟩
        rcases key_of_mem_insertEntry ha with hak | ha
        · have := UInt64.not_lt.mp hlt
          rw [hak]
          exact UInt64.lt_of_le_of_ne this (fun heq => hne heq.symm)
        · exact hhead a ha

/-- The map with the value at a key set. -/
def insert (m : WordMap α) (k : UInt64) (v : α) : WordMap α :=
  ⟨insertEntry k v m.entries, sorted_insertEntry m.sorted⟩

/-- The map with the entries that pass a test. -/
def filter (m : WordMap α) (p : UInt64 → α → Bool) : WordMap α :=
  ⟨m.entries.filter fun e => p e.1 e.2, m.sorted.filter _⟩

/-- The map without a value at a key. -/
def erase (m : WordMap α) (k : UInt64) : WordMap α := m.filter fun k' _ => k' != k

/-! ### Looking up -/

@[simp] theorem find?_empty (k : UInt64) : (empty : WordMap α).find? k = none := rfl

theorem find?_insert (m : WordMap α) (k k' : UInt64) (v : α) :
    (m.insert k v).find? k' = if k' = k then some v else m.find? k' := by
  obtain ⟨es, hs⟩ := m
  simp only [insert, find?]
  induction es with
  | nil =>
    simp only [insertEntry, List.find?_cons, List.find?_nil]
    by_cases h : k' = k
    · simp [h]
    · have hne : (k == k') = false := by simpa using Ne.symm h
      simp [h, hne]
  | cons e rest ih =>
    obtain ⟨hhead, htail⟩ := List.pairwise_cons.mp hs
    unfold insertEntry
    by_cases hkk : k' = k
    · subst hkk
      by_cases hlt : k' < e.1
      · simp [hlt]
      · by_cases heq : k' = e.1
        · simp [heq]
        · have hne : (e.1 == k') = false := by simpa using Ne.symm heq
          simp only [if_neg hlt, if_neg heq, List.find?_cons, hne]
          simpa using ih htail
    · simp only [if_neg hkk]
      by_cases hlt : k < e.1
      · have hne : (k == k') = false := by simpa using Ne.symm hkk
        simp [hlt, List.find?_cons, hne]
      · by_cases heq : k = e.1
        · have hne : (k == k') = false := by simpa using Ne.symm hkk
          have hne' : (e.1 == k') = false := by rw [← heq]; exact hne
          simp only [if_neg hlt, if_pos heq, List.find?_cons, hne, hne']
        · simp only [if_neg hlt, if_neg heq, List.find?_cons]
          cases hb : (e.1 == k')
          · simpa [hkk] using ih htail
          · rfl

theorem find?_erase (m : WordMap α) (k k' : UInt64) :
    (m.erase k).find? k' = if k' = k then none else m.find? k' := by
  obtain ⟨es, hs⟩ := m
  simp only [erase, filter, find?, List.find?_filter]
  by_cases hkk : k' = k
  · subst hkk
    rw [if_pos rfl, Option.map_eq_none_iff, List.find?_eq_none]
    intro e _
    simp
  · rw [if_neg hkk]
    congr 2
    funext e
    by_cases he : e.1 = k'
    · simp [he, hkk]
    · simp [he]

/-- The values are those of the entries. -/
theorem find?_eq_some_iff {m : WordMap α} {k : UInt64} {v : α} : m.find? k = some v ↔ (k, v) ∈ m.entries := by
  obtain ⟨es, hs⟩ := m
  simp only [find?]
  induction es with
  | nil => simp
  | cons e rest ih =>
    obtain ⟨hhead, htail⟩ := List.pairwise_cons.mp hs
    obtain ⟨key, value⟩ := e
    rw [List.find?_cons, List.mem_cons]
    by_cases hkey : key = k
    · subst hkey
      have hrest : (key, v) ∉ rest := fun hmem => UInt64.lt_irrefl key (hhead _ hmem)
      simp [hrest, eq_comm]
    · have hne : (key == k) = false := by simpa using hkey
      simpa [hne, Ne.symm hkey] using ih htail

/-- What is left of an entry is decided by its own value. -/
theorem find?_filter (m : WordMap α) (p : UInt64 → α → Bool) (k : UInt64) :
    (m.filter p).find? k = (m.find? k).filter (p k) := by
  ext v
  rw [find?_eq_some_iff, Option.filter_eq_some_iff, find?_eq_some_iff]
  exact List.mem_filter

end WordMap

end RoundChain
