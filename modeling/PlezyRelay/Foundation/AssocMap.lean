/-
  PlezyRelay/Foundation/AssocMap.lean
  ===================================
  **Finite maps with unique keys, as a mutable hash map is used.**

  A map is a Mathlib `AList`: a list of entries whose keys are pairwise distinct.
  `AList` brings lookup, insertion and erasure; what a program that owns a hash
  map does besides is added here: in-place modification of one entry, `retain`,
  the number of entries, and a map over the values.  The order of the entries
  plays the part of the (unspecified) iteration order.

  Every operation gets one equation saying what a lookup in its result finds, and
  one saying how it moves the number of entries.  Nothing in the file depends on
  what the keys or the values are.
-/
import Mathlib.Data.List.AList

universe u v w

/-- A finite map from `κ` to `ν` with unique keys. -/
abbrev AssocMap (κ : Type u) (ν : Type v) := AList (fun _ : κ => ν)

namespace AList

variable {κ : Type u} {ν : Type v} {ν' : Type w}

/-- The number of entries. -/
def size (m : AssocMap κ ν) : Nat := m.entries.length

/-- The values, in iteration order. -/
def values (m : AssocMap κ ν) : List ν := m.entries.map (·.2)

/-- Keep exactly the entries that satisfy `keep`. -/
def retain (keep : κ → ν → Bool) (m : AssocMap κ ν) : AssocMap κ ν :=
  ⟨m.entries.filter fun e => keep e.1 e.2, m.nodupKeys.sublist (List.filter_sublist)⟩

/-- Apply `f` to every value. -/
def mapValues (f : κ → ν → ν') (m : AssocMap κ ν) : AssocMap κ ν' :=
  ⟨m.entries.map fun e => ⟨e.1, f e.1 e.2⟩, m.nodupKeys.map₂ f m.entries⟩

@[simp] theorem size_empty : size (∅ : AssocMap κ ν) = 0 := rfl

theorem size_eq_length_keys (m : AssocMap κ ν) : m.size = m.keys.length := by
  simp [size, keys, List.keys]

@[simp] theorem size_mapValues (f : κ → ν → ν') (m : AssocMap κ ν) :
    (mapValues f m).size = m.size := by
  simp [size, mapValues]

theorem size_retain_le (keep : κ → ν → Bool) (m : AssocMap κ ν) :
    (retain keep m).size ≤ m.size :=
  List.length_filter_le _ _

theorem size_pos_of_mem {m : AssocMap κ ν} {a : κ} (h : a ∈ m) : 0 < m.size := by
  rw [size_eq_length_keys]
  exact List.length_pos_of_mem (mem_keys.mp h)

theorem notMem_of_size_eq_zero {m : AssocMap κ ν} (h : m.size = 0) (a : κ) : a ∉ m :=
  fun ha => absurd (size_pos_of_mem ha) (by omega)

/-- A map whose keys all occur in a duplicate-free list is no larger than it. -/
theorem size_le_of_keys_subset {m : AssocMap κ ν} {l : List κ} (h : ∀ a ∈ m, a ∈ l) :
    m.size ≤ l.length := by
  rw [size_eq_length_keys]
  exact List.Nodup.length_le_of_subset m.keys_nodup fun a ha => h a (mem_keys.mpr ha)

/-- Maps with the same keys have the same size. -/
theorem size_eq_of_mem_iff {m : AssocMap κ ν} {m' : AssocMap κ ν'}
    (h : ∀ a, a ∈ m ↔ a ∈ m') : m.size = m'.size := by
  apply Nat.le_antisymm
  · rw [size_eq_length_keys m']
    exact size_le_of_keys_subset fun a ha => mem_keys.mp ((h a).mp ha)
  · rw [size_eq_length_keys m]
    exact size_le_of_keys_subset fun a ha => mem_keys.mp ((h a).mpr ha)

/-- `retain` keeps the number of entries only when it keeps them all. -/
theorem retain_eq_self_of_size {keep : κ → ν → Bool} {m : AssocMap κ ν}
    (h : (retain keep m).size = m.size) : retain keep m = m := by
  apply AList.ext
  exact List.filter_eq_self.mpr (List.length_filter_eq_length_iff.mp h)

variable [DecidableEq κ]

/-- Rewrite the value stored under `a` in place, if there is one. -/
def modify (a : κ) (f : ν → ν) (m : AssocMap κ ν) : AssocMap κ ν :=
  mapValues (fun b v => if b = a then f v else v) m

/-- Whether `a` is a key. -/
def contains (m : AssocMap κ ν) (a : κ) : Bool := (m.lookup a).isSome

/-! ### Lookups -/

theorem mem_iff_lookup {m : AssocMap κ ν} {a : κ} : a ∈ m ↔ ∃ v, m.lookup a = some v := by
  rw [← lookup_isSome, Option.isSome_iff_exists]

theorem mem_of_lookup {m : AssocMap κ ν} {a : κ} {v : ν} (h : m.lookup a = some v) : a ∈ m :=
  mem_iff_lookup.mpr ⟨v, h⟩

@[simp] theorem contains_iff {m : AssocMap κ ν} {a : κ} : m.contains a = true ↔ a ∈ m := by
  rw [contains, lookup_isSome]

theorem contains_eq_false {m : AssocMap κ ν} {a : κ} : m.contains a = false ↔ a ∉ m := by
  rw [← contains_iff, Bool.not_eq_true]

theorem mem_entries_iff {m : AssocMap κ ν} {a : κ} {v : ν} :
    ⟨a, v⟩ ∈ m.entries ↔ m.lookup a = some v :=
  (mem_lookup_iff (s := m)).symm

theorem mem_values {m : AssocMap κ ν} {v : ν} : v ∈ m.values ↔ ∃ a, m.lookup a = some v := by
  simp only [values, List.mem_map]
  constructor
  · rintro ⟨⟨a, v⟩, hmem, rfl⟩
    exact ⟨a, mem_entries_iff.mp hmem⟩
  · rintro ⟨a, ha⟩
    exact ⟨⟨a, v⟩, mem_entries_iff.mpr ha, rfl⟩

/-- No value occurs twice if no two keys share one. -/
theorem nodup_values {m : AssocMap κ ν}
    (h : ∀ a b v, m.lookup a = some v → m.lookup b = some v → a = b) : m.values.Nodup := by
  refine List.Nodup.map_on ?_ m.nodupKeys.nodup
  rintro ⟨a, v⟩ ha ⟨b, v'⟩ hb heq
  have hvalues : v = v' := heq
  subst hvalues
  rw [h a b v (mem_entries_iff.mp ha) (mem_entries_iff.mp hb)]

theorem lookup_insert_eq (m : AssocMap κ ν) (a b : κ) (v : ν) :
    (m.insert a v).lookup b = if b = a then some v else m.lookup b := by
  by_cases h : b = a
  · subst h; simp
  · rw [if_neg h, lookup_insert_ne h]

theorem lookup_erase_eq (m : AssocMap κ ν) (a b : κ) :
    (m.erase a).lookup b = if b = a then none else m.lookup b := by
  by_cases h : b = a
  · subst h; simp
  · rw [if_neg h, lookup_erase_ne h]

theorem lookup_mapValues (f : κ → ν → ν') (m : AssocMap κ ν) (b : κ) :
    (mapValues f m).lookup b = (m.lookup b).map (f b) :=
  List.dlookup_map₂ b

theorem lookup_modify (a : κ) (f : ν → ν) (m : AssocMap κ ν) (b : κ) :
    (modify a f m).lookup b = if b = a then (m.lookup b).map f else m.lookup b := by
  rw [modify, lookup_mapValues]
  by_cases h : b = a
  · simp [h]
  · simp [h]

theorem lookup_retain (keep : κ → ν → Bool) (m : AssocMap κ ν) (b : κ) :
    (retain keep m).lookup b = (m.lookup b).filter (keep b) := by
  -- both sides are determined by which entries they hold
  apply Option.ext
  intro v
  have hleft : (retain keep m).lookup b = some v ↔ ⟨b, v⟩ ∈ (retain keep m).entries :=
    mem_entries_iff.symm
  rw [hleft, Option.filter_eq_some_iff]
  simp only [retain, List.mem_filter, mem_entries_iff]

@[simp] theorem mem_mapValues {f : κ → ν → ν'} {m : AssocMap κ ν} {b : κ} :
    b ∈ mapValues f m ↔ b ∈ m := by
  simp only [mem_iff_lookup, lookup_mapValues, Option.map_eq_some_iff]
  constructor
  · rintro ⟨_, v, hv, _⟩; exact ⟨v, hv⟩
  · rintro ⟨v, hv⟩; exact ⟨_, v, hv, rfl⟩

@[simp] theorem mem_modify {a : κ} {f : ν → ν} {m : AssocMap κ ν} {b : κ} :
    b ∈ modify a f m ↔ b ∈ m := by
  simp [modify]

theorem mem_retain {keep : κ → ν → Bool} {m : AssocMap κ ν} {b : κ} :
    b ∈ retain keep m ↔ ∃ v, m.lookup b = some v ∧ keep b v = true := by
  simp only [mem_iff_lookup, lookup_retain, Option.filter_eq_some_iff]

theorem mem_of_mem_retain {keep : κ → ν → Bool} {m : AssocMap κ ν} {b : κ}
    (h : b ∈ retain keep m) : b ∈ m := by
  obtain ⟨v, hv, _⟩ := mem_retain.mp h
  exact mem_of_lookup hv

/-! ### Number of entries -/

@[simp] theorem size_modify (a : κ) (f : ν → ν) (m : AssocMap κ ν) :
    (modify a f m).size = m.size := by
  simp [modify]

theorem size_erase_of_mem {m : AssocMap κ ν} {a : κ} (h : a ∈ m) :
    (m.erase a).size + 1 = m.size := by
  rw [size_eq_length_keys, size_eq_length_keys, keys_erase]
  have hmem : a ∈ m.keys := mem_keys.mp h
  rw [List.length_erase_of_mem hmem]
  have : 0 < m.keys.length := List.length_pos_of_mem hmem
  omega

theorem size_erase_of_notMem {m : AssocMap κ ν} {a : κ} (h : a ∉ m) :
    (m.erase a).size = m.size := by
  rw [size_eq_length_keys, size_eq_length_keys, keys_erase,
    List.erase_of_not_mem (fun hm => h (mem_keys.mpr hm))]

theorem size_erase_le (m : AssocMap κ ν) (a : κ) : (m.erase a).size ≤ m.size := by
  by_cases h : a ∈ m
  · have := size_erase_of_mem h; omega
  · rw [size_erase_of_notMem h]

theorem size_insert_of_mem {m : AssocMap κ ν} {a : κ} {v : ν} (h : a ∈ m) :
    (m.insert a v).size = m.size := by
  have herase := size_erase_of_mem h
  rw [size_eq_length_keys, keys_insert, ← keys_erase, List.length_cons,
    ← size_eq_length_keys]
  exact herase

theorem size_insert_of_notMem {m : AssocMap κ ν} {a : κ} {v : ν} (h : a ∉ m) :
    (m.insert a v).size = m.size + 1 := by
  have herase := size_erase_of_notMem h
  rw [size_eq_length_keys, keys_insert, ← keys_erase, List.length_cons,
    ← size_eq_length_keys, herase]

/-! ### In-place modification and the other operations -/

theorem erase_modify (a b : κ) (f : ν → ν) (m : AssocMap κ ν) :
    (modify a f m).erase b = modify a f (m.erase b) := by
  apply AList.ext
  exact List.eraseP_map

/-- Inserting under another key does not see the modification. -/
theorem insert_modify {a b : κ} (h : b ≠ a) (f : ν → ν) (v : ν) (m : AssocMap κ ν) :
    (modify a f m).insert b v = modify a f (m.insert b v) := by
  have herase := congrArg AList.entries (erase_modify a b f m)
  apply AList.ext
  simp only [entries_insert, modify, mapValues, List.map_cons, if_neg h]
  exact congrArg _ herase

/-- Nor does `retain`, if the modified value is kept or dropped as the old one was. -/
theorem retain_modify {keep : κ → ν → Bool} {a : κ} {f : ν → ν} {m : AssocMap κ ν}
    (h : ∀ v, m.lookup a = some v → keep a (f v) = keep a v) :
    (modify a f m).retain keep = modify a f (m.retain keep) := by
  apply AList.ext
  simp only [retain, modify, mapValues, List.filter_map]
  congr 1
  apply List.filter_congr
  rintro ⟨b, v⟩ hmem
  by_cases hb : b = a
  · subst hb
    simpa using h v (mem_entries_iff.mp hmem)
  · simp [hb]

theorem modify_modify_comm {a b : κ} (h : a ≠ b) (f g : ν → ν) (m : AssocMap κ ν) :
    modify a f (modify b g m) = modify b g (modify a f m) := by
  apply AList.ext
  simp only [modify, mapValues, List.map_map]
  apply List.map_congr_left
  rintro ⟨c, v⟩ _
  by_cases hca : c = a
  · subst hca
    simp [h]
  · by_cases hcb : c = b
    · subst hcb
      simp [hca]
    · simp [hca, hcb]

/-- Two modifications that cancel out on the value that is there. -/
theorem modify_modify_self {a : κ} {f g : ν → ν} {m : AssocMap κ ν}
    (h : ∀ v, m.lookup a = some v → g (f v) = v) : modify a g (modify a f m) = m := by
  apply AList.ext
  simp only [modify, mapValues, List.map_map]
  refine (List.map_congr_left ?_).trans (List.map_id _)
  rintro ⟨b, v⟩ hmem
  by_cases hb : b = a
  · subst hb
    simp [h v (mem_entries_iff.mp hmem)]
  · simp [hb]

/-! ### Counting values -/

theorem countP_values_insert {m : AssocMap κ ν} {a : κ} {v : ν} (p : ν → Bool)
    (h : m.lookup a = none) :
    (m.insert a v).values.countP p = m.values.countP p + if p v then 1 else 0 := by
  have ha : a ∉ m.keys := fun hmem => lookup_eq_none.mp h (mem_keys.mpr hmem)
  have hentries : (m.insert a v).entries = ⟨a, v⟩ :: m.entries := by
    rw [entries_insert, List.kerase_of_notMem_keys ha]
  simp only [values, hentries, List.map_cons, List.countP_cons]

theorem countP_values_erase {m : AssocMap κ ν} {a : κ} {v : ν} (p : ν → Bool)
    (h : m.lookup a = some v) :
    (m.erase a).values.countP p + (if p v then 1 else 0) = m.values.countP p := by
  obtain ⟨b, l₁, l₂, ha, hentries, herase⟩ := List.exists_of_kerase (mem_keys.mp (mem_of_lookup h))
  have hb : b = v := by
    have hmem : ⟨a, b⟩ ∈ m.entries := by rw [hentries]; simp
    exact Option.some.inj ((mem_entries_iff.mp hmem).symm.trans h)
  subst hb
  have herased : (m.erase a).entries = l₁ ++ l₂ := herase
  simp only [values, herased, hentries, List.map_append, List.map_cons, List.countP_append,
    List.countP_cons]
  omega

end AList
