import Mathlib.Data.Finmap

/-!
A hash map with a fixed number of slots, as the kernel documents it for its
BPF hash maps: an update of a present key always succeeds, an update of a new
key fails when every slot is taken, and a failed update changes nothing. The
slot bound is a field, so no map holds more entries than it was created for.
-/

namespace BpftimeBenchmark

structure BoundedMap (κ ν : Type) [DecidableEq κ] (slots : Nat) where
  entries : Finmap (fun _ : κ => ν)
  bounded : entries.keys.card ≤ slots

namespace BoundedMap

variable {κ ν : Type} [DecidableEq κ] {slots : Nat}

theorem keys_insert (entries : Finmap (fun _ : κ => ν)) (k : κ) (v : ν) :
    (entries.insert k v).keys = insert k entries.keys := by
  ext a
  simp [Finmap.mem_keys]

theorem ext_entries {m n : BoundedMap κ ν slots} (h : m.entries = n.entries) :
    m = n := by
  cases m
  cases n
  cases h
  rfl

def empty : BoundedMap κ ν slots := ⟨∅, by simp⟩

def lookup (m : BoundedMap κ ν slots) (k : κ) : Option ν :=
  m.entries.lookup k

def size (m : BoundedMap κ ν slots) : Nat := m.entries.keys.card

def HasRoom (m : BoundedMap κ ν slots) (k : κ) : Prop :=
  k ∈ m.entries ∨ m.size < slots

instance (m : BoundedMap κ ν slots) (k : κ) : Decidable (m.HasRoom k) := by
  unfold HasRoom
  infer_instance

theorem insert_bounded (m : BoundedMap κ ν slots) (k : κ) (v : ν)
    (h : m.HasRoom k) : (m.entries.insert k v).keys.card ≤ slots := by
  rw [keys_insert]
  rcases h with hmem | hroom
  · rw [Finset.insert_eq_of_mem (Finmap.mem_keys.mpr hmem)]
    exact m.bounded
  · exact (Finset.card_insert_le _ _).trans hroom

/-- Create or replace. On a full map a new key is refused. -/
def update (m : BoundedMap κ ν slots) (k : κ) (v : ν) : BoundedMap κ ν slots :=
  if h : m.HasRoom k then ⟨m.entries.insert k v, m.insert_bounded k v h⟩ else m

def delete (m : BoundedMap κ ν slots) (k : κ) : BoundedMap κ ν slots :=
  ⟨m.entries.erase k, by
    rw [Finmap.keys_erase]
    exact (Finset.card_erase_le).trans m.bounded⟩

@[simp] theorem lookup_empty (k : κ) :
    (empty : BoundedMap κ ν slots).lookup k = none := by
  simp [empty, lookup]

theorem hasRoom_of_lookup {m : BoundedMap κ ν slots} {k : κ} {v : ν}
    (h : m.lookup k = some v) : m.HasRoom k :=
  Or.inl (Finmap.mem_of_lookup_eq_some h)

theorem lookup_update_self {m : BoundedMap κ ν slots} {k : κ} (v : ν)
    (h : m.HasRoom k) : (m.update k v).lookup k = some v := by
  simp [update, h, lookup]

theorem update_of_full {m : BoundedMap κ ν slots} {k : κ} (v : ν)
    (h : ¬ m.HasRoom k) : m.update k v = m := by
  simp [update, h]

theorem lookup_update_ne {m : BoundedMap κ ν slots} {k k' : κ} (v : ν)
    (h : k' ≠ k) : (m.update k v).lookup k' = m.lookup k' := by
  unfold update
  split
  · exact Finmap.lookup_insert_of_ne _ h
  · rfl

/-- Everything an update can do to one key. -/
theorem lookup_update_cases (m : BoundedMap κ ν slots) (k k' : κ) (v : ν) :
    (m.update k v).lookup k' = m.lookup k' ∨
      (k' = k ∧ m.HasRoom k ∧ (m.update k v).lookup k' = some v) := by
  by_cases hk : k' = k
  · subst hk
    by_cases hroom : m.HasRoom k'
    · exact Or.inr ⟨rfl, hroom, lookup_update_self v hroom⟩
    · exact Or.inl (by rw [update_of_full v hroom])
  · exact Or.inl (lookup_update_ne v hk)

/-- The second of two updates of one key wins. -/
theorem update_update (m : BoundedMap κ ν slots) (k : κ) (v v' : ν) :
    (m.update k v).update k v' = m.update k v' := by
  by_cases hroom : m.HasRoom k
  · have hagain : (m.update k v).HasRoom k :=
      hasRoom_of_lookup (lookup_update_self v hroom)
    apply ext_entries
    simp only [update, hroom, dite_true] at hagain ⊢
    simp only [hagain, dite_true, Finmap.insert_insert]
  · rw [update_of_full v hroom]

/-- What an updated key holds, if anything, is the new value. -/
theorem eq_of_lookup_update {m : BoundedMap κ ν slots} {k : κ} {v v' : ν}
    (h : (m.update k v).lookup k = some v') : v' = v := by
  by_cases hroom : m.HasRoom k
  · rw [lookup_update_self v hroom] at h
    exact (Option.some.inj h).symm
  · rw [update_of_full v hroom] at h
    exact absurd (hasRoom_of_lookup h) hroom

theorem lookup_delete_self (m : BoundedMap κ ν slots) (k : κ) :
    (m.delete k).lookup k = none := by
  simp [delete, lookup]

theorem lookup_delete_ne {m : BoundedMap κ ν slots} {k k' : κ} (h : k' ≠ k) :
    (m.delete k).lookup k' = m.lookup k' := by
  simp [delete, lookup, Finmap.lookup_erase_ne h]

theorem lookup_delete_some {m : BoundedMap κ ν slots} {k k' : κ} {v : ν}
    (h : (m.delete k).lookup k' = some v) : k' ≠ k ∧ m.lookup k' = some v := by
  by_cases hk : k' = k
  · subst hk
    rw [lookup_delete_self] at h
    cases h
  · exact ⟨hk, by rwa [lookup_delete_ne hk] at h⟩

theorem size_le_update (m : BoundedMap κ ν slots) (k : κ) (v : ν) :
    m.size ≤ (m.update k v).size := by
  unfold update
  split
  · simp only [size, keys_insert]
    exact Finset.card_le_card (Finset.subset_insert _ _)
  · exact le_refl _

theorem size_update_new {m : BoundedMap κ ν slots} {k : κ} (v : ν)
    (habsent : m.lookup k = none) (hroom : m.size < slots) :
    (m.update k v).size = m.size + 1 := by
  have hkey : k ∉ m.entries.keys := by
    rw [Finmap.mem_keys]
    exact Finmap.lookup_eq_none.mp habsent
  have hslot : m.HasRoom k := Or.inr hroom
  simp only [update, hslot, dite_true, size, keys_insert]
  exact Finset.card_insert_of_notMem hkey

theorem hasRoom_of_size_lt {m : BoundedMap κ ν slots} {k : κ}
    (h : m.size < slots) : m.HasRoom k := Or.inr h

theorem not_hasRoom_iff {m : BoundedMap κ ν slots} {k : κ} :
    ¬ m.HasRoom k ↔ m.lookup k = none ∧ slots ≤ m.size := by
  simp [HasRoom, lookup, Finmap.lookup_eq_none]

/-- A map that refuses a key goes on refusing it, whatever is updated. -/
theorem not_hasRoom_update {m : BoundedMap κ ν slots} {k : κ} (k' : κ) (v : ν)
    (h : ¬ m.HasRoom k) : ¬ (m.update k' v).HasRoom k := by
  obtain ⟨hnone, hfull⟩ := not_hasRoom_iff.mp h
  rcases lookup_update_cases m k' k v with hkept | ⟨rfl, hroom, -⟩
  · apply not_hasRoom_iff.mpr
    exact ⟨hkept.trans hnone, hfull.trans (size_le_update m k' v)⟩
  · exact absurd hroom h

/-- A map whose keys all come from a finite set has at most that many. -/
theorem size_le_of_keys {m : BoundedMap κ ν slots} {keys : Finset κ}
    (h : ∀ k v, m.lookup k = some v → k ∈ keys) : m.size ≤ keys.card := by
  apply Finset.card_le_card
  intro k hk
  obtain ⟨v, hv⟩ := Finmap.mem_iff.mp (Finmap.mem_keys.mp hk)
  exact h k v hv

theorem mem_keys_iff {m : BoundedMap κ ν slots} {k : κ} :
    k ∈ m.entries.keys ↔ ∃ v, m.lookup k = some v := by
  rw [Finmap.mem_keys, Finmap.mem_iff]
  rfl

/-- A map whose keys lie in a set that the slots can hold has room for the whole set. -/
theorem hasRoom_of_keys {m : BoundedMap κ ν slots} {keys : Finset κ} {k : κ}
    (hkeys : m.entries.keys ⊆ keys) (hslots : keys.card ≤ slots) (hk : k ∈ keys) :
    m.HasRoom k := by
  by_cases hmem : k ∈ m.entries.keys
  · exact Or.inl (Finmap.mem_keys.mp hmem)
  · have hlt : m.entries.keys.card < keys.card :=
      Finset.card_lt_card ⟨hkeys, fun hsub => hmem (hsub hk)⟩
    exact Or.inr (lt_of_lt_of_le hlt hslots)

end BoundedMap

end BpftimeBenchmark
