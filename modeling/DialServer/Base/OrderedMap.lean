import Mathlib

/-!
# Finite maps in order of insertion

`OrderedMap K V` is a finite map that remembers in which order its keys came: its domain is a list
of distinct keys. A key that is there is not inserted again, and a key that is removed may come back
at the end. `Represents` says that a list of values is such a map, when the key of a value can be
read off it; the two lemmas about it are for adding a value behind the others and for taking one
out.
-/

namespace CLib

/-- A finite map with its keys in order. -/
structure OrderedMap (K V : Type) where
  /-- The keys. -/
  keys : List K
  /-- The value of each key. -/
  value : K → Option V
  /-- No key is there twice. -/
  nodup : keys.Nodup
  /-- The keys are those that have a value. -/
  mem_keys : ∀ k, k ∈ keys ↔ value k ≠ none

namespace OrderedMap

variable {K V : Type} [DecidableEq K]

/-- The map without keys. -/
def empty : OrderedMap K V where
  keys := []
  value _ := none
  nodup := List.nodup_nil
  mem_keys := by simp

/-- Insert a key that is not there; a key that is there keeps its value. -/
def insert (m : OrderedMap K V) (k : K) (v : V) : OrderedMap K V :=
  if h : k ∈ m.keys then m
  else
    { keys := m.keys ++ [k]
      value := Function.update m.value k (some v)
      nodup := by
        rw [← List.concat_eq_append]
        exact m.nodup.concat h
      mem_keys := by
        intro k'
        by_cases hk : k' = k
        · simp [hk]
        · simp [hk, m.mem_keys] }

/-- Remove a key. -/
def remove (m : OrderedMap K V) (k : K) : OrderedMap K V where
  keys := m.keys.erase k
  value := Function.update m.value k none
  nodup := m.nodup.erase k
  mem_keys := by
    intro k'
    by_cases hk : k' = k
    · simp [hk, m.nodup.mem_erase_iff]
    · simp [hk, m.nodup.mem_erase_iff, m.mem_keys]

/-- A key that is not there comes last. -/
theorem keys_insert {m : OrderedMap K V} {k : K} (h : k ∉ m.keys) (v : V) :
    (m.insert k v).keys = m.keys ++ [k] := by
  rw [insert, dif_neg h]

/-- It has the value that it is inserted with. -/
theorem value_insert {m : OrderedMap K V} {k : K} (h : k ∉ m.keys) (v : V) :
    (m.insert k v).value = Function.update m.value k (some v) := by
  rw [insert, dif_neg h]

/-- A key that is there is not inserted. -/
theorem insert_of_mem {m : OrderedMap K V} {k : K} (h : k ∈ m.keys) (v : V) : m.insert k v = m := by
  rw [insert, dif_pos h]

/-- The list of values is the map: its keys in order are those of the map, and the first value of a
key is the value of that key. -/
structure Represents (key : V → K) (l : List V) (m : OrderedMap K V) : Prop where
  keys_eq : l.map key = m.keys
  find?_eq : ∀ k, l.find? (fun v => key v = k) = m.value k

/-- Nothing is the empty map. -/
theorem represents_empty (key : V → K) : Represents key [] empty :=
  ⟨rfl, fun _ => rfl⟩

variable {key : V → K} {l : List V} {m : OrderedMap K V}

/-- A value with a new key, behind all others, is an insertion. -/
theorem Represents.insert (h : Represents key l m) {v : V} (hv : key v ∉ l.map key) :
    Represents key (l ++ [v]) (m.insert (key v) v) := by
  have hkey : key v ∉ m.keys := h.keys_eq ▸ hv
  constructor
  · rw [keys_insert hkey, List.map_append, h.keys_eq]
    rfl
  · intro k
    rw [value_insert hkey, List.find?_append, h.find?_eq]
    by_cases hk : k = key v
    · -- No value before this one has the key.
      have hnone : m.value (key v) = none := by
        by_contra hsome
        exact hkey ((m.mem_keys _).mpr hsome)
      simp [hk, hnone]
    · simp [hk, Ne.symm hk]

/-- The first value of a key taken out of a list takes its key out of the keys. -/
theorem map_eraseIdx_findIdx (key : V → K) (l : List V) (k : K) :
    (l.eraseIdx (l.findIdx fun v => k = key v)).map key = (l.map key).erase k := by
  induction l with
  | nil => rfl
  | cons v l ih =>
    rw [List.findIdx_cons, List.map_cons]
    by_cases hk : k = key v
    · simp [hk]
    · simp [hk, ih, List.erase_cons_tail, Ne.symm hk]

/-- In a list with distinct keys it is found no more, and all other values are. -/
theorem find?_eraseIdx_findIdx {l : List V} (hnodup : (l.map key).Nodup) (k k' : K) :
    (l.eraseIdx (l.findIdx fun v => k = key v)).find? (fun v => key v = k') =
      if k' = k then none else l.find? (fun v => key v = k') := by
  induction l with
  | nil => simp
  | cons v l ih =>
    obtain ⟨hv, hl⟩ := List.nodup_cons.mp (List.map_cons ▸ hnodup)
    rw [List.findIdx_cons]
    by_cases hk : k = key v
    · subst hk
      simp only [decide_true, cond_true, List.eraseIdx_cons_zero]
      by_cases hk' : k' = key v
      · rw [if_pos hk', List.find?_eq_none]
        intro u hu
        rw [hk', decide_eq_true_eq]
        exact fun heq => hv (heq ▸ List.mem_map_of_mem hu)
      · simp [hk', Ne.symm hk']
    · simp only [hk, decide_false, cond_false, List.eraseIdx_cons_succ, List.find?_cons, ih hl]
      by_cases hk' : key v = k'
      · simp [hk', show k' ≠ k from fun h => hk (hk'.trans h).symm]
      · simp [hk']

/-- The first value of a key taken out is a removal. -/
theorem Represents.remove (h : Represents key l m) (k : K) :
    Represents key (l.eraseIdx (l.findIdx fun v => k = key v)) (m.remove k) := by
  have hnodup : (l.map key).Nodup := h.keys_eq ▸ m.nodup
  constructor
  · show _ = m.keys.erase k
    rw [map_eraseIdx_findIdx, h.keys_eq]
  · intro k'
    show _ = Function.update m.value k none k'
    rw [find?_eraseIdx_findIdx hnodup, Function.update_apply, h.find?_eq]

end OrderedMap

end CLib
