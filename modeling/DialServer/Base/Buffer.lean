import Mathlib

/-!
# Stores in a buffer

A buffer is the list of its characters, and a function that writes to it is told by its stores: the
places and the characters, in order. `Prints` says of stores that they leave a terminated text at a
place and touch nothing outside it. Two functions that print one behind the other print both texts,
since the second one begins at the terminator of the first.
-/

namespace CLib

variable {α : Type}

/-- The buffer after stores. A store behind its end is lost, which the places of the stores tell. -/
def store_all (buf : List α) (stores : List (ℕ × α)) : List α :=
  stores.foldl (fun buf store => buf.set store.1 store.2) buf

/-- Stores keep the size of the buffer. -/
@[simp] theorem length_store_all (buf : List α) (stores : List (ℕ × α)) :
    (store_all buf stores).length = buf.length := by
  induction stores generalizing buf with
  | nil => rfl
  | cons store stores ih =>
    show (store_all (buf.set store.1 store.2) stores).length = buf.length
    rw [ih, List.length_set]

/-- Stores one after another. -/
theorem store_all_append (buf : List α) (stores stores' : List (ℕ × α)) :
    store_all buf (stores ++ stores') = store_all (store_all buf stores) stores' :=
  List.foldl_append ..

/-- What is in front of all places of the stores is kept. -/
theorem take_store_all {stores : List (ℕ × α)} {n : ℕ} (h : ∀ store ∈ stores, n ≤ store.1)
    (buf : List α) : (store_all buf stores).take n = buf.take n := by
  induction stores generalizing buf with
  | nil => rfl
  | cons store stores ih =>
    obtain ⟨hstore, hstores⟩ := List.forall_mem_cons.mp h
    show (store_all (buf.set store.1 store.2) stores).take n = buf.take n
    rw [ih hstores, List.take_set, List.set_eq_of_length_le]
    exact (List.length_take_le ..).trans hstore

/-- A text in front of all places of the stores is kept. -/
theorem prefix_store_all {s buf : List α} {stores : List (ℕ × α)} {start : ℕ}
    (hs : s <+: buf.drop start) (h : ∀ store ∈ stores, start + s.length ≤ store.1) :
    s <+: (store_all buf stores).drop start := by
  rw [List.prefix_iff_eq_take] at hs ⊢
  rw [List.take_drop, take_store_all h, ← List.take_drop]
  exact hs

/-- Two texts one behind the other. -/
theorem prefix_drop_append {s t buf : List α} {start : ℕ} (hs : s <+: buf.drop start)
    (ht : t <+: buf.drop (start + s.length)) : s ++ t <+: buf.drop start := by
  obtain ⟨r, hr⟩ := hs
  rw [← List.drop_drop, ← hr, List.drop_left] at ht
  rw [← hr]
  exact (List.prefix_append_right_inj s).mpr ht

/-- What is stored at a place stands there. -/
theorem prefix_set {buf : List α} {start : ℕ} (h : start < buf.length) (c : α) :
    [c] <+: (buf.set start c).drop start := by
  have hset : (buf.set start c)[start]? = some c := List.getElem?_set_self h
  rw [← List.head?_drop] at hset
  obtain ⟨rest, hrest⟩ := List.head?_eq_some_iff.mp hset
  exact ⟨rest, hrest.symm⟩

variable [Zero α]

/-- Stores that leave a text at a place, with a terminator behind it, and nothing else. -/
structure Prints (stores : List (ℕ × α)) (start : ℕ) (s : List α) : Prop where
  text : ∀ buf : List α, start + s.length < buf.length →
    s ++ [0] <+: (store_all buf stores).drop start
  places : ∀ store ∈ stores, start ≤ store.1 ∧ store.1 ≤ start + s.length

/-- The terminator alone is the empty text. -/
theorem prints_terminator (start : ℕ) : Prints [(start, (0 : α))] start [] where
  text buf h := prefix_set h 0
  places := by simp

/-- A character in front of a text. -/
theorem Prints.cons {stores : List (ℕ × α)} {start : ℕ} {s : List α}
    (h : Prints stores (start + 1) s) (c : α) : Prints ((start, c) :: stores) start (c :: s) where
  text buf hbuf := by
    rw [List.length_cons] at hbuf
    have hlength : (buf.set start c).length = buf.length := List.length_set
    have hchar : [c] <+: (buf.set start c).drop start := prefix_set (by omega) c
    have hkept := prefix_store_all hchar fun store hstore => (h.places store hstore).1
    have htext := h.text (buf.set start c) (by omega)
    exact prefix_drop_append (s := [c]) hkept htext
  places := by
    rw [List.forall_mem_cons]
    refine ⟨by simp, fun store hstore => ?_⟩
    have hplace := h.places store hstore
    rw [List.length_cons]
    omega

/-- A text behind another one overwrites its terminator. -/
theorem Prints.append {stores stores' : List (ℕ × α)} {start : ℕ} {s t : List α}
    (h : Prints stores start s) (h' : Prints stores' (start + s.length) t) :
    Prints (stores ++ stores') start (s ++ t) where
  text buf hbuf := by
    rw [List.length_append] at hbuf
    have hs : s <+: (store_all buf stores).drop start :=
      (List.prefix_append s [0]).trans (h.text buf (by omega))
    have hkept := prefix_store_all hs fun store hstore => (h'.places store hstore).1
    have ht := h'.text (store_all buf stores) (by rw [length_store_all]; omega)
    rw [store_all_append, List.append_assoc]
    exact prefix_drop_append hkept ht
  places store hstore := by
    rw [List.length_append]
    rcases List.mem_append.mp hstore with hmem | hmem
    · have := h.places store hmem
      omega
    · have := h'.places store hmem
      omega

end CLib
