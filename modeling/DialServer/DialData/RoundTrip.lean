import DialServer.DialData.Restart

/-!
# Storing and retrieving

With memory, what `retrieve_dial_data` finds after `store_dial_data` is the stored list turned
around, each part cut to the limit of the formats. Cutting twice is cutting once, so that the second
time the list is as it was stored, but for the cut.
-/

set_option maxRecDepth 8000

namespace DialServer

open CLib Program

variable {W : Type}

/-- The state in which the file of an application holds a list. -/
def with_file (app_name : Bytes) (data : List DIALData) (s : System W) : System W :=
  { s with files := Function.update s.files (app_path app_name) (some (print_dial_data data)) }

/-- A pair whose parts can be told apart in the file. -/
def IsStorable (d : DIALData) : Prop := IsWord d.key ∧ IsWord d.value

/-- A pair that is cut is cut. -/
theorem cut_pair_cut_pair (d : DIALData) : cut_pair (cut_pair d) = cut_pair d := by
  simp [cut_pair]

/-- What is cut can still be stored. -/
theorem IsStorable.cut {d : DIALData} (h : IsStorable d) : IsStorable (cut_pair d) :=
  ⟨h.1.take, h.2.take⟩

/-- With memory the file is written. -/
theorem store_dial_data_plenty (app_name : Bytes) (data : List DIALData) {s : System W}
    (h : s.supply = plenty) :
    store_dial_data app_name data s = some ((), [], with_file app_name data s) := by
  obtain ⟨apps, mux, files, supply, world, platform⟩ := s
  obtain rfl : supply = plenty := h
  rfl

/-- With memory a stored list is found, the last pair first. -/
theorem store_then_retrieve {app_name : Bytes} {data : List DIALData}
    (hdata : ∀ d ∈ data, IsStorable d) {s : System W} (h : s.supply = plenty) :
    retrieve_dial_data app_name (with_file app_name data s) =
      some (data.reverse.map cut_pair, [], with_file app_name data s) := by
  have hwords : ∀ d ∈ data, IsWord (cut_pair d).key ∧ IsWord (cut_pair d).value :=
    fun d hd => (hdata d hd).cut
  have hfile : file_pairs ((with_file app_name data s).files (app_path app_name)) =
      data.map cut_pair := by
    calc file_pairs ((with_file app_name data s).files (app_path app_name))
        = file_pairs (some (print_dial_data data)) := by
          show file_pairs (Function.update s.files _ _ (app_path app_name)) = _
          rw [Function.update_self]
      _ = data.map cut_pair := fscanf_pairs_print hwords []
  rw [@retrieve_dial_data_plenty W app_name (with_file app_name data s) h, hfile,
    List.map_reverse]

/-- **Storing and retrieving.** With memory, storing a list of words and retrieving it gives the
list in the opposite order, each part cut to its first 255 characters; doing so twice gives the cut
list in its own order. Nothing changes but the file of that application. -/
theorem store_retrieve {app_name : Bytes} {data : List DIALData}
    (hdata : ∀ d ∈ data, IsStorable d) {s : System W} (h : s.supply = plenty) :
    (do
      store_dial_data app_name data
      retrieve_dial_data app_name : Server W (List DIALData)) s =
        some (data.reverse.map cut_pair, [], with_file app_name data s) ∧
      (do
        store_dial_data app_name data
        let data ← retrieve_dial_data app_name
        store_dial_data app_name data
        retrieve_dial_data app_name : Server W (List DIALData)) s =
          some (data.map cut_pair, [],
            with_file app_name (data.reverse.map cut_pair) (with_file app_name data s)) := by
  have hstore := store_dial_data_plenty app_name data h
  have hretrieve := @store_then_retrieve W app_name data hdata s h
  have hagain : ∀ d ∈ data.reverse.map cut_pair, IsStorable d := by
    intro d hd
    obtain ⟨d', hd', rfl⟩ := List.mem_map.mp hd
    exact (hdata d' (List.mem_reverse.mp hd')).cut
  have hcut : (data.reverse.map cut_pair).reverse.map cut_pair = data.map cut_pair := by
    simp only [List.map_reverse, List.reverse_reverse, List.map_map]
    exact List.map_congr_left fun d _ => cut_pair_cut_pair d
  constructor
  · rw [bind_of_some hstore, hretrieve]
    rfl
  · have hstore' := @store_dial_data_plenty W app_name (data.reverse.map cut_pair)
      (with_file app_name data s) h
    have hretrieve' := @store_then_retrieve W app_name _ hagain (with_file app_name data s) h
    rw [bind_of_some hstore, bind_of_some hretrieve, bind_of_some hstore', hretrieve', hcut]
    rfl

/-- Characters that are no white space are a word. -/
theorem isWord_replicate {n : ℕ} (hn : n ≠ 0) {c : UInt8} (hspace : isspace c = false)
    (hzero : c ≠ 0) : IsWord (List.replicate n c) :=
  ⟨by simpa using hn, fun b hb => (List.mem_replicate.mp hb).2 ▸ ⟨hspace, hzero⟩⟩

/-- Two pairs, one of them with a value that is longer than the file keeps. -/
def long_data : List DIALData :=
  [⟨bytes "a", bytes "1"⟩, ⟨bytes "b", List.replicate 300 (chr 'v')⟩]

/-- They are retrieved in the opposite order, and the long value is cut. -/
theorem store_retrieve_long :
    ∃ t, (do
      store_dial_data (bytes "YouTube") long_data
      retrieve_dial_data (bytes "YouTube") : Server Bool (List DIALData)) new_server =
        some ([⟨bytes "b", List.replicate 255 (chr 'v')⟩, ⟨bytes "a", bytes "1"⟩], [], t) := by
  have hdata : ∀ d ∈ long_data, IsStorable d := by
    intro d hd
    rcases List.mem_pair.mp hd with rfl | rfl
    · unfold IsStorable IsWord
      decide
    · have hkey : IsWord (bytes "b") := by
        unfold IsWord
        decide
      exact ⟨hkey, isWord_replicate (by decide) (by decide) (by decide)⟩
  have hcut : long_data.reverse.map cut_pair =
      [⟨bytes "b", List.replicate 255 (chr 'v')⟩, ⟨bytes "a", bytes "1"⟩] := by
    decide
  have hstored := (@store_retrieve Bool (bytes "YouTube") long_data hdata new_server rfl).1
  rw [hcut] at hstored
  exact ⟨_, hstored⟩

end DialServer
