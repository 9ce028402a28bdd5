import DialServer.DialData.File
import DialServer.DialData.Replace

/-!
# Dial data over a restart

A request writes the list of its application to the file of the application, and a registration
reads that file. So the file is what the list was printed to, or what it was loaded from (`Synced`),
unless there was no memory to load it; and with memory a registration after a restart finds the same
pairs if and only if no key has white space within the characters that the file keeps.
-/

set_option maxRecDepth 8000

namespace DialServer

open CLib Program

variable {W : Type}

/-! ## Loading -/

/-- The pairs in a file, if there is one. -/
def file_pairs : Option Bytes → List DIALData
  | some file => fscanf_pairs [] file
  | none => []

/-- The loop of `retrieve_dial_data` turns the pairs around, or it gives up for want of memory. -/
theorem retrieve_loop_cases {pairs result : List DIALData} {supply supply' : Supply}
    {r : Option (List DIALData)} {e : List Empty}
    (h : retrieve_loop pairs result supply = some (r, e, supply')) :
    (r = some (pairs.reverse ++ result) ∧ ∀ i < 3 * pairs.length, supply i = true) ∨
      (r = none ∧ ¬∀ i < 3 * pairs.length, supply i = true) := by
  -- Each pair takes three allocations, and the first that fails gives up the whole list.
  induction pairs generalizing result supply with
  | nil =>
    simp only [retrieve_loop, pure_apply, Option.some.injEq, Prod.mk.injEq] at h
    exact .inl ⟨h.1.symm, by simp⟩
  | cons d pairs ih =>
    unfold retrieve_loop at h
    rw [List.length_cons, granted_cons]
    rcases new_pair_cases h with ⟨hgranted, h⟩ | ⟨rfl, hrefused⟩
    · rcases ih h with ⟨rfl, hrest⟩ | ⟨rfl, hrest⟩
      · exact .inl ⟨by simp, hgranted, hrest⟩
      · exact .inr ⟨rfl, fun hall => hrest hall.2⟩
    · exact .inr ⟨rfl, fun hall => hrefused hall.1⟩

/-- `retrieve_dial_data` returns the pairs of the file in the opposite order, or nothing for want of
memory. -/
theorem retrieve_dial_data_cases {app_name : Bytes} {s t : System W} {data : List DIALData}
    {e : List Event} (h : retrieve_dial_data app_name s = some (data, e, t)) :
    (data = (file_pairs (s.files (app_path app_name))).reverse ∧
        (data ≠ [] → ∀ i < 2 + 3 * data.length, s.supply i = true)) ∨
      (data = [] ∧ ¬∀ i < 2 + 3 * (file_pairs (s.files (app_path app_name))).length,
        s.supply i = true) := by
  have hrefused : ∀ i < 2 + 3 * (file_pairs (s.files (app_path app_name))).length,
      s.supply i = false → ¬∀ i < 2 + 3 * (file_pairs (s.files (app_path app_name))).length,
        s.supply i = true := by
    intro i hi hfalse hall
    simp [hall i hi] at hfalse
  obtain ⟨filename, e₁, r, e₂, h₁, h₂, -⟩ := bind_eq_some.mp h
  obtain ⟨_, supply, hpath, rfl, rfl⟩ := within_eq_some.mp h₁
  rw [getAppPath_apply] at hpath
  simp only [Option.some.injEq, Prod.mk.injEq] at hpath
  obtain ⟨rfl, -, rfl⟩ := hpath
  cases h0 : s.supply 0 with
  | false =>
    simp only [h0, Bool.false_eq_true, if_false, pure_apply, Option.some.injEq, Prod.mk.injEq] at h₂
    exact .inr ⟨h₂.1.symm, hrefused 0 (by omega) h0⟩
  | true =>
    simp only [h0, if_true] at h₂
    obtain ⟨file, e₃, r, e₄, h₃, h₄, rfl⟩ := bind_eq_some.mp h₂
    simp only [read_apply, Option.some.injEq, Prod.mk.injEq] at h₃
    obtain ⟨hfile, rfl, rfl⟩ := h₃
    cases file with
    | none =>
      -- No dial data found, that's fine.
      simp only [pure_apply, Option.some.injEq, Prod.mk.injEq] at h₄
      rw [hfile]
      exact .inl ⟨h₄.1.symm, fun hne => absurd h₄.1.symm hne⟩
    | some file =>
      obtain ⟨opened, e₅, r, e₆, h₅, h₆, rfl⟩ := bind_eq_some.mp h₄
      obtain ⟨h1, rfl, rfl⟩ := alloc_request_eq_some.mp h₅
      cases opened with
      | false =>
        simp only [Bool.false_eq_true, if_false, pure_apply, Option.some.injEq, Prod.mk.injEq] at h₆
        exact .inr ⟨h₆.1.symm, hrefused 1 (by omega) h1.symm⟩
      | true =>
        simp only [if_true] at h₆
        obtain ⟨e', supply', hread, rfl, rfl⟩ := within_eq_some.mp h₆
        obtain ⟨result, e₇, r, e₈, h₇, h₈, rfl⟩ := bind_eq_some.mp hread
        rw [hfile] at hrefused ⊢
        rcases retrieve_loop_cases h₇ with ⟨rfl, hgranted⟩ | ⟨rfl, hfailed⟩
        · simp only [List.append_nil, pure_apply, Option.some.injEq, Prod.mk.injEq] at h₈
          obtain rfl := h₈.1
          refine .inl ⟨rfl, fun _ i hi => ?_⟩
          -- The path, the file, and three for each pair.
          match i, hi with
          | 0, _ => exact h0
          | 1, _ => exact h1.symm
          | i + 2, hi => exact hgranted i (by simp only [List.length_reverse] at hi; omega)
        · simp only [pure_apply, Option.some.injEq, Prod.mk.injEq] at h₈
          refine .inr ⟨h₈.1.symm, fun hall => hfailed fun i hi => ?_⟩
          exact hall (i + 2) (by simp only [file_pairs]; omega)

/-! ## The file and the list -/

/-- A pair as `parse_params` stores it. -/
def Stored (d : DIALData) : Prop := d.key ≠ [] ∧ 0 ∉ d.key ∧ IsWord d.value

/-- The list of an application and its file agree: the list was printed to the file, or it was
loaded from it. -/
def Synced (s : System W) (app_name : Bytes) : Prop :=
  ∃ data, dial_data_of s app_name = some data ∧
    ((s.files (app_path app_name) = some (print_dial_data data) ∧ ∀ d ∈ data, Stored d) ∨
      data = (file_pairs (s.files (app_path app_name))).reverse)

/-- The beginning of a word. -/
theorem IsWord.take {w : Bytes} (h : IsWord w) :
    IsWord (w.take DIAL_KEY_OR_VALUE_MAX_LEN) := by
  refine ⟨fun hnil => ?_, fun c hc => h.2 c (List.mem_of_mem_take hc)⟩
  rcases List.take_eq_nil_iff.mp hnil with hzero | hw
  · exact absurd hzero (by decide)
  · exact h.1 hw

/-- A pair that is stored is printed as two words when its key has no white space. -/
theorem Stored.words {d : DIALData} (h : Stored d)
    (hkey : ∀ c ∈ (cut_pair d).key, isspace c = false) :
    IsWord (cut_pair d).key ∧ IsWord (cut_pair d).value := by
  obtain ⟨hne, hzero, hvalue⟩ := h
  refine ⟨⟨fun hnil => ?_, fun c hc => ⟨hkey c hc, ?_⟩⟩, hvalue.take⟩
  · rcases List.take_eq_nil_iff.mp hnil with hmax | hnil
    · exact absurd hmax (by decide)
    · exact hne hnil
  · rintro rfl
    exact hzero (List.mem_of_mem_take hc)

/-- Whatever the file, its keys are free of white space, and the file keeps all of its pairs. -/
theorem file_pairs_read (file : Option Bytes) :
    ∀ d ∈ file_pairs file, (∀ c ∈ d.key, isspace c = false) ∧ cut_pair d = d := by
  cases file with
  | none => simp [file_pairs]
  | some file => exact fscanf_pairs_read (Nat.zero_le _)

/-- If the keys of the list are free of white space, the file holds the pairs of the list as far as
it keeps them. -/
theorem Synced.pairs {s : System W} {app_name : Bytes} {data : List DIALData}
    (h : Synced s app_name) (hdata : dial_data_of s app_name = some data)
    (hkeys : ∀ d ∈ data, ∀ c ∈ (cut_pair d).key, isspace c = false) :
    (file_pairs (s.files (app_path app_name))).Perm (data.map cut_pair) := by
  obtain ⟨data', hdata', hsync⟩ := h
  obtain rfl : data' = data := by
    rw [hdata', Option.some.injEq] at hdata
    exact hdata
  rcases hsync with ⟨hfile, hstored⟩ | rfl
  · rw [hfile, file_pairs,
      fscanf_pairs_print fun d hd => (hstored d hd).words (hkeys d hd)]
  · rw [List.map_reverse, List.map_congr_left fun d hd => (file_pairs_read _ d hd).2, List.map_id']
    exact (List.reverse_perm _).symm

/-! ## Runs -/

/-- Requests for the dial data of an application, one after another, whatever they are answered. The
resources that each of them finds are not those that the one before has left. -/
inductive DataRequests (app_name : Bytes) : System W → System W → Prop
  | refl (s) : DataRequests app_name s s
  | step {s r t supply conn request_info origin_header use_payload e} :
      DataRequests app_name s r →
      handle_dial_data conn request_info app_name origin_header use_payload { r with supply } =
        some ((), e, t) →
      DataRequests app_name s t

/-- The data of an application that has just been registered. -/
theorem dial_data_of_registered {s t : System W} {app : DIALApp W}
    (habsent : app.name ∉ s.apps.map DIALApp.name) (ht : t.apps = s.apps ++ [app]) :
    dial_data_of t app.name = some app.dial_data := by
  have hpos : find_app t.apps app.name = s.apps.length := by
    rw [find_app_eq_idxOf, ht, List.map_append, List.idxOf_append_of_notMem habsent]
    simp
  unfold dial_data_of
  rw [hpos, ht]
  simp

/-- The registration of an application loads the list from the file, or nothing for want of
memory. -/
theorem Registration.loads {app_name : Bytes} {corsAllowedOrigin : Option Bytes} {block : Block}
    {s t : System W} {e : List Event} (h : Registration app_name corsAllowedOrigin block s 1 e t) :
    t.files = s.files ∧ ∃ data, dial_data_of t app_name = some data ∧
      ((data = (file_pairs (s.files (app_path app_name))).reverse ∧
          (data ≠ [] → ∀ i < 2 + 3 * data.length, s.supply (3 + i) = true)) ∨
        (data = [] ∧ ¬∀ i < 2 + 3 * (file_pairs (s.files (app_path app_name))).length,
          s.supply (3 + i) = true)) := by
  cases h with
  | @registered supply app _ habsent hname _ _ hretrieve =>
    subst hname
    have hafter : ∀ i, s.supply.after 3 i = s.supply (3 + i) := fun i => by
      rw [Supply.after, Nat.add_comm]
    have hload := retrieve_dial_data_cases hretrieve
    simp only [hafter] at hload
    exact ⟨rfl, app.dial_data, dial_data_of_registered habsent rfl, hload⟩

/-- A request leaves the list and the file as they are, or it leaves them in agreement. -/
theorem Replacement.kept_or_synced {conn : mg_connection} {request_info : mg_request_info}
    {app_name : Bytes} {use_payload : Bool} {s t : System W} {e : List Event}
    (h : Replacement conn request_info app_name use_payload s e t) :
    (dial_data_of t app_name = dial_data_of s app_name ∧ t.files = s.files) ∨
      Synced t app_name := by
  cases h with
  | refused _ _ happs hfiles =>
    refine .inl ⟨?_, hfiles⟩
    unfold dial_data_of
    rw [happs]
  | @replaced e' data supply _ hmem _ hbad _ hparse =>
    have hzero := zero_notMem_of_isBadPayload hbad
    rw [cstr_of_notMem hzero] at hparse
    refine .inr ⟨data, dial_data_of_modify hmem rfl,
      .inl ⟨Function.update_self .., fun d hd => ?_⟩⟩
    obtain ⟨hkey, hkey_mem, hvalue, hvalue_mem⟩ := parse_params_stored hparse d hd
    refine ⟨hkey, fun h0 => hzero (hkey_mem 0 h0), hvalue, fun c hc => ⟨(hvalue_mem c hc).2, ?_⟩⟩
    rintro rfl
    exact hzero (hvalue_mem 0 hc).1

/-- And so does every run of requests. -/
theorem DataRequests.kept_or_synced {app_name : Bytes} {s t : System W}
    (h : DataRequests app_name s t) :
    (dial_data_of t app_name = dial_data_of s app_name ∧ t.files = s.files) ∨
      Synced t app_name := by
  induction h with
  | refl => exact .inl ⟨rfl, rfl⟩
  | @step r t supply _ _ _ _ _ _ hrequest ih =>
    rcases (handle_dial_data_cases hrequest).kept_or_synced with ⟨hlist, hfiles⟩ | hsynced
    · -- The request was refused, and what holds before it holds after it.
      rcases ih with ⟨hlist', hfiles'⟩ | hsynced
      · exact .inl ⟨hlist.trans hlist', hfiles.trans hfiles'⟩
      · refine .inr ?_
        unfold Synced
        rw [hlist, hfiles]
        exact hsynced
    · exact .inr hsynced

/-- The list before a restart and the list that the registration after it loads: the same pairs, as
far as the file keeps them. -/
def Survives (data reloaded : List DIALData) : Prop := reloaded.Perm (data.map cut_pair)

/-- **Dial data over a restart.** An application is registered and has requests for its dial data;
the server is started again on the same files and the application registered again. The data
survives if and only if no key has white space within the characters that the file keeps, there is
the memory to load the data, if there is any, and if there is none, the file has no pairs either or
there is no memory to load them. With memory at the first registration, the file of an empty list
has no pairs. -/
theorem dial_data_survives_iff {app_name : Bytes} {callbacks callbacks' : DIALAppCallbacks W}
    {user_data user_data' : Pointer} {useAdditionalData useAdditionalData' : Bool}
    {list list' : Option Bytes} {block block' : Block} {s r t u : System W} {e e' : List Event}
    {supply : Supply} {world : W} {platform : Platform}
    (hregister : DIAL_register_app app_name callbacks user_data useAdditionalData list block s =
      some (1, e, r))
    (hrequests : DataRequests app_name r t)
    (hrestart : DIAL_register_app app_name callbacks' user_data' useAdditionalData' list' block'
      (DIAL_create t.files supply world platform) = some (1, e', u)) :
    ∃ data reloaded, dial_data_of t app_name = some data ∧
      dial_data_of u app_name = some reloaded ∧
      (Survives data reloaded ↔
        (∀ d ∈ data, ∀ c ∈ (cut_pair d).key, isspace c = false) ∧
          (data ≠ [] → ∀ i < 2 + 3 * data.length, supply (3 + i) = true) ∧
          (data = [] → file_pairs (t.files (app_path app_name)) = [] ∨
            ¬∀ i < 2 + 3 * (file_pairs (t.files (app_path app_name))).length,
              supply (3 + i) = true)) ∧
      ((∀ i < 2 + 3 * (file_pairs (s.files (app_path app_name))).length,
          s.supply (3 + i) = true) →
        data = [] → file_pairs (t.files (app_path app_name)) = []) := by
  obtain ⟨hfiles, data₀, hdata₀, hload₀⟩ := (DIAL_register_app_cases hregister).loads
  obtain ⟨-, reloaded, hreloaded, hload⟩ := (DIAL_register_app_cases hrestart).loads
  simp only [DIAL_create] at hload
  -- Before the restart the list agrees with the file, or it was lost when it was first loaded.
  have hbefore : ∃ data, dial_data_of t app_name = some data ∧ (Synced t app_name ∨
      (data = [] ∧ ¬∀ i < 2 + 3 * (file_pairs (s.files (app_path app_name))).length,
        s.supply (3 + i) = true)) := by
    rcases hrequests.kept_or_synced with ⟨hlist, hsame⟩ | hsynced
    · rw [hdata₀] at hlist
      refine ⟨data₀, hlist, ?_⟩
      rcases hload₀ with ⟨hdata, -⟩ | hlost
      · exact .inl ⟨data₀, hlist, .inr (by rw [hsame, hfiles]; exact hdata)⟩
      · exact .inr hlost
    · obtain ⟨data, hdata, -⟩ := id hsynced
      exact ⟨data, hdata, .inl hsynced⟩
  obtain ⟨data, hdata, hbefore⟩ := hbefore
  refine ⟨data, reloaded, hdata, hreloaded, ⟨fun hperm => ?_, ?_⟩, fun hmemory hnil => ?_⟩
  · have hlength : reloaded.length = data.length := by
      rw [hperm.length_eq, List.length_map]
    refine ⟨fun d hd => ?_, fun hne => ?_, fun hnil => ?_⟩
    · have hmem : cut_pair d ∈ reloaded := hperm.mem_iff.mpr (List.mem_map_of_mem hd)
      rcases hload with ⟨hpairs, -⟩ | ⟨hnil, -⟩
      · exact (file_pairs_read _ _ (List.mem_reverse.mp (hpairs ▸ hmem))).1
      · simp [hnil] at hmem
    · have hne' : reloaded ≠ [] := by
        rw [← List.length_pos_iff, hlength]
        exact List.length_pos_of_ne_nil hne
      rcases hload with ⟨-, hgranted⟩ | ⟨hnil, -⟩
      · exact hlength ▸ hgranted hne'
      · exact absurd hnil hne'
    · rw [hnil, List.length_nil, List.length_eq_zero_iff] at hlength
      rcases hload with ⟨hpairs, -⟩ | ⟨-, hrefused⟩
      · exact .inl (List.reverse_eq_nil_iff.mp (hpairs ▸ hlength))
      · exact .inr hrefused
  · rintro ⟨hkeys, hgranted, hempty⟩
    cases data with
    | nil =>
      -- What is loaded is empty, for want of pairs or of memory.
      suffices hnil : reloaded = [] by rw [Survives, hnil, List.map_nil]
      rcases hload with ⟨rfl, hmemory⟩ | ⟨hnil, -⟩
      · rw [List.reverse_eq_nil_iff]
        by_contra hne
        rw [List.length_reverse] at hmemory
        exact (hempty rfl).elim hne fun hrefused => hrefused (hmemory (by simpa using hne))
      · exact hnil
    | cons d data =>
      have hsynced := hbefore.resolve_right (by simp)
      have hperm := hsynced.pairs hdata hkeys
      rcases hload with ⟨hpairs, -⟩ | ⟨-, hrefused⟩
      · rw [Survives, hpairs]
        exact (List.reverse_perm _).trans hperm
      · refine absurd ?_ hrefused
        rw [hperm.length_eq, List.length_map]
        exact hgranted (by simp)
  · rcases hbefore with hsynced | ⟨-, hlost⟩
    · have hperm := hsynced.pairs hdata (by simp [hnil])
      rw [hnil, List.map_nil] at hperm
      exact hperm.eq_nil
    · exact absurd hmemory hlost

/-- With memory `retrieve_dial_data` returns all of the file. -/
theorem retrieve_dial_data_plenty {app_name : Bytes} {s : System W} (h : s.supply = plenty) :
    retrieve_dial_data app_name s =
      some ((file_pairs (s.files (app_path app_name))).reverse, [], s) := by
  have hloop : ∀ pairs result : List DIALData,
      retrieve_loop pairs result plenty = some (some (pairs.reverse ++ result), [], plenty) := by
    intro pairs
    induction pairs with
    | nil => exact fun result => rfl
    | cons d pairs ih => simp [retrieve_loop, bind_apply, ih]
  obtain ⟨apps, mux, files, supply, world, platform⟩ := s
  obtain rfl : supply = plenty := h
  let s : System W := ⟨apps, mux, files, plenty, world, platform⟩
  have hpath : (alloc (getAppPath app_name) : Server W (Option Bytes)) s =
      some (some (app_path app_name), [], s) := rfl
  have hopen : (alloc request : Server W Bool) s = some (true, [], s) := rfl
  have hread : ∀ file, (alloc (retrieve_from file) : Server W (List DIALData)) s =
      some ((fscanf_pairs [] file).reverse, [], s) := by
    intro file
    have hfrom : retrieve_from file plenty = some ((fscanf_pairs [] file).reverse, [], plenty) := by
      simp [retrieve_from, bind_apply, hloop]
    exact within_eq_some.mpr ⟨[], plenty, hfrom, rfl, rfl⟩
  change retrieve_dial_data app_name s =
    some ((file_pairs (files (app_path app_name))).reverse, [], s)
  unfold retrieve_dial_data
  rw [bind_of_some hpath]
  cases hfile : files (app_path app_name) with
  | none => simp [bind_apply, s, hfile, file_pairs]
  | some file => simp [bind_apply, s, hfile, file_pairs, hopen, hread]

/-- The record of a registration that has the memory for what is in the file. -/
def new_app (app_name : Bytes) (callbacks : DIALAppCallbacks W) (user_data : Pointer)
    (useAdditionalData : Bool) (corsAllowedOrigin : AllowList) (block : Block)
    (files : Bytes → Option Bytes) : DIALApp W where
  callbacks := callbacks
  dial_data := (file_pairs (files (app_path app_name))).reverse
  callback_data := user_data
  run_id := block.run_id
  state := .kDIALStatusStopped
  name := app_name
  payload := block.payload
  useAdditionalData := useAdditionalData
  corsAllowedOrigin := corsAllowedOrigin

/-- A registration under a new name, with memory and the mutex free. -/
theorem register_granted {s : System W} (hs : Supplied s) (hmux : s.mux = false) {app_name : Bytes}
    (habsent : app_name ∉ s.apps.map DIALApp.name) (callbacks : DIALAppCallbacks W)
    (user_data : Pointer) (useAdditionalData : Bool) (corsAllowedOrigin : AllowList)
    (block : Block) :
    DIAL_register_app app_name callbacks user_data useAdditionalData (some corsAllowedOrigin.val)
        block s =
      some (1, [.lock, .unlock], { s with apps := s.apps ++ [new_app app_name callbacks user_data
        useAdditionalData corsAllowedOrigin block s.files] }) := by
  obtain ⟨apps, mux, files, supply, world, platform⟩ := s
  obtain rfl : supply = plenty := hs
  obtain rfl : mux = false := hmux
  let held : System W := ⟨apps, true, files, plenty, world, platform⟩
  have hlock : ds_lock ⟨apps, false, files, plenty, world, platform⟩ =
      some (true, [.lock], held) := rfl
  have hget : get_app app_name held = some ((apps.length, none), [], held) := by
    simp only [get_app, read_apply, held, find_app_absent habsent]
    simp
  have hmemory : alloc request held = some (true, [], held) := rfl
  have hload := @retrieve_dial_data_plenty W app_name held rfl
  have hlast : ∀ app, held.apps.insertIdx apps.length app = apps ++ [app] :=
    fun app => List.insertIdx_length_self
  unfold DIAL_register_app
  rw [bind_of_some hlock]
  simp only [Bool.not_true, Bool.false_eq_true, if_false]
  rw [bind_of_some hget]
  simp only
  rw [bind_of_some hmemory]
  simp only [Bool.not_true, Bool.false_eq_true, if_false]
  rw [bind_of_some hmemory]
  simp only [Bool.not_true, Bool.false_eq_true, if_false]
  rw [bind_of_some hload]
  simp only [dif_pos corsAllowedOrigin.2, bind_apply, modify_apply, hlast]
  rfl

/-- The application is registered again after a restart. -/
theorem register_restarted (files : Bytes → Option Bytes) :
    ∃ u, DIAL_register_app (bytes "YouTube") toggle_callbacks 0 true (some youtube_list) zero_block
        (DIAL_create files plenty false new_server.platform) = some (1, [.lock, .unlock], u) ∧
      dial_data_of u (bytes "YouTube") =
        some (file_pairs (files (app_path (bytes "YouTube")))).reverse :=
  ⟨_, register_granted (s := DIAL_create files plenty false new_server.platform) rfl rfl
    (by simp [DIAL_create]) toggle_callbacks 0 true ⟨youtube_list, by decide⟩ zero_block, rfl⟩

/-- A pair that is posted and read again after a restart. -/
theorem dial_data_survives_posted :
    ∃ e t u reloaded,
      handle_dial_data (with_body (bytes "a=1")) (data_request (bytes "POST") none)
        (bytes "YouTube") none true youtube_server = some ((), e, t) ∧
      DIAL_register_app (bytes "YouTube") toggle_callbacks 0 true (some youtube_list) zero_block
        (DIAL_create t.files plenty false new_server.platform) = some (1, [.lock, .unlock], u) ∧
      dial_data_of u (bytes "YouTube") = some reloaded ∧
      Survives [⟨bytes "a", bytes "1"⟩] reloaded := by
  obtain ⟨e, t, hpost, hdata⟩ : ∃ e t,
      handle_dial_data (with_body (bytes "a=1")) (data_request (bytes "POST") none)
        (bytes "YouTube") none true youtube_server = some ((), e, t) ∧
      dial_data_of t (bytes "YouTube") = some [⟨bytes "a", bytes "1"⟩] :=
    ⟨_, _, rfl, rfl⟩
  have hregister : DIAL_register_app (bytes "YouTube") toggle_callbacks 0 true (some youtube_list)
      zero_block new_server = some (1, [.lock, .unlock], youtube_server) := rfl
  obtain ⟨u, hrestart, -⟩ := register_restarted t.files
  have hrequests : DataRequests (bytes "YouTube") youtube_server t := .step (.refl _) hpost
  obtain ⟨data, reloaded, hdata', hreloaded, hiff, -⟩ :=
    dial_data_survives_iff hregister hrequests hrestart
  obtain rfl : [⟨bytes "a", bytes "1"⟩] = data := by
    rw [hdata, Option.some.injEq] at hdata'
    exact hdata'
  exact ⟨e, t, u, reloaded, hpost, hrestart, hreloaded,
    hiff.mpr ⟨by decide, fun _ _ _ => rfl, fun hnil => absurd hnil (by simp)⟩⟩

/-- A blank in a key makes two pairs out of one. -/
theorem blank_in_key_splits_pair :
    ∃ e t u,
      handle_dial_data (with_body (bytes "a b=1")) (data_request (bytes "POST") none)
        (bytes "YouTube") none true youtube_server = some ((), e, t) ∧
      answer e = some (bytes "200") ∧
      DIAL_register_app (bytes "YouTube") toggle_callbacks 0 true (some youtube_list) zero_block
        (DIAL_create t.files plenty false new_server.platform) = some (1, [.lock, .unlock], u) ∧
      dial_data_of t (bytes "YouTube") = some [⟨bytes "a b", bytes "1"⟩] ∧
      dial_data_of u (bytes "YouTube") =
        some [⟨bytes "1", bytes "b"⟩, ⟨bytes "a", bytes "b"⟩] ∧
      ¬Survives [⟨bytes "a b", bytes "1"⟩] [⟨bytes "1", bytes "b"⟩, ⟨bytes "a", bytes "b"⟩] := by
  obtain ⟨e, t, hpost, hanswer, hdata, hfile⟩ : ∃ e t,
      handle_dial_data (with_body (bytes "a b=1")) (data_request (bytes "POST") none)
        (bytes "YouTube") none true youtube_server = some ((), e, t) ∧
      answer e = some (bytes "200") ∧
      dial_data_of t (bytes "YouTube") = some [⟨bytes "a b", bytes "1"⟩] ∧
      t.files (app_path (bytes "YouTube")) = some (bytes "a b 1\n") :=
    ⟨_, _, rfl, rfl, rfl, rfl⟩
  obtain ⟨u, hrestart, hreloaded⟩ := register_restarted t.files
  have hpairs : file_pairs (some (bytes "a b 1\n")) =
      [⟨bytes "a", bytes "b"⟩, ⟨bytes "1", bytes "b"⟩] := by
    have h₁ : scan_s (some DIAL_KEY_OR_VALUE_MAX_LEN) (bytes "a b 1\n") =
        some (bytes "a", bytes " b 1\n") := by decide
    have h₂ : scan_s (some DIAL_KEY_OR_VALUE_MAX_LEN) (bytes " b 1\n") =
        some (bytes "b", bytes " 1\n") := by decide
    have h₃ : scan_s (some DIAL_KEY_OR_VALUE_MAX_LEN) (bytes " 1\n") =
        some (bytes "1", bytes "\n") := by decide
    have h₄ : scan_s (some DIAL_KEY_OR_VALUE_MAX_LEN) (bytes "\n") = none := by decide
    rw [file_pairs, fscanf_pairs_eq, h₁]
    simp only [h₂]
    -- The third word is the key of a pair whose value is left over from the one before.
    rw [fscanf_pairs_eq, h₃]
    simp only [h₄, fscanf_pairs_nil]
    rfl
  rw [hfile, hpairs] at hreloaded
  refine ⟨e, t, u, hpost, hanswer, hrestart, hdata, hreloaded, fun hperm => ?_⟩
  exact absurd hperm.length_eq (by decide)

end DialServer
