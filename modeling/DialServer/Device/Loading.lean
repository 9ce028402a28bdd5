import DialServer.Device.Registration
import DialServer.Source.Loading

/-!
# Configurations

What `runDial` and the callbacks need of the list of entries (`Sound`), and which configurations
give such a list. A text for `loadConfig` is a sequence of sections, and what counts is the last
value of each key in a section (`section_info`); a document for `loadJson` has all five strings of
every application, but without an application the list has no end.
-/

namespace DialServer

open CLib Program

/-! ## What the server needs -/

/-- A new server on a device, with any disk and any supply of resources. -/
def StartsOn (d : Device) (s : System World) : Prop :=
  ∃ files supply platform, s = DIAL_create files supply ⟨d, [], false⟩ platform

/-- The entries that the loop of `runDial` visits have a name and a handler, and those that it
registers have what their callbacks need. -/
structure NoNull (build : Build) (blocks : ℕ → Block) (entries : List appInfo)
    (s : System World) : Prop where
  visited : ∀ i t entry, ReachesEntry build blocks entries s i t → entries[i]? = some entry →
    entry.name ≠ none ∧ entry.handler ≠ none
  registered : ∀ i entry name, RegisteredFrom build blocks entries s i name →
    entries[i]? = some entry →
    entry.callsign ≠ none ∧ (entry.handler = some (bytes "YouTube") → entry.url ≠ none)

/-- The list of entries is there and ends with a null pointer, and no null pointer is in the way of
any new server on the device. -/
def Sound (build : Build) (d : Device) : Prop :=
  ∃ entries, d.appInfoList = some ⟨entries, none⟩ ∧
    ∀ blocks s, StartsOn d s → NoNull build blocks entries s

/-- What an entry needs. -/
structure FilledIn (build : Build) (entry : appInfo) : Prop where
  name : entry.name ≠ none
  handler : entry.handler ≠ none
  callsign : Known build entry → entry.callsign ≠ none
  url : entry.handler = some (bytes "YouTube") → entry.url ≠ none

/-- A supply that refuses the first requests, and then grants all. -/
def refuses (k : ℕ) : Supply := fun n => k ≤ n

/-- One refusal less is left after a request. -/
theorem refuses_after (k : ℕ) : (refuses (k + 1)).after 1 = refuses k := by
  funext n
  simp [refuses, Supply.after]

section Loop

variable {build : Build} {entries : List appInfo} {blocks : ℕ → Block} {s t : System World}

/-- The loop comes to an entry without any application, when the mutex is refused to all before. -/
theorem reaches_refused {i : ℕ} (hle : i ≤ entries.length)
    (hnonnull : ∀ j < i, ∀ entry, entries[j]? = some entry →
      entry.name ≠ none ∧ entry.handler ≠ none) :
    ∃ k, ∀ m (s : System World), s.apps = [] → s.mux = false → s.supply = refuses (m + k) →
      ∃ t, ReachesEntry build blocks entries s i t ∧ t.apps = [] ∧ t.mux = false ∧
        t.supply = refuses m := by
  induction i with
  | zero =>
    exact ⟨0, fun m s hs hfree hsupply => ⟨s, ⟨[], by simp [register_entries]⟩, hs, hfree, hsupply⟩⟩
  | succ i ih =>
    obtain ⟨k, hk⟩ := ih (by omega) fun j hj => hnonnull j (by omega)
    obtain ⟨hname, hhandler⟩ := hnonnull i (by omega) entries[i] (List.getElem?_eq_getElem hle)
    obtain ⟨name, hname⟩ := Option.ne_none_iff_exists'.mp hname
    obtain ⟨handler, hhandler⟩ := Option.ne_none_iff_exists'.mp hhandler
    cases hknown : app_handler build handler with
    | none =>
      -- The entry is passed over.
      refine ⟨k, fun m s hs hfree hsupply => ?_⟩
      obtain ⟨t, hreach, ht⟩ := hk m s hs hfree hsupply
      have hentry : register_entry build entries[i] (blocks i) t = some (none, [], t) := by
        simp [register_entry, hhandler, hknown]
      exact ⟨t, hreach.step hle hentry, ht⟩
    | some registration =>
      refine ⟨k + 1, fun m s hs hfree hsupply => ?_⟩
      obtain ⟨t, hreach, happs, hmux, ht⟩ := hk (m + 1) s hs hfree (by rw [hsupply]; congr 1; omega)
      have hrefused : t.supply 0 = false := by
        rw [ht]
        simp [refuses]
      have hentry : register_entry build entries[i] (blocks i) t =
          some (some (-1), [], { t with supply := t.supply.after 1 }) := by
        simp [register_entry, hhandler, hknown, hname, bind_apply,
          DIAL_register_app_refused hrefused]
      refine ⟨_, hreach.step hle hentry, happs, hmux, ?_⟩
      show t.supply.after 1 = refuses m
      rw [ht, refuses_after]

/-- In some run an entry with a known handler is registered, whatever stands before it. -/
theorem exists_registeredFrom {i : ℕ} {entry : appInfo} {d : Device}
    (hnonnull : ∀ entry ∈ entries, entry.name ≠ none ∧ entry.handler ≠ none)
    (hget : entries[i]? = some entry) (hknown : Known build entry) (blocks : ℕ → Block) :
    ∃ s name, StartsOn d s ∧ RegisteredFrom build blocks entries s i name := by
  have hle : i ≤ entries.length := (List.getElem?_eq_some_iff.mp hget).1.le
  obtain ⟨name, hname⟩ :=
    Option.ne_none_iff_exists'.mp (hnonnull entry (List.mem_of_getElem? hget)).1
  obtain ⟨k, hk⟩ := @reaches_refused build entries blocks i hle fun j _ entry hentry =>
    hnonnull entry (List.mem_of_getElem? hentry)
  obtain ⟨t, hreach, happs, -, hsupply⟩ := hk 0 (DIAL_create (fun _ => none) (refuses (0 + k))
    ⟨d, [], false⟩ ⟨56789, fun _ => false⟩) rfl rfl rfl
  have hregisters : Registers build entry t := by
    refine ⟨hknown, name, hname, by simp [happs], fun n _ => ?_⟩
    rw [hsupply]
    simp [refuses]
  exact ⟨_, name, ⟨_, _, _, rfl⟩, (registeredFrom_iff rfl rfl).mpr
    ⟨entry, t, hreach, hget, hname, hregisters⟩⟩

/-- A configuration is sound exactly when all of its entries are complete. -/
theorem sound_iff {d : Device} :
    Sound build d ↔ ∃ entries, d.appInfoList = some ⟨entries, none⟩ ∧
      ∀ entry ∈ entries, FilledIn build entry := by
  constructor
  · rintro ⟨entries, hlist, hsound⟩
    -- The loop comes to every entry, as long as nothing is missing before it.
    have hprefix (i : ℕ) (hi : i ≤ entries.length) : ∀ j < i, ∀ entry, entries[j]? = some entry →
        entry.name ≠ none ∧ entry.handler ≠ none := by
      induction i with
      | zero => exact fun j hj => absurd hj (by omega)
      | succ i ih =>
        have hbefore := ih (by omega)
        intro j hj entry hget
        rcases Nat.lt_succ_iff_lt_or_eq.mp hj with hj | rfl
        · exact hbefore j hj entry hget
        · obtain ⟨k, hk⟩ := @reaches_refused build entries zero_blocks j (by omega) hbefore
          obtain ⟨t, hreach, -⟩ := hk 0 (DIAL_create (fun _ => none) (refuses (0 + k))
            ⟨d, [], false⟩ ⟨56789, fun _ => false⟩) rfl rfl rfl
          exact (hsound zero_blocks _ ⟨_, _, _, rfl⟩).visited j t entry hreach hget
    have hnonnull : ∀ entry ∈ entries, entry.name ≠ none ∧ entry.handler ≠ none := by
      intro entry hentry
      obtain ⟨i, hi⟩ := List.getElem?_of_mem hentry
      exact hprefix _ le_rfl i (List.getElem?_eq_some_iff.mp hi).1 entry hi
    refine ⟨entries, hlist, fun entry hentry => ?_⟩
    obtain ⟨i, hget⟩ := List.getElem?_of_mem hentry
    have hregistered (hknown : Known build entry) : entry.callsign ≠ none ∧
        (entry.handler = some (bytes "YouTube") → entry.url ≠ none) := by
      obtain ⟨s, name, hstarts, hfrom⟩ := @exists_registeredFrom build entries i entry d hnonnull
        hget hknown zero_blocks
      exact (hsound zero_blocks s hstarts).registered i entry name hfrom hget
    refine ⟨(hnonnull entry hentry).1, (hnonnull entry hentry).2, fun h => (hregistered h).1, ?_⟩
    intro hyoutube
    exact (hregistered ⟨_, hyoutube, by simp [app_handler]⟩).2 hyoutube
  · rintro ⟨entries, hlist, hcomplete⟩
    refine ⟨entries, hlist, fun blocks s hs => ⟨fun i t entry _ hget => ?_, ?_⟩⟩
    · have h := hcomplete entry (List.mem_of_getElem? hget)
      exact ⟨h.name, h.handler⟩
    · intro i entry name hfrom hget
      obtain ⟨files, supply, platform, rfl⟩ := hs
      obtain ⟨entry', t, -, hget', -, hregs⟩ := (registeredFrom_iff rfl rfl).mp hfrom
      obtain rfl : entry' = entry := Option.some.inj (hget'.symm.trans hget)
      have h := hcomplete entry' (List.mem_of_getElem? hget)
      exact ⟨h.callsign hregs.1, h.url⟩

/-- On a sound configuration `runDial` gets past the registrations. -/
theorem Sound.runDial_returns {d : Device} (h : Sound build d) (blocks : ℕ → Block)
    (hs : StartsOn d s) : ∃ e t, runDial build blocks s = some ((), e, t) := by
  obtain ⟨files, supply, platform, rfl⟩ := hs
  obtain ⟨entries, hlist, hcomplete⟩ := sound_iff.mp h
  set s := DIAL_create files supply (⟨d, [], false⟩ : World) platform
  have hreaches (i : ℕ) (hi : i ≤ entries.length) :
      ∃ t, ReachesEntry build blocks entries s i t := by
    induction i with
    | zero => exact ⟨s, [], by simp [register_entries]⟩
    | succ i ih =>
      obtain ⟨r, hreach⟩ := ih (by omega)
      have hfree := (hreach.registered rfl rfl (by omega)).free
      have hentry := hcomplete entries[i] (List.getElem_mem hi)
      obtain ⟨result, e, t, hrun, -⟩ := @register_entry_free build _ r hfree hentry.handler
        hentry.name (blocks i)
      exact ⟨t, hreach.step hi hrun⟩
  obtain ⟨t, e, hrun⟩ := hreaches entries.length le_rfl
  refine ⟨e, t, ?_⟩
  unfold runDial
  rw [read_bind_apply, show s.world.device.appInfoList = some ⟨entries, none⟩ from hlist]
  rw [List.take_length] at hrun
  exact hrun

end Loop

/-! ## Sections -/

/-- The pairs in front of the next section. -/
def own_pairs : List ConfigLine → List (Bytes × Bytes)
  | [] => []
  | .section_start _ :: _ => []
  | .pair key val :: lines => (key, val) :: own_pairs lines
  | .parsing_error :: lines | .ignored :: lines => own_pairs lines

/-- The sections of applications, each with its name and its pairs. -/
def app_sections : List ConfigLine → List (Bytes × List (Bytes × Bytes))
  | [] => []
  | .section_start key :: lines =>
    if key = bytes "configuration" then app_sections lines
    else (key, own_pairs lines) :: app_sections lines
  | .pair _ _ :: lines | .parsing_error :: lines | .ignored :: lines => app_sections lines

/-- The last value of a key. -/
def value_of (key : String) (pairs : List (Bytes × Bytes)) : Option Bytes :=
  ((pairs.filter fun pair => pair.1 = bytes key).getLast?).map Prod.snd

/-- The entry that a section describes. -/
def section_info (app_section : Bytes × List (Bytes × Bytes)) : appInfo where
  name := some app_section.1
  handler := value_of "handler" app_section.2
  callsign := value_of "callsign" app_section.2
  hide := value_of "hide" app_section.2
  url := value_of "url" app_section.2

/-- One pair more. -/
theorem value_of_concat (key : String) (pairs : List (Bytes × Bytes)) (pair : Bytes × Bytes) :
    value_of key (pairs ++ [pair]) =
      if pair.1 = bytes key then some pair.2 else value_of key pairs := by
  unfold value_of
  rw [List.filter_append]
  split_ifs with h
  · simp [h]
  · simp [h]

/-- The assignments for pairs. -/
def add_pairs (pairs : List (Bytes × Bytes)) (app : appInfo) : appInfo :=
  pairs.foldl (fun app pair => set_key pair.1 pair.2 app) app

/-- The assignments for the pairs of a section give its entry. -/
theorem add_pairs_eq (name : Bytes) (pairs : List (Bytes × Bytes)) :
    add_pairs pairs (named_app name) = section_info (name, pairs) := by
  induction pairs using List.reverseRecOn with
  | nil => rfl
  | append_singleton pairs pair ih =>
    have hconcat : add_pairs (pairs ++ [pair]) (named_app name) =
        set_key pair.1 pair.2 (section_info (name, pairs)) := by
      rw [← ih]
      simp [add_pairs]
    have hdistinct : ["handler", "hide", "url", "callsign"].Pairwise fun k k' =>
        bytes k ≠ bytes k' := by
      decide
    rw [hconcat]
    simp only [section_info, set_key, value_of_concat]
    split_ifs <;> simp_all

/-- The entries that the loop of `loadConfig` makes of lines: those of the sections, the last in
front, and behind them those from before, of which the first gets the pairs up to the first
section. -/
theorem foldl_load_line_head (lines : List ConfigLine) (s : LoadState) :
    (lines.foldl load_line s).head = ((app_sections lines).map section_info).reverse ++
      if s.app then s.head.modifyHead (add_pairs (own_pairs lines)) else s.head := by
  have hnone (head : List appInfo) : head.modifyHead (add_pairs []) = head := by
    cases head <;> rfl
  induction lines generalizing s with
  | nil => simp [app_sections, own_pairs, hnone]
  | cons line lines ih =>
    rw [List.foldl_cons, ih]
    cases line with
    | section_start key =>
      by_cases hkey : key = bytes "configuration"
      · simp [load_line, app_sections, own_pairs, hkey, hnone]
      · simp [load_line, app_sections, own_pairs, hkey, hnone, add_pairs_eq]
    | pair key val =>
      have hpair (head : List appInfo) :
          (head.modifyHead (set_key key val)).modifyHead (add_pairs (own_pairs lines)) =
            head.modifyHead (add_pairs ((key, val) :: own_pairs lines)) := by
        cases head <;> rfl
      by_cases happ : s.app
      · simp [load_line, app_sections, own_pairs, happ, hpair]
      · simp only [load_line, app_sections, own_pairs, happ, Bool.false_eq_true, if_false]
        split_ifs <;> simp_all
    | parsing_error => rfl
    | ignored => rfl

/-! ## The loaders -/

/-- What `loadConfig` makes of a text. -/
theorem loadConfig_eq (text : Bytes) (d : Device) : ∃ d', loadConfig (some text) d =
    some (0, [], d') ∧ d'.appInfoList =
      some ⟨((app_sections (config_lines text)).map section_info).reverse, none⟩ := by
  refine ⟨_, rfl, ?_⟩
  show some (AppInfoList.mk _ none) = _
  rw [foldl_load_line_head]
  simp

/-- What `loadJson` makes of a document. -/
theorem loadJson_eq (file : JsonFile) (next : Option Pointer) (d : Device) : ∃ ret d',
    loadJson file next d = some (ret, [], d') ∧ d'.appInfoList =
      some ⟨file.jsonResult.apps.map json_info,
        if file.jsonResult.apps = [] then next else none⟩ := by
  refine ⟨_, _, rfl, ?_⟩
  show some (file.jsonResult.apps.foldl link_app_info ⟨[], next⟩) = _
  induction file.jsonResult.apps using List.reverseRecOn with
  | nil => rfl
  | append_singleton apps obj ih =>
    rw [List.foldl_append, Option.some.inj ih]
    simp [link_app_info]

/-- **Configurations that cannot crash the server.** What `loadConfig` loads at the start is sound
if and only if the file can be opened and every section of an application has a handler, with a
callsign if `runDial` knows the handler and a URL if it is YouTube. What `loadJson` loads is sound
if and only if the document has an application, or the first node happens to end the list. -/
theorem loaded_configuration_sound_iff {d : Device} (hstart : d.appInfoList = none) :
    (∀ file, ∃ ret e d', loadConfig file d = some (ret, e, d') ∧
      (Sound .appman d' ↔ ∃ text, file = some text ∧
        ∀ app_section ∈ app_sections (config_lines text),
          FilledIn .appman (section_info app_section))) ∧
    ∀ file next, ∃ ret e d', loadJson file next d = some (ret, e, d') ∧
      (Sound .thunder_api d' ↔ file.jsonResult.apps ≠ [] ∨ next = none) := by
  constructor
  · intro file
    cases file with
    | none =>
      refine ⟨1, [], d, rfl, ?_⟩
      rw [sound_iff, hstart]
      simp
    | some text =>
      obtain ⟨d', hload, hlist⟩ := loadConfig_eq text d
      refine ⟨0, [], d', hload, ?_⟩
      rw [sound_iff, hlist]
      constructor
      · rintro ⟨entries, hentries, hcomplete⟩
        obtain ⟨rfl, -⟩ := AppInfoList.mk.inj (Option.some.inj hentries)
        refine ⟨text, rfl, fun app_section hsection => hcomplete _ ?_⟩
        exact List.mem_reverse.mpr (List.mem_map_of_mem hsection)
      · rintro ⟨text', htext, hcomplete⟩
        obtain rfl := Option.some.inj htext
        refine ⟨_, rfl, fun entry hentry => ?_⟩
        obtain ⟨app_section, hsection, rfl⟩ := List.mem_map.mp (List.mem_reverse.mp hentry)
        exact hcomplete app_section hsection
  · intro file next
    obtain ⟨ret, d', hload, hlist⟩ := loadJson_eq file next d
    refine ⟨ret, [], d', hload, ?_⟩
    rw [sound_iff, hlist]
    have hcomplete : ∀ entry ∈ file.jsonResult.apps.map json_info, FilledIn .thunder_api entry := by
      intro entry hentry
      obtain ⟨obj, -, rfl⟩ := List.mem_map.mp hentry
      exact ⟨by simp [json_info], by simp [json_info], by simp [json_info], by simp [json_info]⟩
    by_cases happs : file.jsonResult.apps = []
    · simp [happs]
    · simp only [if_neg happs, Option.some.injEq, AppInfoList.mk.injEq, and_true]
      exact iff_of_true ⟨_, rfl, hcomplete⟩ (.inl happs)

/-- The device before the configuration is loaded. -/
def unloaded_device : Device := { configured_device with appInfoList := none }

/-- A configuration with YouTube, Netflix, and an application that `runDial` does not register. -/
def complete_conf : Bytes :=
  bytes "[configuration]\npassivemode=false\n\n# with a URL\n" ++
    bytes "[YouTube]\nhandler=YouTube\nhide=true\ncallsign=youtube\nurl=https://youtube.com/tv\n" ++
    bytes "[Netflix]\nhandler=Netflix\ncallsign=netflix\n[Browser]\nhandler=Browser"

/-- Its sections. -/
theorem complete_conf_sections : (app_sections (config_lines complete_conf)).map section_info =
    [⟨some (bytes "YouTube"), some (bytes "YouTube"), some (bytes "youtube"), some (bytes "true"),
        some (bytes "https://youtube.com/tv")⟩,
      { named_app (bytes "Netflix") with
        handler := some (bytes "Netflix"), callsign := some (bytes "netflix") },
      { named_app (bytes "Browser") with handler := some (bytes "Browser") }] := by
  decide

/-- Its sections are complete, and so is a document with one application. -/
theorem complete_conf_sound :
    (∃ ret e d, loadConfig (some complete_conf) unloaded_device = some (ret, e, d) ∧
      Sound .appman d) ∧
    ∃ ret e d, loadJson (.read true ⟨false, [⟨bytes "YouTube", bytes "YouTube", [], [], []⟩]⟩)
      (some 1) unloaded_device = some (ret, e, d) ∧ Sound .thunder_api d := by
  obtain ⟨hconfig, hjson⟩ := @loaded_configuration_sound_iff unloaded_device rfl
  constructor
  · obtain ⟨ret, e, d, hload, hsound⟩ := hconfig (some complete_conf)
    refine ⟨ret, e, d, hload, hsound.mpr ⟨_, rfl, fun app_section hsection => ?_⟩⟩
    have hmem := List.mem_map_of_mem (f := section_info) hsection
    rw [complete_conf_sections] at hmem
    simp only [List.mem_cons, List.not_mem_nil, or_false] at hmem
    rcases hmem with h | h | h <;> rw [h]
    · exact ⟨by simp, by simp, by simp, by simp⟩
    · exact ⟨by simp [named_app], by simp, by simp, by decide⟩
    · have hunknown : ¬Known .appman
          { named_app (bytes "Browser") with handler := some (bytes "Browser") } := by
        rintro ⟨handler, hhandler, hknown⟩
        obtain rfl := Option.some.inj hhandler
        exact hknown rfl
      exact ⟨by simp [named_app], by simp, fun h => absurd h hunknown, by decide⟩
  · obtain ⟨ret, e, d, hload, hsound⟩ :=
      hjson (.read true ⟨false, [⟨bytes "YouTube", bytes "YouTube", [], [], []⟩]⟩) (some 1)
    exact ⟨ret, e, d, hload, hsound.mpr (.inl (by simp [JsonFile.jsonResult]))⟩

/-- A file that cannot be opened leaves the null pointer, a section without a handler leaves a null
handler, and a document without applications a list without an end. -/
theorem incomplete_configurations :
    (∃ d, loadConfig none unloaded_device = some (1, [], d) ∧ ¬Sound .appman d) ∧
    (∃ d, loadConfig (some (bytes "[YouTube]\n")) unloaded_device = some (0, [], d) ∧
      ¬Sound .appman d) ∧
    ∃ d, loadJson (.read true ⟨false, []⟩) (some 1) unloaded_device = some (0, [], d) ∧
      ¬Sound .thunder_api d := by
  refine ⟨⟨_, rfl, ?_⟩, ⟨_, rfl, ?_⟩, ⟨_, rfl, ?_⟩⟩
  · rw [sound_iff]
    simp [unloaded_device]
  · rintro hsound
    obtain ⟨entries, hlist, hcomplete⟩ := sound_iff.mp hsound
    obtain rfl : [named_app (bytes "YouTube")] = entries :=
      congrArg AppInfoList.entries (Option.some.inj hlist)
    exact (hcomplete _ (List.mem_singleton.mpr rfl)).handler rfl
  · rw [sound_iff]
    simp [JsonFile.jsonResult]

end DialServer
