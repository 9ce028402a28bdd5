import DialServer.Device.Loading

/-!
# Printed configurations

A configuration file that is written from a list of records: a `[name]` line for each, its
`key=value` lines behind it in any order, one `[configuration]` section with the mode in front of
the records, between two of them or behind them, and blank lines and comments wherever the writer
likes (`Printed`). A line that is passed over changes nothing, the lines of a record put it in front
of the list (`load_record`), and the section of the mode only sets the mode, so that `loadConfig`
reads all of it back.
-/

set_option maxRecDepth 8000

namespace DialServer

open CLib Program

/-- A text that can be a value: it has no white space and no terminator. -/
def IsValue (val : Bytes) : Prop := ∀ c ∈ val, isspace c = false ∧ c ≠ 0

/-- A text that can be the name of a record. -/
structure IsName (name : Bytes) : Prop where
  ne_configuration : name ≠ bytes "configuration"
  head : ∀ c ∈ name.head?, isspace c = false
  chars : ∀ c ∈ name, c ≠ chr ']' ∧ c ≠ chr '\n' ∧ c ≠ 0

/-- The keys of a record that has them, with their values. -/
def app_pairs (app : appInfo) : List (Bytes × Bytes) :=
  app.handler.toList.map (bytes "handler", ·) ++ app.hide.toList.map (bytes "hide", ·) ++
    app.url.toList.map (bytes "url", ·) ++ app.callsign.toList.map (bytes "callsign", ·)

/-- A record that can be written to a configuration file. -/
structure Writable (app : appInfo) : Prop where
  name : ∃ name, app.name = some name ∧ IsName name
  values : ∀ pair ∈ app_pairs app, IsValue pair.2

/-- A line with a key and its value. -/
def pair_text (pair : Bytes × Bytes) : Bytes := pair.1 ++ chr '=' :: pair.2

/-- The lines of a record, those of its keys in any order. -/
def RecordLines (app : appInfo) (lines : List Bytes) : Prop :=
  ∃ (name : Bytes) (pairs : List (Bytes × Bytes)), app.name = some name ∧
    pairs.Perm (app_pairs app) ∧ lines = (chr '[' :: name ++ [chr ']']) :: pairs.map pair_text

/-- The lines of the section with the mode. -/
def configuration_lines (b : Bytes) : List Bytes :=
  [bytes "[configuration]", pair_text (bytes "passivemode", b)]

/-- A line that is passed over: a blank line, or a comment. -/
def Passed (line : Bytes) : Prop :=
  chr '\n' ∉ line ∧ ∃ blanks, (∀ c ∈ blanks, isspace c = true) ∧
    (line = blanks ∨ ∃ comment, line = blanks ++ chr '#' :: comment)

/-- Lines among which there are any number of lines that are passed over. -/
inductive Among : List Bytes → List Bytes → Prop
  | nil : Among [] []
  | line (l : Bytes) {core lines : List Bytes} : Among core lines → Among (l :: core) (l :: lines)
  | passed {l : Bytes} (h : Passed l) {core lines : List Bytes} : Among core lines →
      Among core (l :: lines)

/-- The lines of a configuration with the section of the mode behind the first records. -/
def Printed (before after : List appInfo) (b : Bytes) (lines : List Bytes) : Prop :=
  ∃ blocks blocks', List.Forall₂ RecordLines before blocks ∧
    List.Forall₂ RecordLines after blocks' ∧
    Among (blocks.flatten ++ configuration_lines b ++ blocks'.flatten) lines

/-- The text of lines. -/
def print_lines (lines : List Bytes) : Bytes := lines.flatMap (· ++ [chr '\n'])

/-! ## Lines -/

/-- What the loop takes a printed line for. -/
def read_line (line : Bytes) : ConfigLine := config_line (line ++ [chr '\n'])

/-- `getline` returns the first line. -/
theorem getline_lines_line {line : Bytes} (h : chr '\n' ∉ line) (text : Bytes) :
    getline_lines (line ++ chr '\n' :: text) = (line ++ [chr '\n']) :: getline_lines text := by
  induction line with
  | nil => simp [getline_lines]
  | cons c line ih =>
    rw [List.mem_cons, not_or] at h
    rw [List.cons_append, getline_lines, if_neg (Ne.symm h.1), ih h.2]
    rfl

/-- The lines of a text are read one after another. -/
theorem config_lines_print {lines : List Bytes} (h : ∀ line ∈ lines, chr '\n' ∉ line) :
    config_lines (print_lines lines) = lines.map read_line := by
  unfold config_lines
  induction lines with
  | nil => rfl
  | cons line lines ih =>
    obtain ⟨hline, hlines⟩ := List.forall_mem_cons.mp h
    have htext : print_lines (line :: lines) = line ++ chr '\n' :: print_lines lines := by
      simp [print_lines]
    rw [htext, getline_lines_line hline, List.map_cons, ih hlines]
    rfl

/-- White space in front of a line does not matter. -/
theorem dropWhile_blanks {blanks : Bytes} (h : ∀ c ∈ blanks, isspace c = true) (s : Bytes) :
    (cstr (blanks ++ s)).dropWhile isspace = (cstr s).dropWhile isspace := by
  have hzero : isspace 0 = false := by decide
  have hall : ∀ c ∈ blanks, decide (c ≠ 0) = true := by
    intro c hc
    refine decide_eq_true fun hnull => ?_
    rw [hnull] at hc
    exact absurd (h 0 hc) (by simp [hzero])
  have happend : cstr (blanks ++ s) = blanks ++ cstr s :=
    List.takeWhile_append_of_pos hall
  rw [happend, List.dropWhile_append_of_pos h]

/-- A line that is passed over. -/
theorem read_line_passed {line : Bytes} (h : Passed line) : read_line line = .ignored := by
  obtain ⟨-, blanks, hblanks, rfl | ⟨comment, rfl⟩⟩ := h
  · unfold read_line config_line
    rw [dropWhile_blanks hblanks]
    rfl
  · unfold read_line config_line
    rw [List.append_assoc, dropWhile_blanks hblanks]
    rfl

/-- The first line of a section. -/
theorem read_line_section {name : Bytes} (hhead : ∀ c ∈ name.head?, isspace c = false)
    (hname : ∀ c ∈ name, c ≠ chr ']' ∧ c ≠ 0) :
    read_line (chr '[' :: name ++ [chr ']']) = .section_start name := by
  have hzero : (0 : UInt8) ∉ chr '[' :: name ++ [chr ']'] ++ [chr '\n'] := by
    have h : (0 : UInt8) ∉ name := fun hmem => (hname 0 hmem).2 rfl
    simpa [chr] using h
  have hskip : (name ++ [chr ']', chr '\n']).dropWhile isspace = name ++ [chr ']', chr '\n'] := by
    cases name with
    | nil => rfl
    | cons c name => simp [hhead c rfl]
  have hkey : (name ++ [chr ']', chr '\n']).takeWhile (fun c => c ≠ chr ']') = name := by
    have hall : ∀ c ∈ name, decide (c ≠ chr ']') = true := fun c hc =>
      decide_eq_true (hname c hc).1
    rw [List.takeWhile_append_of_pos hall]
    exact List.append_nil name
  have hline : config_line (chr '[' :: name ++ [chr ']'] ++ [chr '\n']) =
      .section_start (((name ++ [chr ']', chr '\n']).dropWhile isspace).takeWhile
        fun c => c ≠ chr ']') := by
    unfold config_line
    rw [cstr_of_notMem hzero]
    simp only [List.cons_append, List.append_assoc, List.nil_append]
    rfl
  rw [read_line, hline, hskip, hkey]

/-- Letters and digits are characters of keys. -/
theorem key_char_of_isalnum (c : UInt8) (h : isalnum c = true) :
    is_key_char c = true ∧ isspace c = false ∧ c ≠ chr '#' ∧ c ≠ chr '[' ∧ c ≠ 0 := by
  refine ⟨?_, ?_, ne_of_isalnum h (by decide), ne_of_isalnum h (by decide),
    ne_of_isalnum h (by decide)⟩
  · have hequals : c ≠ chr '=' := ne_of_isalnum h (by decide)
    simp [is_key_char, h, hequals]
  · -- White space is in front of the letters and digits.
    rw [← Bool.not_eq_true]
    simp only [isalnum, isdigit, isspace, Bool.or_eq_true, Bool.and_eq_true, decide_eq_true_eq,
      UInt8.le_iff_toNat_le, ← UInt8.toNat_inj, UInt8.reduceToNat] at h ⊢
    omega

/-- A line with a key and its value. -/
theorem read_line_pair {key val : Bytes} (hne : key ≠ []) (hkey : ∀ c ∈ key, isalnum c = true)
    (hval : IsValue val) : read_line (pair_text (key, val)) = .pair key val := by
  obtain ⟨c, rest, rfl⟩ := List.exists_cons_of_ne_nil hne
  have hc := hkey c (List.mem_cons_self ..)
  obtain ⟨-, hspace, hhash, hbracket, -⟩ := key_char_of_isalnum c hc
  have hchars : ∀ c' ∈ c :: rest, is_key_char c' = true := fun c' hc' =>
    (key_char_of_isalnum c' (hkey c' hc')).1
  have hequals : is_key_char (chr '=') = false := by decide
  have hzero : (0 : UInt8) ∉ c :: rest ++ chr '=' :: (val ++ [chr '\n']) := by
    intro hmem
    rcases List.mem_append.mp hmem with hmem | hmem
    · exact (key_char_of_isalnum 0 (hkey 0 hmem)).2.2.2.2 rfl
    · have hval' : (0 : UInt8) ∉ val := fun hmem => (hval 0 hmem).2 rfl
      simp [chr, hval'] at hmem
  have hdrop : (c :: rest ++ chr '=' :: (val ++ [chr '\n'])).dropWhile is_key_char =
      chr '=' :: (val ++ [chr '\n']) := by
    rw [List.dropWhile_append_of_pos hchars]
    simp [hequals]
  have htake : (c :: rest ++ chr '=' :: (val ++ [chr '\n'])).takeWhile is_key_char = c :: rest := by
    rw [List.takeWhile_append_of_pos hchars]
    simp [hequals]
  have hvalue : ((val ++ [chr '\n']).dropWhile isspace).takeWhile (fun c => !isspace c) = val := by
    have hnewline : isspace (chr '\n') = true := rfl
    cases val with
    | nil => rfl
    | cons b val =>
      have hall : ∀ c ∈ b :: val, (!isspace c) = true := fun c hc => by simp [(hval c hc).1]
      have hstay : (b :: val ++ [chr '\n']).dropWhile isspace = b :: val ++ [chr '\n'] := by
        simp [(hval b (List.mem_cons_self ..)).1]
      rw [hstay, List.takeWhile_append_of_pos hall]
      simp [hnewline]
  have htext : pair_text (c :: rest, val) ++ [chr '\n'] =
      c :: rest ++ chr '=' :: (val ++ [chr '\n']) := by
    simp [pair_text]
  have hpair : pair_line (c :: rest ++ chr '=' :: (val ++ [chr '\n'])) = .pair (c :: rest) val := by
    unfold pair_line
    rw [hdrop]
    simp only [if_true]
    rw [htake, hvalue]
  rw [read_line, htext]
  unfold config_line
  rw [cstr_of_notMem hzero, ← hpair]
  simp only [List.cons_append, List.dropWhile_cons, hspace, Bool.false_eq_true, if_false, hhash,
    hbracket, hc, if_true]

/-! ## Records -/

/-- The keys that a record can have. -/
def record_keys : List Bytes := [bytes "handler", bytes "hide", bytes "url", bytes "callsign"]

/-- The keys of a record are among them. -/
theorem key_of_mem_app_pairs {app : appInfo} {pair : Bytes × Bytes} (h : pair ∈ app_pairs app) :
    pair.1 ∈ record_keys := by
  simp only [app_pairs, List.mem_append, List.mem_map] at h
  rcases h with ((⟨_, -, rfl⟩ | ⟨_, -, rfl⟩) | ⟨_, -, rfl⟩) | ⟨_, -, rfl⟩
  all_goals simp [record_keys]

/-- A key of a record is a word of letters. -/
theorem record_key_letters : ∀ key ∈ bytes "passivemode" :: record_keys,
    key ≠ [] ∧ ∀ c ∈ key, isalnum c = true := by
  have hall : (bytes "passivemode" :: record_keys).all (fun key => key ≠ [] && key.all isalnum) =
      true := by
    decide
  simpa using hall

/-- Where a key has one value at most, its value does not depend on the order. -/
theorem value_of_perm {key : String} {pairs pairs' : List (Bytes × Bytes)}
    (h : pairs.Perm pairs') {val : Option Bytes}
    (hval : (pairs'.filter fun pair => pair.1 = bytes key) = val.toList.map (bytes key, ·)) :
    value_of key pairs = val := by
  have hfilter := h.filter (fun pair => decide (pair.1 = bytes key))
  rw [hval] at hfilter
  unfold value_of
  cases val with
  | none =>
    rw [List.perm_nil.mp hfilter]
    rfl
  | some val =>
    rw [List.perm_singleton.mp hfilter]
    rfl

/-- The pairs of a record, in whatever order, are those of a section that describes it. -/
theorem section_info_perm {app : appInfo} {name : Bytes} (hname : app.name = some name)
    {pairs : List (Bytes × Bytes)} (h : pairs.Perm (app_pairs app)) :
    section_info (name, pairs) = app := by
  have hdistinct : record_keys.Nodup := by decide
  have hkeys (key : String) (val : Option Bytes) (key' : Bytes) :
      (val.toList.map (key', ·)).filter (fun pair : Bytes × Bytes => pair.1 = bytes key) =
        if key' = bytes key then val.toList.map (key', ·) else [] := by
    cases val with
    | none => simp
    | some val => by_cases hkey : key' = bytes key <;> simp [hkey]
  have hvalue (key : String) (val : Option Bytes)
      (hval : ((app_pairs app).filter fun pair => pair.1 = bytes key) =
        val.toList.map (bytes key, ·)) : value_of key pairs = val :=
    value_of_perm h hval
  simp only [record_keys, List.nodup_cons, List.mem_cons, not_or, List.not_mem_nil, or_false,
    not_false_eq_true, List.nodup_nil, and_true] at hdistinct
  obtain ⟨⟨h₁, h₂, h₃⟩, ⟨h₄, h₅⟩, h₆⟩ := hdistinct
  unfold section_info
  rw [hvalue "handler" app.handler, hvalue "callsign" app.callsign, hvalue "hide" app.hide,
    hvalue "url" app.url, ← hname]
  all_goals
    simp only [app_pairs, List.filter_append, hkeys]
    simp [h₁, h₂, h₃, h₄, h₅, h₆, Ne.symm h₁, Ne.symm h₂, Ne.symm h₃, Ne.symm h₄, Ne.symm h₅,
      Ne.symm h₆]

/-- The lines of pairs add them to the entry at the head. -/
theorem load_pairs (pairs : List (Bytes × Bytes)) (head : List appInfo) (passive : Bool)
    (app : appInfo) :
    (pairs.map fun pair => ConfigLine.pair pair.1 pair.2).foldl load_line
      ⟨app :: head, true, passive⟩ = ⟨add_pairs pairs app :: head, true, passive⟩ := by
  induction pairs generalizing app with
  | nil => rfl
  | cons pair pairs ih =>
    rw [List.map_cons, List.foldl_cons]
    exact ih (set_key pair.1 pair.2 app)

/-- The lines of a record put it in front of the list. -/
theorem load_record {app : appInfo} (happ : Writable app) {lines : List Bytes}
    (h : RecordLines app lines) (s : LoadState) :
    (lines.map read_line).foldl load_line s = ⟨app :: s.head, true, s._passivemode⟩ := by
  obtain ⟨name, pairs, hname, hperm, rfl⟩ := h
  obtain ⟨name', hname', hisname⟩ := happ.name
  obtain rfl : name = name' := Option.some.inj (hname.symm.trans hname')
  have hsection : read_line (chr '[' :: name ++ [chr ']']) = .section_start name :=
    read_line_section hisname.head fun c hc =>
      ⟨(hisname.chars c hc).1, (hisname.chars c hc).2.2⟩
  have hpairs : (pairs.map pair_text).map read_line =
      pairs.map fun pair => ConfigLine.pair pair.1 pair.2 := by
    rw [List.map_map]
    refine List.map_congr_left fun pair hpair => ?_
    have hmem := hperm.mem_iff.mp hpair
    obtain ⟨hne, hletters⟩ := record_key_letters pair.1
      (List.mem_cons_of_mem _ (key_of_mem_app_pairs hmem))
    exact read_line_pair hne hletters (happ.values pair hmem)
  have hopen : load_line s (.section_start name) =
      ⟨named_app name :: s.head, true, s._passivemode⟩ := by
    show (if name ≠ bytes "configuration" then _ else _) = _
    rw [if_pos hisname.ne_configuration]
  rw [List.map_cons, hpairs, hsection, List.foldl_cons, hopen, load_pairs, add_pairs_eq,
    section_info_perm hname hperm]

/-- The lines of records put them in front of the list, the last one first. -/
theorem load_records {apps : List appInfo} (happs : ∀ app ∈ apps, Writable app)
    {blocks : List (List Bytes)} (h : List.Forall₂ RecordLines apps blocks) (s : LoadState) :
    ∃ app, (blocks.flatten.map read_line).foldl load_line s =
      ⟨apps.reverse ++ s.head, app, s._passivemode⟩ := by
  induction h generalizing s with
  | nil => exact ⟨s.app, rfl⟩
  | cons hlines _ ih =>
    obtain ⟨happ, happs⟩ := List.forall_mem_cons.mp happs
    rw [List.flatten_cons, List.map_append, List.foldl_append, load_record happ hlines]
    obtain ⟨app, hload⟩ := ih happs ⟨_ :: s.head, true, s._passivemode⟩
    exact ⟨app, by rw [hload]; simp⟩

/-- The section of the mode sets the mode. -/
theorem load_configuration {b : Bytes} (hb : IsValue b) (s : LoadState) :
    ((configuration_lines b).map read_line).foldl load_line s =
      ⟨s.head, false, b = bytes "true"⟩ := by
  obtain ⟨hne, hletters⟩ := record_key_letters _ (List.mem_cons_self ..)
  have hpair := read_line_pair hne hletters hb
  have hsection : read_line (bytes "[configuration]") = .section_start (bytes "configuration") := by
    decide
  rw [configuration_lines, List.map_cons, List.map_cons, List.map_nil, hpair, hsection]
  rfl

/-! ## The file -/

/-- Lines that are passed over change nothing. -/
theorem load_among {core lines : List Bytes} (h : Among core lines) (s : LoadState) :
    (lines.map read_line).foldl load_line s = (core.map read_line).foldl load_line s := by
  induction h generalizing s with
  | nil => rfl
  | line l _ ih => exact ih (load_line s (read_line l))
  | passed hl _ ih =>
    rw [List.map_cons, List.foldl_cons, read_line_passed hl]
    exact ih s

/-- No line of a configuration has another one in it. -/
theorem newline_notMem {core lines : List Bytes} (h : Among core lines)
    (hcore : ∀ line ∈ core, chr '\n' ∉ line) : ∀ line ∈ lines, chr '\n' ∉ line := by
  induction h with
  | nil => exact hcore
  | line l _ ih =>
    obtain ⟨hl, hcore⟩ := List.forall_mem_cons.mp hcore
    exact List.forall_mem_cons.mpr ⟨hl, ih hcore⟩
  | passed hl _ ih => exact List.forall_mem_cons.mpr ⟨hl.1, ih hcore⟩

/-- A line with a value is one line. -/
theorem newline_notMem_pair {key val : Bytes} (hkey : ∀ c ∈ key, isalnum c = true)
    (hval : IsValue val) : chr '\n' ∉ pair_text (key, val) := by
  intro hmem
  rcases List.mem_append.mp hmem with hmem | hmem
  · exact absurd (hkey _ hmem) (by decide)
  · rcases List.mem_cons.mp hmem with heq | hmem
    · exact absurd heq (by decide)
    · exact absurd (hval _ hmem).1 (by decide)

/-- The lines of records are lines. -/
theorem newline_notMem_records {apps : List appInfo} (happs : ∀ app ∈ apps, Writable app)
    {blocks : List (List Bytes)} (h : List.Forall₂ RecordLines apps blocks) :
    ∀ line ∈ blocks.flatten, chr '\n' ∉ line := by
  induction h with
  | nil => simp
  | cons hlines _ ih =>
    obtain ⟨happ, happs⟩ := List.forall_mem_cons.mp happs
    rw [List.flatten_cons, List.forall_mem_append]
    refine ⟨?_, ih happs⟩
    obtain ⟨name, pairs, hname, hperm, rfl⟩ := hlines
    obtain ⟨name', hname', hisname⟩ := happ.name
    obtain rfl : name = name' := Option.some.inj (hname.symm.trans hname')
    refine List.forall_mem_cons.mpr ⟨?_, List.forall_mem_map.mpr fun pair hpair => ?_⟩
    · have hnotMem : chr '\n' ∉ name := fun hmem => (hisname.chars _ hmem).2.1 rfl
      simpa [chr] using hnotMem
    · have hmem := hperm.mem_iff.mp hpair
      exact newline_notMem_pair (record_key_letters pair.1
        (List.mem_cons_of_mem _ (key_of_mem_app_pairs hmem))).2 (happ.values pair hmem)

/-- **Printed configurations.** From a file that is written from records `loadConfig` makes the list
of them, the last one in front, and it sets the mode to what the one section says. -/
theorem loadConfig_printed {before after : List appInfo}
    (happs : ∀ app ∈ before ++ after, Writable app) {b : Bytes} (hb : IsValue b)
    {lines : List Bytes} (h : Printed before after b lines) (d : Device) :
    loadConfig (some (print_lines lines)) d = some (0, [], { d with
      _passivemode := b = bytes "true"
      appInfoList := some ⟨(before ++ after).reverse, none⟩ }) := by
  obtain ⟨blocks, blocks', hbefore, hafter, hamong⟩ := h
  obtain ⟨hwritable, hwritable'⟩ := List.forall_mem_append.mp happs
  have hlines : ∀ line ∈ lines, chr '\n' ∉ line := by
    refine newline_notMem hamong (List.forall_mem_append.mpr ⟨List.forall_mem_append.mpr
      ⟨newline_notMem_records hwritable hbefore, ?_⟩, newline_notMem_records hwritable' hafter⟩)
    refine List.forall_mem_cons.mpr ⟨by decide, List.forall_mem_singleton.mpr ?_⟩
    exact newline_notMem_pair (record_key_letters _ (List.mem_cons_self ..)).2 hb
  have hload : ∃ app, (config_lines (print_lines lines)).foldl load_line
      ⟨[], false, d._passivemode⟩ = ⟨(before ++ after).reverse, app, b = bytes "true"⟩ := by
    obtain ⟨app, hfirst⟩ := load_records hwritable hbefore ⟨[], false, d._passivemode⟩
    obtain ⟨app', hrest⟩ := load_records hwritable' hafter
      ⟨before.reverse ++ [], false, b = bytes "true"⟩
    refine ⟨app', ?_⟩
    rw [config_lines_print hlines, load_among hamong, List.map_append, List.map_append,
      List.foldl_append, List.foldl_append, hfirst, load_configuration hb, hrest,
      List.reverse_append, List.append_nil]
  obtain ⟨app, hload⟩ := hload
  have hrun : loadConfig (some (print_lines lines)) d = some (0, [], { d with
      _passivemode := ((config_lines (print_lines lines)).foldl load_line
        ⟨[], false, d._passivemode⟩)._passivemode
      appInfoList := some ⟨((config_lines (print_lines lines)).foldl load_line
        ⟨[], false, d._passivemode⟩).head, none⟩ }) := rfl
  rw [hrun, hload]

/-- A record with two keys. -/
def video_app : appInfo :=
  { named_app (bytes "Video") with handler := some (bytes "YouTube"), url := some (bytes "u") }

/-- Two records with the section of the mode between them, a comment and a blank line. -/
def printed_lines : List Bytes :=
  [bytes "# records", bytes "[Video]", bytes "url=u", bytes "handler=YouTube", [],
    bytes "[configuration]", bytes "passivemode=true", bytes "[Browser]"]

/-- They are read back. -/
theorem loadConfig_printed_video : loadConfig (some (print_lines printed_lines)) unloaded_device =
    some (0, [], { unloaded_device with
      _passivemode := true
      appInfoList := some ⟨[named_app (bytes "Browser"), video_app], none⟩ }) := by
  have hname : ∀ name ∈ [bytes "Video", bytes "Browser"], IsName name := by
    intro name hname
    rcases List.mem_pair.mp hname with rfl | rfl
    all_goals constructor <;> decide
  have happs : ∀ app ∈ [video_app] ++ [named_app (bytes "Browser")], Writable app := by
    intro app happ
    rcases List.mem_pair.mp happ with rfl | rfl
    · refine ⟨⟨_, rfl, hname _ (by simp)⟩, ?_⟩
      unfold IsValue
      decide
    · refine ⟨⟨_, rfl, hname _ (by simp)⟩, ?_⟩
      unfold IsValue
      decide
  have hmode : IsValue (bytes "true") := by
    unfold IsValue
    decide
  have hcomment : Passed (bytes "# records") :=
    ⟨by decide, [], by simp, .inr ⟨bytes " records", rfl⟩⟩
  have hblank : Passed [] := ⟨List.not_mem_nil, [], by simp, .inl rfl⟩
  have hprinted : Printed [video_app] [named_app (bytes "Browser")] (bytes "true")
      printed_lines := by
    refine ⟨[[bytes "[Video]", bytes "url=u", bytes "handler=YouTube"]], [[bytes "[Browser]"]],
      .cons ⟨bytes "Video", [(bytes "url", bytes "u"), (bytes "handler", bytes "YouTube")], rfl,
        .swap _ _ _, rfl⟩ .nil, .cons ⟨bytes "Browser", [], rfl, .refl _, rfl⟩ .nil, ?_⟩
    exact .passed hcomment <| .line _ <| .line _ <| .line _ <| .passed hblank <| .line _ <|
      .line _ <| .line _ .nil
  have hload := loadConfig_printed happs hmode hprinted unloaded_device
  rw [hload]
  rfl

end DialServer
