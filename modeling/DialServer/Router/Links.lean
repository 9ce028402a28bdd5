import DialServer.Router.Grammar
import DialServer.Server.Payload
import DialServer.Text.Decoding
import DialServer.Text.Query

/-!
# The links that the server hands out

The answer to a start names the resource of the run in its `Location` header, and the application is
started with the URL of its dial data. Both are built in `handle_app_start`; a request that follows
them passes through `normalise` and comes to the extractors of the router. For names of characters
that a URL does not escape the way leads back to the name.
-/

set_option maxRecDepth 8000

namespace DialServer

open CLib Program

variable {W : Type}

/-- A character of the unreserved set of URLs. -/
def unreserved (c : UInt8) : Bool :=
  isdigit c || (chr 'A' ≤ c && c ≤ chr 'Z') || (chr 'a' ≤ c && c ≤ chr 'z') || c = chr '.' ||
    c = chr '_' || c = chr '~' || c = chr '-'

/-- A name of 1 to 255 unreserved characters that does not begin with two dots. -/
structure LinkName (n : Bytes) : Prop where
  pos : n ≠ []
  length_le : n.length ≤ 255
  unreserved : ∀ c ∈ n, unreserved c = true
  not_double_dots : ¬bytes ".." <+: n

/-- The characters that the code treats specially are not unreserved. -/
theorem unreserved_ne (c : UInt8) (h : unreserved c = true) : c ≠ chr '/' ∧ c ≠ chr '\\' ∧
    c ≠ chr '%' ∧ c ≠ chr '?' ∧ c ≠ chr '+' ∧ c ≠ chr '&' ∧ c ≠ chr '\r' ∧ c ≠ 0 := by
  refine ⟨?_, ?_, ?_, ?_, ?_, ?_, ?_, ?_⟩
  all_goals
    rintro rfl
    exact absurd h (by decide)

/-- Such a name has no slash. -/
theorem LinkName.named {n : Bytes} (h : LinkName n) : Named n :=
  ⟨h.pos, fun hmem => (unreserved_ne _ (h.unreserved _ hmem)).1 rfl⟩

/-! ## Normalisation -/

/-- Without an escape nothing is decoded. -/
theorem url_decode_eq {s : Bytes} (h : chr '%' ∉ s) : url_decode s = s := by
  induction s with
  | nil => rfl
  | cons c s ih =>
    rw [List.mem_cons, not_or] at h
    -- An escape takes three characters, and fewer are left at the end.
    match s, h, ih with
    | [], _, _ => rfl
    | [a], _, ih => simp [url_decode]
    | a :: b :: s, h, ih =>
      rw [url_decode, if_neg (fun hc => h.1 hc.1.symm), ih h.2]

/-- A segment without slashes and what follows it. -/
theorem remove_segment {seg : Bytes} (h : ∀ c ∈ seg, is_slash c = false) (rest : Bytes) :
    remove_double_dots_and_double_slashes (seg ++ rest) =
      seg ++ remove_double_dots_and_double_slashes rest := by
  induction seg with
  | nil => rfl
  | cons c seg ih =>
    obtain ⟨hc, hseg⟩ := List.forall_mem_cons.mp h
    rw [List.cons_append, remove_double_dots_and_double_slashes, hc, ih hseg]
    simp

/-- A slash before something that begins neither with a slash nor with two dots. -/
theorem remove_slash {s : Bytes} (hslash : ∀ c r, s = c :: r → is_slash c = false)
    (hdots : ¬bytes ".." <+: s) :
    remove_double_dots_and_double_slashes (chr '/' :: s) =
      chr '/' :: remove_double_dots_and_double_slashes s := by
  have hdrop : s.dropWhile is_slash = s := by
    cases s with
    | nil => rfl
    | cons c s => simp [hslash c s rfl]
  have hskip : skip_double_dots s = s := by
    match s, hdots with
    | [], _ => rfl
    | [_], _ => rfl
    | c :: d :: s, hdots =>
      unfold skip_double_dots
      rw [if_neg]
      rintro ⟨rfl, rfl⟩
      exact hdots ⟨s, rfl⟩
  rw [remove_double_dots_and_double_slashes, hdrop, hskip]
  simp [is_slash]

/-- A segment that normalisation leaves alone. -/
structure PlainSegment (seg : Bytes) : Prop where
  ne_nil : seg ≠ []
  plain : ∀ c ∈ seg, is_slash c = false ∧ c ≠ chr '%' ∧ c ≠ chr '?' ∧ c ≠ 0
  not_double_dots : ¬bytes ".." <+: seg

/-- A path of segments. -/
def path (segs : List Bytes) : Bytes := segs.flatMap (chr '/' :: ·)

/-- A path of plain segments stays as it is. -/
theorem remove_path {segs : List Bytes} (h : ∀ seg ∈ segs, PlainSegment seg) :
    remove_double_dots_and_double_slashes (path segs) = path segs := by
  induction segs with
  | nil => rw [path, List.flatMap_nil, remove_double_dots_and_double_slashes]
  | cons seg segs ih =>
    obtain ⟨⟨hne, hplain, hdots⟩, hsegs⟩ := List.forall_mem_cons.mp h
    have hpath : path (seg :: segs) = chr '/' :: (seg ++ path segs) := rfl
    obtain ⟨c, seg', rfl⟩ := List.exists_cons_of_ne_nil hne
    rw [hpath, remove_slash, remove_segment fun c hc => (hplain c hc).1, ih hsegs]
    · rintro _ _ ⟨⟩
      exact (hplain c (List.mem_cons_self ..)).1
    · -- Two dots at the front are both of the segment, because a slash follows it.
      rintro ⟨r, hr⟩
      obtain ⟨hc, hr⟩ := List.cons.inj hr
      cases seg' with
      | nil =>
        cases segs with
        | nil => exact absurd hr (by simp [path])
        | cons seg segs => exact absurd (List.cons.inj hr).1 (by decide)
      | cons d seg' =>
        have hd := (List.cons.inj hr).1
        exact hdots ⟨seg', by rw [← hc, ← hd]; rfl⟩

/-- A request for a path of plain segments, with a query or without, reaches the router with that
path. -/
theorem normalise_path {segs : List Bytes} (h : ∀ seg ∈ segs, PlainSegment seg)
    {request_info : mg_request_info} {query : Bytes}
    (huri : request_info.uri = path segs ∨ request_info.uri = path segs ++ chr '?' :: query) :
    (normalise request_info).uri = path segs := by
  have hmem : ∀ c ∈ path segs, c ≠ chr '%' ∧ c ≠ chr '?' ∧ c ≠ 0 := by
    intro c hc
    obtain ⟨seg, hseg, hc⟩ := List.mem_flatMap.mp hc
    rcases List.mem_cons.mp hc with rfl | hc
    · decide
    · exact ((h seg hseg).plain c hc).2
  have hsplit : (split_query request_info.uri).1 = path segs := by
    have hquery : chr '?' ∉ path segs := fun hc => (hmem _ hc).2.1 rfl
    unfold split_query
    rcases huri with huri | huri
    · rw [huri, strchr_eq_none.mpr hquery]
    · rw [huri, strchr_append hquery]
      simp
  unfold normalise
  simp only [hsplit]
  rw [url_decode_eq fun hc => (hmem _ hc).1 rfl, cstr_of_notMem fun hc => (hmem _ hc).2.2 rfl,
    remove_path h]

/-- Normalisation leaves unreserved characters alone. -/
theorem plainSegment_of_unreserved {seg : Bytes} (hne : seg ≠ [])
    (hseg : ∀ c ∈ seg, unreserved c = true) (hdots : ¬bytes ".." <+: seg) : PlainSegment seg where
  ne_nil := hne
  plain c hc := by
    obtain ⟨hslash, hbackslash, hpercent, hquery, -, -, -, hzero⟩ := unreserved_ne c (hseg c hc)
    exact ⟨by simp [is_slash, hslash, hbackslash], hpercent, hquery, hzero⟩
  not_double_dots := hdots

/-- So it leaves the name alone. -/
theorem LinkName.plain {n : Bytes} (h : LinkName n) : PlainSegment n :=
  plainSegment_of_unreserved h.pos h.unreserved h.not_double_dots

/-- The segments of the resources around the name. -/
theorem plain_literals : ∀ seg ∈ [bytes "apps", bytes "run", bytes "hide", bytes "dial_data"],
    PlainSegment seg := by
  have hall : [bytes "apps", bytes "run", bytes "hide", bytes "dial_data"].all (fun seg =>
      seg ≠ [] && (seg.all unreserved && decide (¬bytes ".." <+: seg))) = true := by
    decide
  simp only [List.all_eq_true, Bool.and_eq_true, decide_eq_true_eq] at hall
  intro seg hseg
  obtain ⟨hne, hplain, hdots⟩ := hall seg hseg
  exact plainSegment_of_unreserved hne hplain hdots

/-- The resource of an application, by its segments. -/
theorem app_uri_eq_path (n : Bytes) : app_uri n = path [bytes "apps", n] := by
  simp [app_uri, path, APPS_URI, bytes, chr]

/-- The resource of a run, by its segments. -/
theorem run_uri_eq_path (n : Bytes) : run_uri n = path [bytes "apps", n, bytes "run"] := by
  simp [run_uri, app_uri, path, APPS_URI, RUN_URI, bytes, chr]

/-- The resource that hides a run, by its segments. -/
theorem hide_uri_eq_path (n : Bytes) :
    hide_uri n = path [bytes "apps", n, bytes "run", bytes "hide"] := by
  simp [hide_uri, run_uri, app_uri, path, APPS_URI, RUN_URI, HIDE_URI, bytes, chr]

/-- The resource of dial data, by its segments. -/
theorem dial_data_uri_eq_path (n : Bytes) :
    dial_data_uri n = path [bytes "apps", n, bytes "dial_data"] := by
  simp [dial_data_uri, app_uri, path, APPS_URI, DIAL_DATA_URI, bytes, chr]

/-! ## The shapes of the resources -/

/-- The tests for a suffix compare the end of the URI. -/
theorem ends_with_iff {uri suffix : Bytes} {least : ℕ} (h : suffix.length ≤ uri.length) :
    ends_with uri suffix least = true ↔ least < uri.length ∧ suffix <:+ uri := by
  unfold ends_with
  rw [Bool.and_eq_true, decide_eq_true_eq, strncmp_eq_length, List.suffix_iff_eq_drop]
  refine and_congr_right fun _ => ?_
  constructor
  · intro hprefix
    exact hprefix.eq_of_length (by simp only [List.length_drop]; omega)
  · intro heq
    rw [← heq]

/-- A URI does not end with `suffix` if it ends with something as long that does not. -/
theorem ends_with_append {uri tail suffix : Bytes} {least : ℕ} (hlen : suffix.length ≤ tail.length)
    (h : ¬suffix <:+ tail) : ends_with (uri ++ tail) suffix least = false := by
  rw [← Bool.not_eq_true, ends_with_iff (by simp only [List.length_append]; omega)]
  rintro ⟨-, hsuffix⟩
  exact h (List.suffix_of_suffix_length_le hsuffix (List.suffix_append ..) hlen)

/-- A name has no slash, so its resource ends with `/run` only if the name is `run`, and then the
resource is too short for that branch. -/
theorem shape_of_app_uri {n : Bytes} (h : Named n) : shape_of (app_uri n) = .app := by
  have hrun : ends_with (app_uri n) RUN_URI (RUN_URI.length + APPS_URI.length) = false := by
    rcases Nat.lt_or_ge n.length RUN_URI.length with hshort | hlong
    · unfold ends_with
      rw [Bool.and_eq_false_iff]
      left
      simp only [app_uri, List.length_append, decide_eq_false_iff_not]
      omega
    · refine ends_with_append hlong fun hsuffix => h.2 (hsuffix.mem ?_)
      decide
  have happ : (app_uri n).length > APPS_URI.length ∧
      strncmp_eq (app_uri n) APPS_URI APPS_URI.length = true ∧
      strchr ((app_uri n).drop APPS_URI.length) (chr '/') = none := by
    have hpos := List.length_pos_of_ne_nil h.1
    refine ⟨by simp only [app_uri, List.length_append]; omega,
      strncmp_eq_length.mpr (List.prefix_append ..), ?_⟩
    rw [app_uri, List.drop_left, strchr_eq_none]
    exact h.2
  unfold shape_of
  rw [hrun, if_neg (by simp), if_pos happ]

/-- The resource of a run is for the branch of the run. -/
theorem shape_of_run_uri {n : Bytes} (h : Named n) : shape_of (run_uri n) = .run := by
  have hpos := List.length_pos_of_ne_nil h.1
  have hlen : (run_uri n).length = APPS_URI.length + n.length + RUN_URI.length := by
    simp only [run_uri, app_uri, List.length_append]
  unfold shape_of
  rw [if_pos]
  exact (ends_with_iff (by omega)).mpr ⟨by omega, List.suffix_append ..⟩

/-- With another slash behind `/apps/` a URI is not the resource of an application. -/
theorem not_app_shape {uri rest : Bytes} (huri : uri = APPS_URI ++ rest) (h : chr '/' ∈ rest) :
    ¬(uri.length > APPS_URI.length ∧ strncmp_eq uri APPS_URI APPS_URI.length = true ∧
      strchr (uri.drop APPS_URI.length) (chr '/') = none) := by
  rintro ⟨-, -, hslash⟩
  rw [huri, List.drop_left, strchr_eq_none] at hslash
  exact hslash h

/-- The resource that hides a run is for the branch that hides. -/
theorem shape_of_hide_uri {n : Bytes} (h : Named n) : shape_of (hide_uri n) = .hide := by
  have hpos := List.length_pos_of_ne_nil h.1
  have hlen : (hide_uri n).length =
      APPS_URI.length + n.length + RUN_URI.length + HIDE_URI.length := by
    simp only [hide_uri, run_uri, app_uri, List.length_append]
  have happ := not_app_shape (show hide_uri n = APPS_URI ++ (n ++ RUN_URI ++ HIDE_URI) by
    simp only [hide_uri, run_uri, app_uri, List.append_assoc])
    (List.mem_append_right _ (by decide))
  have hrun : ends_with (hide_uri n) RUN_URI (RUN_URI.length + APPS_URI.length) = false :=
    ends_with_append (by decide) (by decide)
  unfold shape_of
  rw [hrun, if_neg (by simp), if_neg happ, if_pos]
  exact (ends_with_iff (by omega)).mpr ⟨by omega, List.suffix_append ..⟩

/-- The resource of dial data is for the branch of dial data, whatever the name. -/
theorem shape_of_dial_data_uri (n : Bytes) : shape_of (dial_data_uri n) = .dial_data := by
  have happ := not_app_shape (show dial_data_uri n = APPS_URI ++ (n ++ DIAL_DATA_URI) by
    simp only [dial_data_uri, app_uri, List.append_assoc]) (List.mem_append_right _ (by decide))
  have hrun : ends_with (dial_data_uri n) RUN_URI (RUN_URI.length + APPS_URI.length) = false :=
    ends_with_append (by decide) (by decide)
  have hhide : ends_with (dial_data_uri n) HIDE_URI
      (HIDE_URI.length + RUN_URI.length + APPS_URI.length) = false :=
    ends_with_append (by decide) (by decide)
  unfold shape_of
  rw [hrun, if_neg (by simp), if_neg happ, hhide, if_neg (by simp), if_pos]
  exact strstr_isSome.mpr (List.suffix_append ..).isInfix

/-! ## The answer to a start -/

/-- The URL in the `Location` header of an answer. -/
def location (response : Bytes) : Option Bytes :=
  (strstr response (bytes "Location: ")).map fun line =>
    (line.drop (bytes "Location: ").length).takeWhile (· ≠ chr '\r')

/-- The path of an `http` URL, without its query. -/
def url_path (url : Bytes) : Bytes :=
  ((strchr (url.drop (bytes "http://").length) (chr '/')).getD []).takeWhile (· ≠ chr '?')

/-- The address and the port in a URL. -/
def authority (addr : InAddr) (dial_port : UInt16) : Bytes :=
  inet_ntop addr ++ bytes ":" ++ dec dial_port.toNat

/-- It has at most 21 characters, none of which ends a line or begins a path. -/
theorem authority_bounds (addr : InAddr) (dial_port : UInt16) :
    (authority addr dial_port).length ≤ 21 ∧
      ∀ c ∈ authority addr dial_port, c ≠ chr '/' ∧ c ≠ chr '\r' := by
  constructor
  · -- Four numbers of three digits, one of five, three dots and the colon.
    have hbyte : ∀ b : UInt8, (dec b.toNat).length ≤ 3 := fun b =>
      dec_length_le (by decide) (b.toNat_lt.trans (by decide))
    have hport : (dec dial_port.toNat).length ≤ 5 :=
      dec_length_le (by decide) (dial_port.toNat_lt.trans (by decide))
    have := hbyte addr.a
    have := hbyte addr.b
    have := hbyte addr.c
    have := hbyte addr.d
    have hcolon : (bytes ":").length = 1 := rfl
    simp only [authority, inet_ntop, List.length_append, List.length_cons, hcolon]
    omega
  · intro c hc
    have hdec : ∀ {n}, c ∈ dec n → c ≠ chr '/' ∧ c ≠ chr '\r' := by
      intro n h
      have hdigit := isdigit_of_mem_dec h
      constructor
      all_goals
        rintro rfl
        exact absurd hdigit (by decide)
    have hdot : c = chr '.' → c ≠ chr '/' ∧ c ≠ chr '\r' := by
      rintro rfl
      decide
    simp only [authority, inet_ntop, List.mem_append, List.mem_cons] at hc
    rcases hc with ((((h | h | h) | h | h) | h | h) | h) | h
    · exact hdec h
    · exact hdot h
    · exact hdec h
    · exact hdot h
    · exact hdec h
    · exact hdot h
    · exact hdec h
    · obtain rfl : c = chr ':' := by simpa [bytes, chr] using h
      decide
    · exact hdec h

/-- The URL of the run of an application. -/
def run_url (addr : InAddr) (dial_port : UInt16) (n : Bytes) : Bytes :=
  bytes "http://" ++ authority addr dial_port ++ run_uri n

/-- It fits into the buffer of an answer and does not end a line. -/
theorem run_url_bounds {n : Bytes} (hn : LinkName n) (addr : InAddr) (dial_port : UInt16) :
    (run_url addr dial_port n).length ≤ 293 ∧ ∀ c ∈ run_url addr dial_port n, c ≠ chr '\r' := by
  obtain ⟨hlen, hchars⟩ := authority_bounds addr dial_port
  constructor
  · have hliteral : (bytes "http://").length = 7 ∧ APPS_URI.length = 6 ∧ RUN_URI.length = 4 := by
      decide
    have := hn.length_le
    simp only [run_url, run_uri, app_uri, List.length_append]
    omega
  · have hliteral : chr '\r' ∉ bytes "http://" ++ APPS_URI ++ RUN_URI := by decide
    rintro c hc rfl
    simp only [run_url, run_uri, app_uri, List.mem_append, not_or] at hc hliteral
    obtain ⟨⟨hscheme, happs⟩, hrun⟩ := hliteral
    rcases hc with (hc | hc) | (hc | hc) | hc
    · exact hscheme hc
    · exact (hchars _ hc).2 rfl
    · exact happs hc
    · exact (unreserved_ne _ (hn.unreserved _ hc)).2.2.2.2.2.2.1 rfl
    · exact hrun hc

/-- The path of a URL that is given with its parts. -/
theorem url_path_eq {host uri query : Bytes} (hhost : chr '/' ∉ host) {rest : Bytes}
    (huri : uri = chr '/' :: rest) (hplain : chr '?' ∉ uri)
    (hquery : query = [] ∨ query = [chr '?']) :
    url_path (bytes "http://" ++ host ++ uri ++ query) = uri := by
  have hfind : strchr (host ++ (uri ++ query)) (chr '/') = some (uri ++ query) := by
    rw [huri]
    exact strchr_append hhost _
  unfold url_path
  rw [List.append_assoc, List.append_assoc, List.drop_left, hfind, Option.getD_some,
    List.takeWhile_append_of_pos]
  · rcases hquery with rfl | rfl <;> simp
  · intro c hc
    simpa using fun hq : c = chr '?' => hplain (hq ▸ hc)

/-- The resource of an application has no query. -/
theorem LinkName.app_no_query {n : Bytes} (hn : LinkName n) : chr '?' ∉ app_uri n := by
  have hname : chr '?' ∉ n := fun h => (unreserved_ne _ (hn.unreserved _ h)).2.2.2.1 rfl
  have hliteral : chr '?' ∉ APPS_URI := by decide
  rw [app_uri, List.mem_append, not_or]
  exact ⟨hliteral, hname⟩

/-- The resources of an application have no query. -/
theorem LinkName.no_query {n : Bytes} (hn : LinkName n) :
    chr '?' ∉ run_uri n ∧ chr '?' ∉ dial_data_uri n := by
  have hname : chr '?' ∉ n := fun h => (unreserved_ne _ (hn.unreserved _ h)).2.2.2.1 rfl
  have hliteral : chr '?' ∉ APPS_URI ∧ chr '?' ∉ RUN_URI ∧ chr '?' ∉ DIAL_DATA_URI := by decide
  simp [run_uri, dial_data_uri, app_uri, hname, hliteral]

/-- The path of the URL of a run is the resource of the run. -/
theorem url_path_run_url {n : Bytes} (hn : LinkName n) (addr : InAddr) (dial_port : UInt16) :
    url_path (run_url addr dial_port n) = run_uri n := by
  have hslash : chr '/' ∉ authority addr dial_port := fun h =>
    ((authority_bounds addr dial_port).2 _ h).1 rfl
  have hrun : run_uri n = chr '/' :: (bytes "apps/" ++ n ++ RUN_URI) := rfl
  have h := url_path_eq hslash hrun hn.no_query.1 (.inl rfl)
  rwa [List.append_nil] at h

/-- The `Location` header of an answer that accepts a start has that URL. -/
theorem location_created {n : Bytes} (hn : LinkName n) {code : String}
    (hcode : code = "200" ∨ code = "201") (addr : InAddr) (dial_port : UInt16)
    (origin_header : Option Bytes) :
    location (mg_printf (created_response code (inet_ntop addr) dial_port n origin_header)) =
      some (run_url addr dial_port n) := by
  obtain ⟨hlen, hchars⟩ := run_url_bounds hn addr dial_port
  let start := bytes "HTTP/1.1 " ++ bytes code ++ bytes " Created" ++ crlf ++
    bytes "Content-Type: text/plain" ++ crlf
  have hresponse : created_response code (inet_ntop addr) dial_port n origin_header =
      start ++ bytes "Location: " ++ run_url addr dial_port n ++ [chr '\r'] ++
        ([chr '\n'] ++ allow_origin_line origin_header ++ crlf) := by
    simp [created_response, start, run_url, run_path, run_uri, app_uri, authority, APPS_URI,
      RUN_URI, bytes, crlf, chr]
  -- The header stands in front of the origin, of any length, and the answer is not cut before it.
  have hfits : (start ++ bytes "Location: " ++ run_url addr dial_port n ++ [chr '\r']).length ≤
      BUFSIZ - 1 := by
    have hstart : (start ++ bytes "Location: ").length ≤ 100 := by
      rcases hcode with rfl | rfl <;> decide
    rw [List.length_append, List.length_append, List.length_singleton]
    simp only [BUFSIZ]
    omega
  have hfind : ∀ rest, strstr (start ++ (bytes "Location: " ++ rest)) (bytes "Location: ") =
      some (bytes "Location: " ++ rest) := by
    intro rest
    rcases hcode with rfl | rfl <;> rfl
  rw [hresponse, mg_printf_append hfits]
  unfold location
  simp only [List.append_assoc start, List.append_assoc (bytes "Location: ")]
  rw [hfind, Option.map_some, List.drop_left, List.append_assoc, List.takeWhile_append_of_pos]
  · simp
  · intro c hc
    simpa using hchars c hc

/-! ## The additional data parameter -/

/-- The URL of the dial data of an application on the local host. -/
def dial_data_url (dial_port : UInt16) (n : Bytes) : Bytes :=
  bytes "http://localhost:" ++ dec dial_port.toNat ++ dial_data_uri n ++ bytes "?"

/-- Its path is the resource of the dial data. -/
theorem url_path_dial_data_url {n : Bytes} (hn : LinkName n) (dial_port : UInt16) :
    url_path (dial_data_url dial_port n) = dial_data_uri n := by
  have hslash : chr '/' ∉ bytes "localhost:" ++ dec dial_port.toNat := by
    have hliteral : chr '/' ∉ bytes "localhost:" := by decide
    rw [List.mem_append, not_or]
    exact ⟨hliteral, fun h => absurd (isdigit_of_mem_dec h) (by decide)⟩
  exact url_path_eq hslash
    (show dial_data_uri n = chr '/' :: (bytes "apps/" ++ n ++ DIAL_DATA_URI) from rfl)
    hn.no_query.2 (.inr rfl)

/-- The parameter is written whole, and its value stands for that URL. -/
theorem additional_data_param_value {n : Bytes} (hn : LinkName n) (dial_port : UInt16) :
    ∃ value, url_decoded value = some (dial_data_url dial_port n) ∧ chr '&' ∉ value ∧
      additional_data_param true dial_port n = bytes "additionalDataUrl=" ++ value := by
  have hplain : ∀ c ∈ n, c ≠ chr '+' ∧ c ≠ chr '%' ∧ c ≠ chr '&' := by
    intro c hc
    obtain ⟨-, -, hpercent, -, hplus, hamp, -⟩ := unreserved_ne c (hn.unreserved c hc)
    exact ⟨hplus, hpercent, hamp⟩
  have hdigits : ∀ c ∈ dec dial_port.toNat, c ≠ chr '+' ∧ c ≠ chr '%' ∧ c ≠ chr '&' := by
    intro c hc
    have halnum : isalnum c = true := by simp [isalnum, isdigit_of_mem_dec hc]
    exact ⟨ne_of_isalnum halnum (by decide), ne_of_isalnum halnum (by decide),
      ne_of_isalnum halnum (by decide)⟩
  refine ⟨bytes "http%3A%2F%2Flocalhost%3A" ++ (dec dial_port.toNat ++ (bytes "%2Fapps%2F" ++
    (n ++ bytes "%2Fdial_data%3F"))), ?_, ?_, ?_⟩
  · rw [url_decoded_append (x := bytes "http://localhost:") (by decide_cbv),
      url_decoded_append (url_decoded_plain fun c hc => ⟨(hdigits c hc).1, (hdigits c hc).2.1⟩),
      url_decoded_append (x := APPS_URI) (by decide_cbv),
      url_decoded_append (url_decoded_plain fun c hc => ⟨(hplain c hc).1, (hplain c hc).2.1⟩),
      show url_decoded (bytes "%2Fdial_data%3F") = some (bytes "/dial_data?") by decide_cbv]
    simp [dial_data_url, dial_data_uri, app_uri, DIAL_DATA_URI, bytes]
  · have hliteral : chr '&' ∉ bytes "http%3A%2F%2Flocalhost%3A" ∧ chr '&' ∉ bytes "%2Fapps%2F" ∧
        chr '&' ∉ bytes "%2Fdial_data%3F" := by decide
    simp only [List.mem_append, not_or]
    exact ⟨hliteral.1, fun h => (hdigits _ h).2.2 rfl, hliteral.2.1, fun h => (hplain _ h).2.2 rfl,
      hliteral.2.2⟩
  · have hport : (dec dial_port.toNat).length ≤ 5 :=
      dec_length_le (by decide) (dial_port.toNat_lt.trans (by decide))
    have hname := hn.length_le
    have hliteral : (bytes "additionalDataUrl=http%3A%2F%2Flocalhost%3A").length = 43 ∧
        (bytes "%2Fapps%2F").length = 10 ∧ (bytes "%2Fdial_data%3F").length = 15 := by decide
    unfold additional_data_param mg_vsnprintf
    rw [if_pos rfl, List.take_of_length_le]
    · simp [bytes]
    · simp only [List.length_append, DIAL_MAX_ADDITIONALURL]
      omega

/-- A client that looks for the parameter finds its value. -/
theorem parse_param_additional {value : Bytes} (h : chr '&' ∉ value) {supply : Supply}
    (hgranted : supply 0 = true) :
    parse_param (some (bytes "additionalDataUrl=" ++ value)) (bytes "additionalDataUrl") supply =
      some (some value, [], supply.after 1) := by
  have hfind : strstr (bytes "additionalDataUrl=" ++ value) (bytes "additionalDataUrl") =
      some (bytes "additionalDataUrl=" ++ value) :=
    strstr_of_prefix ⟨chr '=' :: value, rfl⟩
  have hvalue : value.takeWhile (· ≠ chr '&') = value := by
    have hall := takeWhile_amp h (r := []) (by simp)
    rwa [List.append_nil] at hall
  have hfound : found_value (bytes "additionalDataUrl=" ++ value) = value.takeWhile (· ≠ chr '&') :=
    rfl
  rw [parse_param_found hfind hgranted, hfound, hvalue]

/-! ## What a start hands out -/

/-- An event of a start that hands out no links but these: the parameter goes to the callback, and
the `Location` header to the client when the start is accepted. -/
def HandsOut (param url : Bytes) : Event → Prop
  | .callback _ (.start _ _ _ additionalDataUrl _ _) => additionalDataUrl = param
  | .write text => (status_code text).head? = some (chr '2') → location text = some url
  | _ => True

/-- The two texts of an error. -/
def error_texts (status : ℕ) (reason : String) : List Bytes :=
  let body := http_error_body status (bytes reason) (bytes reason)
  [mg_printf (http_error_head status (bytes reason) body.length), mg_printf body]

/-- The errors of a start. -/
def start_errors : List (ℕ × String) :=
  [(500, "500 Internal Server Error"), (404, "Not Found"), (413, "413 Request Entity Too Large"),
    (400, "400 Bad Request"), (403, "Forbidden"), (401, "Unauthorized"), (501, "Not Implemented"),
    (503, "Service Unavailable")]

/-- None of them looks like an acceptance. -/
theorem start_errors_refuse : ∀ error ∈ start_errors, ∀ text ∈ error_texts error.1 error.2,
    (status_code text).head? ≠ some (chr '2') := by
  decide

section HandsOut

variable {param url : Bytes}

/-- An error of a start hands nothing out. -/
theorem keeps_start_error {status : ℕ} {reason : String} (h : (status, reason) ∈ start_errors) :
    Keeps (Guarantee.emits (HandsOut param url)) (http_error status reason : Server W Unit) := by
  have hrefuse := start_errors_refuse _ h
  simp only [error_texts, List.forall_mem_cons] at hrefuse
  refine keeps_bind (keeps_emit fun s => ?_) fun _ => keeps_emit fun s => ?_
  · simpa [HandsOut] using fun hfirst => absurd hfirst hrefuse.1
  · simpa [HandsOut] using fun hfirst => absurd hfirst hrefuse.2.1

/-- The same with the mutex given back behind it. -/
theorem keeps_start_refusal {status : ℕ} {reason : String} (h : (status, reason) ∈ start_errors) :
    Keeps (Guarantee.emits (HandsOut param url))
      (do http_error status reason; ds_unlock : Server W Unit) :=
  keeps_bind (keeps_start_error h) fun _ =>
    keeps_bind (keeps_modify fun _ => by simp) fun _ => keeps_emit fun _ => by simp [HandsOut]

/-- The start of an application that takes additional data. -/
theorem start_app_hands_out {n : Bytes} (hn : LinkName n) {conn : mg_connection}
    {request_info : mg_request_info} {origin_header : Option Bytes} {pos : ℕ} {app : DIALApp W}
    (happ : app.useAdditionalData = true) {s t : System W} {e : List Event}
    (h : start_app conn request_info n origin_header pos app s = some ((), e, t)) :
    ∀ x ∈ e, HandsOut (additional_data_param true s.platform.port n)
      (run_url request_info.local_addr s.platform.port n) x := by
  unfold start_app at h
  simp only at h
  by_cases hlen : (start_body conn).length > DIAL_MAX_PAYLOAD
  · rw [dif_pos hlen] at h
    exact keeps_start_refusal (by decide) _ _ _ _ h
  rw [dif_neg hlen] at h
  by_cases hbad : isBadPayload (start_body conn) = true
  · rw [if_pos hbad] at h
    exact keeps_start_refusal (by decide) _ _ _ _ h
  rw [if_neg hbad] at h
  obtain ⟨dial_port, e₁, r, e₂, h₁, h₂, rfl⟩ := bind_eq_some.mp h
  simp only [DIAL_get_port, read_apply, Option.some.injEq, Prod.mk.injEq] at h₁
  obtain ⟨rfl, rfl, rfl⟩ := h₁
  rw [happ] at h₂
  rw [List.nil_append]
  let G : Guarantee (System W) Event := Guarantee.emits (HandsOut
    (additional_data_param true s.platform.port n)
    (run_url request_info.local_addr s.platform.port n))
  -- Only the two acceptances write a link, and only `start_cb` is passed one.
  have hset : ∀ f, Keeps G (set_app pos f) := fun f => keeps_modify fun _ => by simp [G]
  have haccept : ∀ code payload, (code = "200" ∨ code = "201") → Keeps G (do
      reply (created_response code (inet_ntop request_info.local_addr) s.platform.port n
        origin_header)
      set_app pos fun app => { app with payload }
      ds_unlock : Server W Unit) := by
    intro code payload hcode
    refine keeps_bind (keeps_emit fun _ => ?_) fun _ => keeps_bind (hset _) fun _ =>
      keeps_bind (keeps_modify fun _ => by simp [G]) fun _ => keeps_emit fun _ => ?_
    · simpa [G, HandsOut] using fun _ => location_created hn hcode _ _ _
    · simp [G, HandsOut]
  refine (keeps_ite (fun _ => keeps_start_refusal (by decide)) fun _ => ?_ : Keeps G _) _ _ _ _ h₂
  refine keeps_bind (keeps_bind (keeps_emit fun _ => by simp [G, HandsOut]) fun _ =>
    keeps_bind (keeps_read _) fun _ => keeps_bind (keeps_modify fun _ => by simp [G]) fun _ =>
    keeps_pure _) fun _ => keeps_bind (hset _) fun _ => ?_
  refine keeps_bind (keeps_bind (keeps_emit fun _ => by simp [G, HandsOut]) fun _ =>
    keeps_bind (keeps_read _) fun _ => keeps_bind (keeps_modify fun _ => by simp [G]) fun _ =>
    keeps_pure _) fun _ => keeps_bind (hset _) fun _ => keeps_bind (keeps_read _) fun _ => ?_
  refine keeps_ite (fun _ => haccept _ _ (.inr rfl)) fun _ => ?_
  refine keeps_ite (fun _ => haccept _ _ (.inl rfl)) fun _ => ?_
  refine keeps_ite (fun _ => keeps_start_refusal (by decide)) fun _ => ?_
  refine keeps_ite (fun _ => keeps_start_refusal (by decide)) fun _ => ?_
  exact keeps_ite (fun _ => keeps_start_refusal (by decide)) fun _ =>
    keeps_start_refusal (by decide)

/-- A start of a registered application that takes additional data. -/
theorem handle_app_start_hands_out {n : Bytes} (hn : LinkName n) {conn : mg_connection}
    {request_info : mg_request_info} {origin_header : Option Bytes} {s t : System W}
    {e : List Event} {app : DIALApp W} (hfound : s.apps[find_app s.apps n]? = some app)
    (happ : app.useAdditionalData = true)
    (h : handle_app_start conn request_info n origin_header s = some ((), e, t)) :
    ∀ x ∈ e, HandsOut (additional_data_param true s.platform.port n)
      (run_url request_info.local_addr s.platform.port n) x := by
  obtain ⟨taken, e₁, r, e₂, h₁, h₂, rfl⟩ := bind_eq_some.mp h
  rcases ds_lock_cases h₁ with ⟨-, rfl, rfl, rfl⟩ | ⟨-, -, rfl, rfl, rfl⟩
  · exact keeps_start_error (by decide) _ _ _ _ h₂
  obtain ⟨⟨pos, found⟩, e₃, r, e₄, h₃, h₄, rfl⟩ := bind_eq_some.mp h₂
  simp only [get_app, hfound, read_apply, Option.some.injEq, Prod.mk.injEq] at h₃
  obtain ⟨⟨rfl, rfl⟩, rfl, rfl⟩ := h₃
  have hstart := start_app_hands_out hn happ h₄
  simpa [HandsOut] using hstart

end HandsOut

/-! ## Following the links -/

/-- A request for a path, with a query or without. -/
def ForPath (ri : mg_request_info) (path : Bytes) : Prop :=
  ri.uri = path ∨ ∃ query, ri.uri = path ++ chr '?' :: query

/-- The router comes to a decision on the request, once the web server has rewritten it. -/
def Reaches (ri : mg_request_info) (s : System W) (d : Decision) : Prop :=
  ∃ e t, route (normalise ri) s = some (d, e, t)

/-- The web server then runs the handler of that decision, in the state that the router left. -/
theorem Reaches.handle_request {ri : mg_request_info} {s : System W} {d : Decision}
    (h : Reaches ri s d) (conn : mg_connection) :
    ∃ e t, handle_request conn ri s =
      (perform conn (normalise ri) d t).map fun r => (r.1, e ++ r.2.1, r.2.2) := by
  obtain ⟨e, t, hroute⟩ := h
  exact ⟨e, t, bind_of_some hroute⟩

section Follow

variable {n : Bytes} {ri : mg_request_info} {s : System W}

/-- The segments of all resources of the application are plain. -/
theorem LinkName.segments (hn : LinkName n) {segs : List Bytes}
    (h : ∀ seg ∈ segs,
      seg = n ∨ seg ∈ [bytes "apps", bytes "run", bytes "hide", bytes "dial_data"]) :
    ∀ seg ∈ segs, PlainSegment seg := by
  intro seg hseg
  rcases h seg hseg with rfl | hliteral
  · exact hn.plain
  · exact plain_literals seg hliteral

/-- A request for a resource of the application comes to the router as it is. -/
theorem ForPath.resource {uri : Bytes} (h : ForPath ri uri) (hn : LinkName n) {segs : List Bytes}
    (huri : uri = path segs) (hsegs : ∀ seg ∈ segs,
      seg = n ∨ seg ∈ [bytes "apps", bytes "run", bytes "hide", bytes "dial_data"]) :
    (normalise ri).uri = uri := by
  subst huri
  rcases h with h | ⟨query, h⟩
  · exact @normalise_path segs (hn.segments hsegs) ri [] (.inl h)
  · exact normalise_path (hn.segments hsegs) (.inr h)

/-- A `POST` for the application starts it. -/
theorem reaches_start (hn : LinkName n) (huri : ForPath ri (app_uri n))
    (hmethod : ri.request_method = bytes "POST") (hpass : Passes (normalise ri) n s) :
    Reaches ri s (.start n) := by
  have hnorm := huri.resource hn (app_uri_eq_path n) (by simp)
  have hshape : shape_of (normalise ri).uri = .app := by rw [hnorm, shape_of_app_uri hn.named]
  have hname : (normalise ri).uri.drop APPS_URI.length = n := by
    rw [hnorm, app_uri, List.drop_left]
  have hroute := route_start_eq hshape hmethod (hname.symm ▸ hpass)
  rwa [hname] at hroute

/-- A `DELETE` for the run of the application stops it. -/
theorem reaches_stop (hn : LinkName n) (huri : ForPath ri (run_uri n))
    (hmethod : ri.request_method = bytes "DELETE") (hpass : Passes (normalise ri) n s) :
    Reaches ri s (.stop n) := by
  have hnorm := huri.resource hn (run_uri_eq_path n) (by simp)
  have hshape : shape_of (normalise ri).uri = .run := by rw [hnorm, shape_of_run_uri hn.named]
  have hname : copied_name (normalise ri).uri RUN_URI.length = n := by
    rw [hnorm, copied_name_run_uri hn.length_le]
  have hroute := route_stop_eq hshape (hname.symm ▸ hn.pos) hmethod (hname.symm ▸ hpass)
  rwa [hname] at hroute

/-- A `POST` for the hiding of its run hides it. -/
theorem reaches_hide (hn : LinkName n) (huri : ForPath ri (hide_uri n))
    (hmethod : ri.request_method = bytes "POST") (hpass : Passes (normalise ri) n s) :
    Reaches ri s (.hide n) := by
  have hnorm := huri.resource hn (hide_uri_eq_path n) (by simp)
  have hshape : shape_of (normalise ri).uri = .hide := by rw [hnorm, shape_of_hide_uri hn.named]
  have hname : copied_name (normalise ri).uri (RUN_URI.length + HIDE_URI.length) = n := by
    rw [hnorm, copied_name_hide_uri hn.length_le]
  have hroute := route_hide_eq hshape (hname.symm ▸ hn.pos) hmethod (hname.symm ▸ hpass)
  rwa [hname] at hroute

/-- A request for its dial data from the local host comes to them. -/
theorem reaches_dial_data (hn : LinkName n) (huri : ForPath ri (dial_data_uri n))
    (hlocal : IsLocal ri) (hmethod : ri.request_method ≠ bytes "OPTIONS")
    (hgranted : s.supply 0 = true)
    (hpass : Passes (normalise ri) n { s with supply := s.supply.after 1 }) :
    Reaches ri s (.dial_data n (ri.request_method = bytes "POST")) := by
  have hnorm := huri.resource hn (dial_data_uri_eq_path n) (by simp)
  have hshape : shape_of (normalise ri).uri = .dial_data := by
    rw [hnorm, shape_of_dial_data_uri]
  have hparse := parse_app_name_dial_data_uri hn.named.2 s.supply
  rw [← hnorm, hgranted] at hparse
  -- Normalisation does not touch the address of the peer.
  have hlocal' : IsLocal (normalise ri) := hlocal
  exact route_dial_data_eq hshape hlocal' hparse hmethod hpass

end Follow

/-- **The links lead back.** Requests for the resource of an application come to its start. An
accepted start names a URL in its `Location` header whose path comes to the stop of the same
application, and with `/hide` to its hiding. The URL in the additional data parameter of the start
callback is the one of its dial data, and its path comes to the dial data of the application. -/
theorem links_lead_back {n : Bytes} (hn : LinkName n) :
    (∀ (s : System W) ri, ForPath ri (app_uri n) → ri.request_method = bytes "POST" →
      Passes (normalise ri) n s → Reaches ri s (.start n)) ∧
    ∀ (s t : System W) conn request_info origin_header e app,
      s.apps[find_app s.apps n]? = some app → app.useAdditionalData = true →
      handle_app_start conn request_info n origin_header s = some ((), e, t) →
      (∀ text, .write text ∈ e → (status_code text).head? = some (chr '2') →
        ∃ url, location text = some url ∧ url_path url = run_uri n ∧
          (∀ (s : System W) ri, ForPath ri (url_path url) →
            ri.request_method = bytes "DELETE" → Passes (normalise ri) n s →
            Reaches ri s (.stop n)) ∧
          ∀ (s : System W) ri, ForPath ri (url_path url ++ HIDE_URI) →
            ri.request_method = bytes "POST" → Passes (normalise ri) n s →
            Reaches ri s (.hide n)) ∧
      ∀ pos name payload query_string additionalDataUrl run_id callback_data,
        .callback pos (.start name payload query_string additionalDataUrl run_id callback_data) ∈
            e →
        ∃ value url,
          (∀ supply : Supply, supply 0 = true →
            parse_param (some additionalDataUrl) (bytes "additionalDataUrl") supply =
              some (some value, [], supply.after 1)) ∧
          urldecode value value.length = (url, url.length) ∧
          url = bytes "http://localhost:" ++ dec s.platform.port.toNat ++ dial_data_uri n ++
            bytes "?" ∧
          ∀ (s : System W) ri, ForPath ri (url_path url) → IsLocal ri →
            ri.request_method ≠ bytes "OPTIONS" → s.supply 0 = true →
            Passes (normalise ri) n { s with supply := s.supply.after 1 } →
            Reaches ri s (.dial_data n (ri.request_method = bytes "POST")) := by
  refine ⟨fun s ri => reaches_start hn,
    fun s t conn request_info origin_header e app hfound happ h => ?_⟩
  have hands := handle_app_start_hands_out hn hfound happ h
  constructor
  · intro text htext hfirst
    have hlocation := hands _ htext hfirst
    have hpath := url_path_run_url hn request_info.local_addr s.platform.port
    refine ⟨_, hlocation, hpath, fun s ri huri => ?_, fun s ri huri => ?_⟩
    · rw [hpath] at huri
      exact reaches_stop hn huri
    · rw [hpath] at huri
      exact reaches_hide hn huri
  · intro pos name payload query_string additionalDataUrl run_id callback_data hstart
    obtain rfl : additionalDataUrl = additional_data_param true s.platform.port n := hands _ hstart
    obtain ⟨value, hvalue, hamp, hparam⟩ := additional_data_param_value hn s.platform.port
    refine ⟨value, dial_data_url s.platform.port n, fun supply hgranted => ?_, urldecode_eq hvalue,
      rfl, fun s ri huri => ?_⟩
    · rw [hparam]
      exact parse_param_additional hamp hgranted
    · rw [url_path_dial_data_url hn] at huri
      exact reaches_dial_data hn huri

/-- The shipped names are such names. -/
theorem link_name_youtube : LinkName (bytes "YouTube") :=
  ⟨by decide, by decide, by decide, by decide⟩

/-- A start that is accepted, and a stop that follows its link. -/
theorem links_lead_back_youtube :
    ∃ e s text url, (start_youtube (bytes "v=1")).exec youtube_server = some ((), e, s) ∧
      .write text ∈ e ∧ location text = some url ∧
      Reaches (local_request (url_path url) (bytes "DELETE")) s (.stop (bytes "YouTube")) := by
  obtain ⟨e, s, hstart, htext⟩ : ∃ e s,
      (start_youtube (bytes "v=1")).exec youtube_server = some ((), e, s) ∧
      .write (mg_printf (created_response "201" (bytes "192.168.0.2") 56789 (bytes "YouTube")
        (some (bytes "package:com.google.android.youtube")))) ∈ e :=
    ⟨_, _, rfl, by decide⟩
  obtain ⟨url, hlocation, -, hstop, -⟩ := ((links_lead_back link_name_youtube).2 _ _ _ _ _ _
    youtube_app rfl rfl hstart).1 _ htext (by decide)
  exact ⟨e, s, _, url, hstart, htext, hlocation,
    hstop s _ (.inl rfl) rfl (passes_of_no_origin rfl _ _)⟩

end DialServer
