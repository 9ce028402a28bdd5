import DialServer.Base.Transitions
import DialServer.Router.Responses
import DialServer.Source.Discovery
import DialServer.Ssdp.Address

/-!
# From a search to the applications

A client that looks for the device sends a search, follows the `LOCATION` of the reply to the
description of the device, and finds there the URL under which the applications are. The responder
keeps its variables while datagrams, requests and events of the platform come in any order, up to
the address, the name and the wake-up header (`Sized`); so in every state each of these texts fits
its buffer, and the way leads from any search to the application that the client asks for.
-/

set_option maxRecDepth 8000

namespace DialServer

open CLib Program

/-! ## Header lines -/

/-- The value of the first header of that name, without regard to case. -/
def header_of (name text : Bytes) : Option Bytes :=
  ((header_lines text).find? fun line =>
    mg_strcasecmp_eq (line.takeWhile (· ≠ chr ':')) name).map header_value

/-- The header lines begin with the first header. -/
theorem header_lines_cons {status_line header : Bytes} (hstatus : chr '\r' ∉ status_line)
    (hheader : chr '\r' ∉ header) (hne : header ≠ []) (rest : Bytes) :
    header_lines (status_line ++ crlf ++ (header ++ crlf ++ rest)) =
      header :: header_lines (status_line ++ crlf ++ rest) := by
  have hfirst : http_lines status_line = [status_line] := lines_of_notMem hstatus
  have hsecond : http_lines header = [header] := lines_of_notMem hheader
  unfold header_lines
  rw [http_lines_sep, http_lines_sep, http_lines_sep, hfirst, hsecond]
  simp only [List.cons_append, List.nil_append, List.tail_cons]
  exact takeWhile_ne_nil_cons hne _

/-- The first header has the name. -/
theorem header_of_cons_pos {status_line : Bytes} (name name' : Bytes) {value : Bytes}
    (hstatus : chr '\r' ∉ status_line)
    (hname' : chr ':' ∉ name' ∧ chr '\r' ∉ name') (hvalue : chr '\r' ∉ value)
    (hblank : value.head? ≠ some (chr ' ')) (hsame : mg_strcasecmp_eq name' name = true)
    (rest : Bytes) :
    header_of name (status_line ++ crlf ++ (name' ++ bytes ": " ++ value ++ crlf ++ rest)) =
      some value := by
  have hcr : chr '\r' ∉ name' ++ bytes ": " ++ value := by
    have hcolon : chr '\r' ∉ bytes ": " := by decide
    simp only [List.mem_append, not_or]
    exact ⟨⟨hname'.2, hcolon⟩, hvalue⟩
  have hne : name' ++ bytes ": " ++ value ≠ [] := by simp [bytes]
  unfold header_of
  rw [header_lines_cons hstatus hcr hne, List.find?_cons_of_pos, Option.map_some,
    header_value_eq hname'.1 hblank]
  rw [takeWhile_header hname'.1]
  exact hsame

/-- The first header has another name. -/
theorem header_of_cons_neg {status_line : Bytes} (name name' : Bytes) {value : Bytes}
    (hstatus : chr '\r' ∉ status_line)
    (hname' : chr ':' ∉ name' ∧ chr '\r' ∉ name') (hvalue : chr '\r' ∉ value)
    (hother : mg_strcasecmp_eq name' name = false) (rest : Bytes) :
    header_of name (status_line ++ crlf ++ (name' ++ bytes ": " ++ value ++ crlf ++ rest)) =
      header_of name (status_line ++ crlf ++ rest) := by
  have hcr : chr '\r' ∉ name' ++ bytes ": " ++ value := by
    have hcolon : chr '\r' ∉ bytes ": " := by decide
    simp only [List.mem_append, not_or]
    exact ⟨⟨hname'.2, hcolon⟩, hvalue⟩
  have hne : name' ++ bytes ": " ++ value ≠ [] := by simp [bytes]
  unfold header_of
  rw [header_lines_cons hstatus hcr hne, List.find?_cons_of_neg]
  rw [takeWhile_header hname'.1, hother]
  exact Bool.false_ne_true

/-! ## What the responder keeps -/

/-- The variables of the responder fit the texts that they are printed into. -/
structure Responder.Sized (r : Responder) : Prop where
  ip_addr : ∃ addr : InAddr, r.ip_addr = inet_ntop addr
  wakeup_buf : r.wakeup_buf.length < wakeup_buf_size
  friendly_name : r.friendly_name.length ≤ 255
  model_name : r.model_name.length ≤ 255
  uuid : r.uuid.length ≤ 255

/-- The ports and the names that only `run_ssdp` assigns to. -/
def Responder.fixed (r : Responder) : UInt16 × UInt16 × Bytes × Bytes :=
  (r.my_port, r.dial_port, r.model_name, r.uuid)

/-- The sizes and what is fixed are kept. -/
def keeps_sized : Guarantee Responder Sent where
  rel r _ r' := (r.Sized → r'.Sized) ∧ r'.fixed = r.fixed
  refl _ := ⟨id, rfl⟩
  trans h₁ h₂ := ⟨h₂.1 ∘ h₁.1, h₂.2.trans h₁.2⟩

/-- What a change of the address does to the variables. -/
def readdresses : Guarantee Ssdp Membership where
  rel s _ t := (t.ip_addr = s.ip_addr ∨ ∃ addr, t.ip_addr = inet_ntoa addr) ∧
    (t.wakeup_buf = s.wakeup_buf ∨ ∃ hw_addr, t.wakeup_buf = print_wakeup hw_addr)
  refl _ := ⟨.inl rfl, .inl rfl⟩
  trans := by
    rintro s t u e₁ e₂ ⟨hip, hwake⟩ ⟨hip', hwake'⟩
    refine ⟨?_, ?_⟩
    · rcases hip' with hip' | hip'
      · exact hip' ▸ hip
      · exact .inr hip'
    · rcases hwake' with hwake' | hwake'
      · exact hwake' ▸ hwake
      · exact .inr hwake'

/-- The address that is looked up. -/
theorem get_local_address_readdresses (table : List ifreq) :
    Keeps readdresses (get_local_address table) := by
  intro s a e t h
  rw [get_local_address_eq, Option.some.injEq, Prod.mk.injEq, Prod.mk.injEq] at h
  obtain ⟨-, rfl, rfl⟩ := h
  refine ⟨?_, .inl rfl⟩
  cases shown s table with
  | none => exact .inl rfl
  | some entry => exact .inr ⟨entry.ifr_addr, rfl⟩

/-- The address that is changed. -/
theorem addNewIpToMulticast_readdresses (inet_addr : Bytes → Vector UInt8 4)
    (setsockopt : Membership → Bool) (table : List ifreq) :
    Keeps readdresses (addNewIpToMulticast inet_addr setsockopt table) := by
  have hemit (m : Membership) : Keeps readdresses (emit m) :=
    keeps_emit fun _ => ⟨.inl rfl, .inl rfl⟩
  refine keeps_bind (get_local_address_readdresses table) fun hw_addr => ?_
  refine keeps_ite (fun _ => keeps_pure _) fun _ => ?_
  refine keeps_bind (keeps_modify fun s => ?_) fun _ => ?_
  · split_ifs
    · exact ⟨.inl rfl, .inr ⟨hw_addr, rfl⟩⟩
    · exact ⟨.inl rfl, .inl rfl⟩
  refine keeps_bind (keeps_read _) fun _ => keeps_bind (hemit _) fun _ => ?_
  refine keeps_ite (fun _ => keeps_stop) fun _ => ?_
  refine keeps_bind (keeps_modify fun s => ⟨.inl rfl, .inl rfl⟩) fun _ => ?_
  refine keeps_bind (keeps_read _) fun _ => keeps_bind (hemit _) fun _ => ?_
  exact keeps_ite (fun _ => keeps_stop) fun _ => keeps_pure _

/-- The two printed forms of an address agree. -/
theorem inet_ntoa_eq_inet_ntop (addr : Vector UInt8 4) :
    ∃ a : InAddr, inet_ntoa addr = inet_ntop a := by
  obtain ⟨⟨bytes⟩, hlength⟩ := addr
  match bytes, hlength with
  | [a, b, c, d], _ =>
    refine ⟨⟨a, b, c, d⟩, ?_⟩
    simp [inet_ntoa, inet_ntop, List.intercalate]

/-- A printed header fits the array that it is printed into. -/
theorem print_wakeup_length (hw_addr : Bytes) : (print_wakeup hw_addr).length < wakeup_buf_size :=
  Nat.lt_of_le_of_lt (List.length_take_le ..) (by decide)

/-- What acts on the address keeps the sizes. -/
theorem keeps_on_ssdp {α : Type} {p : Program Ssdp Membership α} (hp : Keeps readdresses p) :
    Keeps keeps_sized (on_ssdp p) := by
  intro r a e r' h
  obtain ⟨⟨a', e', s⟩, hrun, heq⟩ := Option.map_eq_some_iff.mp h
  simp only [Prod.mk.injEq] at heq
  obtain ⟨rfl, rfl, rfl⟩ := heq
  obtain ⟨hip, hwake⟩ := hp _ _ _ _ hrun
  refine ⟨fun hr => ⟨?_, ?_, hr.friendly_name, hr.model_name, hr.uuid⟩, rfl⟩
  · rcases hip with hip | ⟨addr, hip⟩
    · exact hip.symm ▸ hr.ip_addr
    · obtain ⟨a, ha⟩ := inet_ntoa_eq_inet_ntop addr
      exact ⟨a, hip.trans ha⟩
  · rcases hwake with hwake | ⟨hw_addr, hwake⟩
    · exact hwake.symm ▸ hr.wakeup_buf
    · exact hwake.symm ▸ print_wakeup_length hw_addr

/-- A datagram changes nothing. -/
theorem keeps_handle_datagram (saddr : sockaddr_in) (datagram : Option Bytes) :
    Keeps keeps_sized (handle_datagram saddr datagram) := by
  cases datagram with
  | none => exact keeps_pure _
  | some datagram =>
    exact keeps_ite (fun _ => keeps_pure _) fun _ => keeps_bind (keeps_read _) fun _ =>
      keeps_emit fun _ => ⟨id, rfl⟩

/-- A request changes nothing. -/
theorem keeps_dd_xml_handler (request_info : mg_request_info) :
    Keeps keeps_sized (dd_xml_handler request_info) := by
  have hwrite (text : Bytes) : Keeps keeps_sized (emit (.write text)) :=
    keeps_emit fun _ => ⟨id, rfl⟩
  exact keeps_ite (fun _ => keeps_bind (keeps_read _) fun _ => keeps_bind (hwrite _) fun _ =>
    hwrite _) fun _ => keeps_bind (hwrite _) fun _ => hwrite _

/-- An event changes the name or the address. -/
theorem keeps_onEvent (inet_addr : Bytes → Vector UInt8 4) (setsockopt : Membership → Bool)
    (table : List ifreq) (event : PlatformEvent) :
    Keeps keeps_sized (onEvent inet_addr setsockopt table event) := by
  cases event with
  | EVENT_PROPERTY_CHANGED key value =>
    refine keeps_modify fun r => ?_
    split_ifs
    · refine ⟨fun hr => ⟨hr.ip_addr, hr.wakeup_buf, ?_, hr.model_name, hr.uuid⟩, rfl⟩
      exact List.length_take_le ..
    · exact ⟨id, rfl⟩
  | EVENT_INTERFACE_IPADDRESS =>
    exact keeps_on_ssdp (addNewIpToMulticast_readdresses inet_addr setsockopt table)

/-- What comes to the responder while it runs: a datagram, an event of the platform, or a request
that the web server has rewritten. -/
inductive Responder.Step (inet_addr : Bytes → Vector UInt8 4) (setsockopt : Membership → Bool)
    (r : Responder) (e : List Sent) (r' : Responder) : Prop
  | datagram (saddr datagram) : handle_datagram saddr datagram r = some ((), e, r') →
      Step inet_addr setsockopt r e r'
  | event (table event) : onEvent inet_addr setsockopt table event r = some ((), e, r') →
      Step inet_addr setsockopt r e r'
  | request (ri) : dd_xml_handler (normalise ri) r = some ((), e, r') →
      Step inet_addr setsockopt r e r'

/-- A step keeps the sizes. -/
theorem Responder.Step.sized {inet_addr : Bytes → Vector UInt8 4} {setsockopt : Membership → Bool}
    {r r' : Responder} {e : List Sent} (h : Responder.Step inet_addr setsockopt r e r') :
    keeps_sized.rel r e r' := by
  cases h with
  | datagram saddr datagram h => exact keeps_handle_datagram _ _ _ _ _ _ h
  | event table event h => exact keeps_onEvent _ _ _ _ _ _ _ _ h
  | request ri h => exact keeps_dd_xml_handler _ _ _ _ _ h

/-- So does a run. -/
theorem sized_of_runs {inet_addr : Bytes → Vector UInt8 4} {setsockopt : Membership → Bool}
    {r r' : Responder} {e : List Sent} (h : Runs (Responder.Step inet_addr setsockopt) r e r') :
    keeps_sized.rel r e r' :=
  h.induct (fun e r' => keeps_sized.rel r e r') (keeps_sized.refl r)
    fun _ _ _ _ hrun hstep => keeps_sized.trans hrun hstep.sized

/-- What `run_ssdp` leaves when it comes to the loop. -/
theorem run_ssdp_sized {inet_addr : Bytes → Vector UInt8 4} {setsockopt : Membership → Bool}
    {table : List ifreq} {sin_port port : UInt16} {name model uuid : Bytes}
    {property : DialProperty} {e : List Sent} {r : Responder}
    (h : run_ssdp inet_addr setsockopt table (some sin_port) port (some name) (some model)
      (some uuid) (initial_responder property) = some (true, e, r)) :
    r.Sized ∧ r.fixed = (sin_port, port, model.take 255, uuid.take 255) := by
  obtain ⟨⟨⟩, e₁, r₁, e₂, hnames, h₁, -⟩ := bind_eq_some.mp h
  obtain ⟨hw_addr, e₃, r₂, e₄, hlocal, h₂, -⟩ := bind_eq_some.mp h₁
  obtain ⟨⟨⟩, e₅, r₃, e₆, hport, h₃, -⟩ := bind_eq_some.mp h₂
  obtain ⟨⟨⟩, e₇, r₄, e₈, hmcast, h₄, -⟩ := bind_eq_some.mp h₃
  simp only [modify_apply, pure_apply, Option.some.injEq, Prod.mk.injEq,
    true_and] at hnames hport h₄
  obtain ⟨-, rfl⟩ := hnames
  obtain ⟨-, rfl⟩ := hport
  obtain ⟨-, rfl⟩ := h₄
  -- The names are cut when they are copied, and the address is the one of the local host.
  have hlocalhost : bytes "127.0.0.1" = inet_ntop ⟨127, 0, 0, 1⟩ := by decide
  have hempty : ([] : Bytes).length < wakeup_buf_size := by decide
  have hfirst : keeps_sized.rel _ _ r₂ :=
    keeps_on_ssdp (get_local_address_readdresses table) _ _ _ _ hlocal
  have hsized : r₂.Sized := hfirst.1
    ⟨⟨_, hlocalhost⟩, hempty, List.length_take_le .., List.length_take_le ..,
      List.length_take_le ..⟩
  have hfixed : r₂.fixed = (0, port, model.take 255, uuid.take 255) := hfirst.2
  have hgroup : Keeps keeps_sized (handle_mcast inet_addr setsockopt hw_addr) := by
    refine keeps_bind (keeps_modify fun r => ?_) fun _ => ?_
    · split_ifs
      · exact ⟨fun hr => ⟨hr.ip_addr, print_wakeup_length hw_addr, hr.friendly_name, hr.model_name,
          hr.uuid⟩, rfl⟩
      · exact ⟨id, rfl⟩
    refine keeps_bind (keeps_modify fun r => ?_) fun _ => ?_
    · exact ⟨fun hr => ⟨hr.ip_addr, hr.wakeup_buf, hr.friendly_name, hr.model_name, hr.uuid⟩, rfl⟩
    refine keeps_bind (keeps_read _) fun _ => keeps_bind (keeps_emit fun _ => ⟨id, rfl⟩) fun _ => ?_
    exact keeps_ite (fun _ => keeps_stop) fun _ => keeps_pure _
  obtain ⟨hkept, hfixed'⟩ := hgroup _ _ _ _ hmcast
  refine ⟨hkept ⟨hsized.ip_addr, hsized.wakeup_buf, hsized.friendly_name, hsized.model_name,
    hsized.uuid⟩, ?_⟩
  simp only [Responder.fixed, Prod.mk.injEq] at hfixed hfixed' ⊢
  obtain ⟨-, hport, hmodel, huuid⟩ := hfixed
  obtain ⟨hport', hdial, hmodel', huuid'⟩ := hfixed'
  exact ⟨hport', hdial.trans hport, hmodel'.trans hmodel, huuid'.trans huuid⟩

/-! ## The texts -/

/-- A URL of this host. -/
def http_url (addr : InAddr) (port : UInt16) (uri : Bytes) : Bytes :=
  bytes "http://" ++ authority addr port ++ uri

/-- It is one line that begins with no blank, if its path is one line. -/
theorem http_url_value (uri : Bytes) (huri : chr '\r' ∉ uri) (addr : InAddr) (port : UInt16) :
    chr '\r' ∉ http_url addr port uri ∧ (http_url addr port uri).head? ≠ some (chr ' ') := by
  have hscheme : chr '\r' ∉ bytes "http://" := by decide
  have hauthority : chr '\r' ∉ authority addr port := fun h =>
    ((authority_bounds addr port).2 _ h).2 rfl
  refine ⟨?_, ?_⟩
  · simp only [http_url, List.mem_append, not_or]
    exact ⟨⟨hscheme, hauthority⟩, huri⟩
  · simp [http_url, bytes, chr]

/-- Its path. -/
theorem url_path_http_url {uri : Bytes} (rest : Bytes) (huri : uri = chr '/' :: rest)
    (hplain : chr '?' ∉ uri) (addr : InAddr) (port : UInt16) :
    url_path (http_url addr port uri) = uri := by
  have hslash : chr '/' ∉ authority addr port := fun h =>
    ((authority_bounds addr port).2 _ h).1 rfl
  have h := url_path_eq hslash huri hplain (.inl rfl)
  rwa [List.append_nil] at h

/-- The reply to a search is whole, and its `LOCATION` is the URL of the description. -/
theorem ssdp_reply_spec {r : Responder} (hr : r.Sized) {addr : InAddr}
    (haddr : r.ip_addr = inet_ntop addr) :
    (print_ssdp_reply r.ip_addr r.my_port r.uuid r.wakeup_buf).length < send_buf_size ∧
      header_of (bytes "LOCATION") (print_ssdp_reply r.ip_addr r.my_port r.uuid r.wakeup_buf) =
        some (http_url addr r.my_port (bytes "/dd.xml")) := by
  constructor
  · have hauthority := (authority_bounds addr r.my_port).1
    have huuid := hr.uuid
    have hwakeup := hr.wakeup_buf
    have hlength : (print_ssdp_reply r.ip_addr r.my_port r.uuid r.wakeup_buf).length =
        (print_ssdp_reply [] 0 [] []).length - (dec 0).length - (bytes ":").length +
          (authority addr r.my_port).length + r.uuid.length + r.wakeup_buf.length := by
      have hzero : (dec (0 : UInt16).toNat).length = (dec 0).length := rfl
      simp only [print_ssdp_reply, authority, haddr, List.length_append, List.length_nil, hzero]
      omega
    have hdigit : (dec 0).length = 1 := rfl
    have hcolon : (bytes ":").length = 1 := rfl
    rw [hlength]
    unfold send_buf_size ssdp_reply_size INET_ADDRSTRLEN
    omega
  · obtain ⟨hcr, hblank⟩ := http_url_value (bytes "/dd.xml") (by decide) addr r.my_port
    have hstatus : chr '\r' ∉ bytes "HTTP/1.1 200 OK" := by decide
    have h := header_of_cons_pos (bytes "LOCATION") (bytes "LOCATION") hstatus
      ⟨by decide, by decide⟩ hcr hblank (by decide)
    rw [← h (bytes "CACHE-CONTROL: max-age=1800\r\n" ++ bytes "EXT:\r\n" ++
      bytes "BOOTID.UPNP.ORG: 1\r\n" ++ bytes "SERVER: Linux/2.6 UPnP/1.1 quick_ssdp/1.1\r\n" ++
      bytes "ST: urn:dial-multiscreen-org:service:dial:1\r\n" ++
      bytes "USN: uuid:" ++ r.uuid ++ bytes "::urn:dial-multiscreen-org:service:dial:1\r\n" ++
      r.wakeup_buf ++ bytes "\r\n")]
    refine congrArg (header_of (bytes "LOCATION")) ?_
    have hfirst : bytes "HTTP/1.1 200 OK\r\n" = bytes "HTTP/1.1 200 OK" ++ crlf := rfl
    have hname : bytes "LOCATION: http://" =
        bytes "LOCATION" ++ bytes ": " ++ bytes "http://" := rfl
    have hpath : bytes "/dd.xml\r\n" = bytes "/dd.xml" ++ crlf := rfl
    simp only [print_ssdp_reply, http_url, authority, haddr, hfirst, hname, hpath,
      List.append_assoc]

/-- The description is whole, and its `Application-URL` is the URL of the applications. -/
theorem dd_head_spec {r : Responder} (hr : r.Sized) {addr : InAddr}
    (haddr : r.ip_addr = inet_ntop addr) :
    mg_printf (print_dd_head r.ip_addr r.dial_port) = print_dd_head r.ip_addr r.dial_port ∧
      mg_printf (print_ddxml r.friendly_name r.model_name r.uuid) =
        print_ddxml r.friendly_name r.model_name r.uuid ∧
      header_of (bytes "Application-URL") (print_dd_head r.ip_addr r.dial_port) =
        some (http_url addr r.dial_port APPS_URI) := by
  have hsplit : print_dd_head r.ip_addr r.dial_port = bytes "HTTP/1.1 200 OK" ++ crlf ++
      (bytes "Content-Type" ++ bytes ": " ++ bytes "text/xml" ++ crlf ++
        (bytes "Application-URL" ++ bytes ": " ++ http_url addr r.dial_port APPS_URI ++ crlf ++
          crlf)) := by
    have hfirst : bytes "HTTP/1.1 200 OK\r\n" = bytes "HTTP/1.1 200 OK" ++ crlf := rfl
    have htype : bytes "Content-Type: text/xml\r\n" =
        bytes "Content-Type" ++ bytes ": " ++ bytes "text/xml" ++ crlf := rfl
    have hname : bytes "Application-URL: http://" =
        bytes "Application-URL" ++ bytes ": " ++ bytes "http://" := rfl
    have hpath : bytes "/apps/\r\n" = APPS_URI ++ crlf := rfl
    have hend : bytes "\r\n" = crlf := rfl
    simp only [print_dd_head, http_url, authority, haddr, hfirst, htype, hname, hpath, hend,
      List.append_assoc]
  refine ⟨List.take_of_length_le ?_, List.take_of_length_le ?_, ?_⟩
  · have hauthority := (authority_bounds addr r.dial_port).1
    rw [hsplit]
    simp only [List.length_append, http_url]
    have hlengths : (bytes "HTTP/1.1 200 OK").length + (bytes "Content-Type").length +
      2 * (bytes ": ").length + (bytes "text/xml").length + (bytes "Application-URL").length +
      (bytes "http://").length + APPS_URI.length + 4 * crlf.length < 100 := by decide
    have hbuf : BUFSIZ = 8192 := rfl
    omega
  · have hname := hr.friendly_name
    have hmodel := hr.model_name
    have huuid := hr.uuid
    have hlength : (print_ddxml r.friendly_name r.model_name r.uuid).length =
        (print_ddxml [] [] []).length + r.friendly_name.length + r.model_name.length +
          r.uuid.length := by
      simp only [print_ddxml, List.length_append, List.length_nil]
      omega
    have hempty : (print_ddxml [] [] []).length < 1024 := by decide
    have hbuf : BUFSIZ = 8192 := rfl
    omega
  · obtain ⟨hcr, hblank⟩ := http_url_value APPS_URI (by decide) addr r.dial_port
    have hstatus : chr '\r' ∉ bytes "HTTP/1.1 200 OK" := by decide
    rw [hsplit, header_of_cons_neg _ _ hstatus ⟨by decide, by decide⟩ (by decide) (by decide)]
    exact header_of_cons_pos _ _ hstatus ⟨by decide, by decide⟩ hcr hblank (by decide) crlf

/-! ## The way to an application -/

variable {W : Type}

/-- What the responder takes for a search: the target is in front of the first terminator of what
fits its buffer. -/
def IsSearch (datagram : Bytes) : Prop := search_target <:+: cstr (datagram.take (gBuf_size - 1))

/-- A `GET` for the application asks for its status. -/
theorem reaches_status {n : Bytes} {ri : mg_request_info} {s : System W} (hn : LinkName n)
    (huri : ForPath ri (app_uri n)) (hmethod : ri.request_method = bytes "GET")
    (hpass : Passes (normalise ri) n s) : Reaches ri s (.status n) := by
  have hnorm := huri.resource hn (app_uri_eq_path n) (by simp)
  have hshape : shape_of (normalise ri).uri = .app := by rw [hnorm, shape_of_app_uri hn.named]
  have hname : (normalise ri).uri.drop APPS_URI.length = n := by
    rw [hnorm, app_uri, List.drop_left]
  obtain ⟨e, t, hcheck⟩ := hpass
  refine ⟨e ++ [], t, ?_⟩
  have hmethods : bytes "GET" ≠ bytes "OPTIONS" ∧ bytes "GET" ≠ bytes "POST" := by decide
  have hmethod' : (normalise ri).request_method = bytes "GET" := hmethod
  simp only [route, hshape, route_app, hname]
  rw [bind_of_some hcheck]
  simp [hmethod', hmethods]

/-- A datagram is answered if it is a search. -/
theorem handle_datagram_eq {r : Responder} (hr : r.Sized) {addr : InAddr}
    (haddr : r.ip_addr = inet_ntop addr) (saddr : sockaddr_in) (datagram : Bytes) :
    (IsSearch datagram → ∃ text,
      handle_datagram saddr (some datagram) r =
        some ((), [.sendto saddr text text.length], r) ∧
      header_of (bytes "LOCATION") text = some (http_url addr r.my_port (bytes "/dd.xml"))) ∧
    (¬IsSearch datagram → handle_datagram saddr (some datagram) r = some ((), [], r)) := by
  have hsearch : IsSearch datagram ↔
      ¬strstr (cstr (datagram.take (gBuf_size - 1))) search_target = none := by
    rw [IsSearch, ← strstr_isSome]
    exact Option.isSome_iff_ne_none
  obtain ⟨hfits, hlocation⟩ := ssdp_reply_spec hr haddr
  have huncut : snprintf send_buf_size
      (print_ssdp_reply r.ip_addr r.my_port r.uuid r.wakeup_buf) =
        print_ssdp_reply r.ip_addr r.my_port r.uuid r.wakeup_buf :=
    List.take_of_length_le (by omega)
  rw [hsearch]
  unfold handle_datagram
  simp only
  constructor
  · intro h
    refine ⟨_, ?_, hlocation⟩
    rw [if_neg h, read_bind_apply, id_eq, huncut, emit_apply]
  · intro h
    rw [if_pos (not_not.mp h), pure_apply]

/-- The description is where the reply says. -/
theorem dd_xml_handler_eq {r : Responder} (hr : r.Sized) {addr : InAddr}
    (haddr : r.ip_addr = inet_ntop addr) {ri : mg_request_info}
    (huri : ForPath ri (bytes "/dd.xml")) (hmethod : ri.request_method = bytes "GET") :
    ∃ head, dd_xml_handler (normalise ri) r =
        some ((), [.write head, .write (print_ddxml r.friendly_name r.model_name r.uuid)], r) ∧
      header_of (bytes "Application-URL") head = some (http_url addr r.dial_port APPS_URI) := by
  have hpath : bytes "/dd.xml" = path [bytes "dd.xml"] := rfl
  have hplain : ∀ seg ∈ [bytes "dd.xml"], PlainSegment seg := by
    intro seg hseg
    obtain rfl := List.mem_singleton.mp hseg
    exact plainSegment_of_unreserved (by decide) (by decide) (by decide)
  have hnorm : (normalise ri).uri = bytes "/dd.xml" := by
    rcases huri with h | ⟨query, h⟩
    · exact @normalise_path _ hplain ri [] (.inl h)
    · exact normalise_path hplain (.inr h)
  have hmethod' : (normalise ri).request_method = bytes "GET" := hmethod
  obtain ⟨hhead, hbody, hurl⟩ := dd_head_spec hr haddr
  refine ⟨_, ?_, hurl⟩
  unfold dd_xml_handler
  rw [if_pos ⟨hnorm, hmethod'⟩, read_bind_apply, id_eq, hhead, hbody]
  rfl

/-- **A search leads to the applications.** Whatever datagrams, events and requests have come since
the responder began its loop: a datagram is answered if and only if it has the target of the search,
and nothing else comes of it; the reply is never cut, and its `LOCATION` is on the port on which the
responder listens; a client that follows it gets the whole description, with the model and the UUID
that the responder was started with; and a client that appends a name to the `Application-URL` of
the description comes to the status and to the start of the application of that name, on the port of
the DIAL server. -/
theorem discovery_leads_to_apps {inet_addr : Bytes → Vector UInt8 4}
    {setsockopt : Membership → Bool} {table : List ifreq} {sin_port port : UInt16}
    {name model uuid : Bytes} {property : DialProperty} {e₀ e : List Sent} {r₀ r : Responder}
    (hstart : run_ssdp inet_addr setsockopt table (some sin_port) port (some name) (some model)
      (some uuid) (initial_responder property) = some (true, e₀, r₀))
    (hrun : Runs (Responder.Step inet_addr setsockopt) r₀ e r) :
    ∃ addr : InAddr, r.ip_addr = inet_ntop addr ∧
      (∀ saddr datagram,
        (IsSearch datagram → ∃ text,
          handle_datagram saddr (some datagram) r =
            some ((), [.sendto saddr text text.length], r) ∧
          header_of (bytes "LOCATION") text = some (http_url addr sin_port (bytes "/dd.xml"))) ∧
        (¬IsSearch datagram → handle_datagram saddr (some datagram) r = some ((), [], r))) ∧
      (∀ ri, ForPath ri (url_path (http_url addr sin_port (bytes "/dd.xml"))) →
        ri.request_method = bytes "GET" → ∃ head,
          dd_xml_handler (normalise ri) r = some ((), [.write head,
            .write (print_ddxml r.friendly_name (model.take 255) (uuid.take 255))], r) ∧
          header_of (bytes "Application-URL") head = some (http_url addr port APPS_URI)) ∧
      ∀ n, LinkName n → ∀ (s : System W) ri,
        ForPath ri (url_path (http_url addr port APPS_URI ++ n)) → Passes (normalise ri) n s →
          (ri.request_method = bytes "GET" → Reaches ri s (.status n)) ∧
          (ri.request_method = bytes "POST" → Reaches ri s (.start n)) := by
  obtain ⟨hsized₀, hfixed₀⟩ := run_ssdp_sized hstart
  obtain ⟨hkept, hfixed⟩ := sized_of_runs hrun
  have hsized := hkept hsized₀
  rw [hfixed₀] at hfixed
  simp only [Responder.fixed, Prod.mk.injEq] at hfixed
  obtain ⟨hsin_port, hport, hmodel, huuid⟩ := hfixed
  obtain ⟨addr, haddr⟩ := hsized.ip_addr
  refine ⟨addr, haddr, fun saddr datagram => ?_, fun ri huri hmethod => ?_,
    fun n hn s ri huri hpass => ?_⟩
  · rw [← hsin_port]
    exact handle_datagram_eq hsized haddr saddr datagram
  · have hpath : url_path (http_url addr sin_port (bytes "/dd.xml")) = bytes "/dd.xml" :=
      url_path_http_url (bytes "dd.xml") rfl (by decide) addr sin_port
    rw [hpath] at huri
    rw [← hport, ← hmodel, ← huuid]
    exact dd_xml_handler_eq hsized haddr huri hmethod
  · -- The name behind the URL of the applications is the resource of the application.
    have happend : http_url addr port APPS_URI ++ n = http_url addr port (app_uri n) := by
      rw [http_url, http_url, app_uri, List.append_assoc]
    have hpath : url_path (http_url addr port (app_uri n)) = app_uri n :=
      url_path_http_url (bytes "apps/" ++ n) rfl hn.app_no_query addr port
    rw [happend, hpath] at huri
    exact ⟨fun hmethod => reaches_status hn huri hmethod hpass,
      fun hmethod => reaches_start hn huri hmethod hpass⟩

/-- A search, as a client sends it. -/
def search_datagram : Bytes :=
  bytes "M-SEARCH * HTTP/1.1\r\n" ++ bytes "MAN: \"ssdp:discover\"\r\n" ++ bytes "ST: " ++
    search_target ++ bytes "\r\n\r\n"

/-- A wired entry. -/
def eth_entry : ifreq :=
  ⟨interface_name (bytes "eth0"), #v[192, 168, 0, 2], false, #v[2, 0, 0, 0, 0, 1]⟩

/-- `inet_addr` of the group and of the address of this entry. -/
def group_addr (cp : Bytes) : Vector UInt8 4 :=
  if cp = bytes "239.255.255.250" then #v[239, 255, 255, 250] else #v[192, 168, 0, 2]

/-- A responder with a wired entry answers a search, also after the name of the device has
changed. -/
theorem discovery_leads_to_apps_eth :
    ∃ (addr : InAddr) (r : Responder) (text : Bytes),
      handle_datagram ⟨#v[192, 168, 0, 3], 50000⟩ (some search_datagram) r =
        some ((), [.sendto ⟨#v[192, 168, 0, 3], 50000⟩ text text.length], r) ∧
      header_of (bytes "LOCATION") text = some (http_url addr 56790 (bytes "/dd.xml")) := by
  obtain ⟨e₀, r₀, hstart⟩ : ∃ e₀ r₀, run_ssdp group_addr (fun _ => true) [eth_entry] (some 56790) 80
      (some (bytes "TV")) (some (bytes "OTT-Defult")) (some spDefaultUuid)
      (initial_responder (setDialProperty (fun _ => none) none)) = some (true, e₀, r₀) :=
    ⟨_, _, rfl⟩
  obtain ⟨r, hstep⟩ : ∃ r, Responder.Step group_addr (fun _ => true) r₀ [] r :=
    ⟨_, .event [] (.EVENT_PROPERTY_CHANGED (bytes "persist.dialserver.name") (bytes "Kitchen")) rfl⟩
  obtain ⟨addr, -, hanswers, -⟩ :=
    discovery_leads_to_apps (W := Bool) hstart (Runs.single hstep)
  have hsearch : IsSearch search_datagram := by
    refine ⟨bytes "M-SEARCH * HTTP/1.1\r\n" ++ bytes "MAN: \"ssdp:discover\"\r\n" ++ bytes "ST: ",
      bytes "\r\n\r\n", ?_⟩
    decide
  obtain ⟨text, hreply, hlocation⟩ := (hanswers _ search_datagram).1 hsearch
  exact ⟨addr, r, text, hreply, hlocation⟩

end DialServer
