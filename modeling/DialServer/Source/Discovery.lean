import DialServer.Source.Callbacks
import DialServer.Source.Router
import DialServer.Source.Ssdp

/-!
# Discovery

The rest of `quick_ssdp.c`, which answers the searches of clients and describes the device, and what
`appman.cpp` and `thunder_api.cpp` do to its names: `setDialProperty` before the responder starts,
and the handler of events of the platform while it runs. A datagram, an event and a request for the
description are handled one at a time. The failures of the sockets, other than those of
`setsockopt`, end the process and are left out.
-/

namespace DialServer

open CLib

/-! ## `setDialProperty` -/

/-- `MAXSIZE`, and the size of the arrays that it is used for. -/
def MAXSIZE : ℕ := 256

/-- `spUuid` of `main.c`, as it is initialised. -/
def spUuid : Bytes := bytes "deadbeef-wlfy-beef-dead-"

/-- `spDefaultUuid`. -/
def spDefaultUuid : Bytes := bytes "deadbeef-wlfy-beef-dead-beefdeadbeef"

/-- `spDefaultFName`. -/
def spDefaultFName : Bytes := bytes "AMLOGICDEV"

/-- `spDefaultMName`. -/
def spDefaultMName : Bytes := bytes "OTT-Defult"

/-- `snprintf` of a string into an array of `IFNAMSIZ` characters. -/
def interface_name (value : Bytes) : InterfaceName where
  text := snprintf IFNAMSIZ (cstr value)
  fits := Nat.lt_of_le_of_lt (List.length_take_le ..) (by decide)
  terminated h := by simpa using List.mem_takeWhile_imp (List.mem_of_mem_take h)

/-- What `setDialProperty` leaves in its arguments and in the names of the interfaces. -/
structure DialProperty where
  friendlyname : Bytes
  uuid : Bytes
  modelname : Bytes
  eth_interface : InterfaceName
  wifi_interface : InterfaceName

/-- `setDialProperty`, with the properties of the platform, and with the hardware address of `eth0`
if `get_mac` finds it. -/
def setDialProperty (get : Bytes → Option Bytes) (mac_addr : Option (Vector UInt8 6)) :
    DialProperty where
  uuid := match mac_addr with
    | some sa_data => spUuid ++ sa_data.toList.flatMap print_02x
    | none => snprintf MAXSIZE spDefaultUuid
  friendlyname := snprintf MAXSIZE
    (((get (bytes "persist.dialserver.name")).map cstr).getD spDefaultFName)
  modelname := snprintf MAXSIZE (((get (bytes "ro.model.name")).map cstr).getD spDefaultMName)
  eth_interface := interface_name ((get (bytes "ro.ethernet.interface")).getD (bytes "eth0"))
  wifi_interface := interface_name ((get (bytes "ro.wifi.interface")).getD (bytes "wlan0"))

/-! ## The responder -/

/-- `struct sockaddr_in`, of the client that a datagram is from. -/
structure sockaddr_in where
  sin_addr : Vector UInt8 4
  sin_port : UInt16
  deriving DecidableEq

/-- The variables of `quick_ssdp.c`. -/
structure Responder extends Ssdp where
  dial_port : UInt16
  my_port : UInt16
  friendly_name : Bytes
  model_name : Bytes
  uuid : Bytes

/-- What the responder does to the outside. `sendto` sends `send_size` bytes of a buffer that has
`send_buf` in front of a terminator. -/
inductive Sent
  | setsockopt (request : Membership)
  | sendto (saddr : sockaddr_in) (send_buf : Bytes) (send_size : ℕ)
  | write (text : Bytes)
  deriving DecidableEq

/-- What acts on the address of the responder. -/
def on_ssdp {α : Type} (p : Program Ssdp Membership α) : Program Responder Sent α := fun r =>
  (p r.toSsdp).map fun (a, e, s) => (a, e.map .setsockopt, { r with toSsdp := s })

/-- The text of `ddxml`. -/
def print_ddxml (friendly_name model_name uuid : Bytes) : Bytes :=
  bytes "<?xml version=\"1.0\"?>" ++
    bytes "<root xmlns=\"urn:schemas-upnp-org:device-1-0\"" ++
    bytes " xmlns:r=\"urn:restful-tv-org:schemas:upnp-dd\">" ++
    bytes " <specVersion> <major>1</major> <minor>0</minor> </specVersion>" ++
    bytes " <device> <deviceType>urn:schemas-upnp-org:device:tvdevice:1</deviceType>" ++
    bytes " <friendlyName>" ++ friendly_name ++ bytes "</friendlyName>" ++
    bytes " <manufacturer>Amlogic</manufacturer> <modelName>" ++ model_name ++
    bytes "</modelName> <UDN>uuid:" ++ uuid ++ bytes "</UDN> </device></root>"

/-- The text that the client of `dd.xml` is told where the applications are. -/
def print_dd_head (ip_addr : Bytes) (dial_port : UInt16) : Bytes :=
  bytes "HTTP/1.1 200 OK\r\n" ++ bytes "Content-Type: text/xml\r\n" ++
    bytes "Application-URL: http://" ++ ip_addr ++ bytes ":" ++ dec dial_port.toNat ++
    bytes "/apps/\r\n" ++ bytes "\r\n"

/-- The text of `ssdp_reply`. -/
def print_ssdp_reply (ip_addr : Bytes) (my_port : UInt16) (uuid wakeup_buf : Bytes) : Bytes :=
  bytes "HTTP/1.1 200 OK\r\n" ++
    bytes "LOCATION: http://" ++ ip_addr ++ bytes ":" ++ dec my_port.toNat ++
    bytes "/dd.xml\r\n" ++ bytes "CACHE-CONTROL: max-age=1800\r\n" ++ bytes "EXT:\r\n" ++
    bytes "BOOTID.UPNP.ORG: 1\r\n" ++ bytes "SERVER: Linux/2.6 UPnP/1.1 quick_ssdp/1.1\r\n" ++
    bytes "ST: urn:dial-multiscreen-org:service:dial:1\r\n" ++
    bytes "USN: uuid:" ++ uuid ++ bytes "::urn:dial-multiscreen-org:service:dial:1\r\n" ++
    wakeup_buf ++ bytes "\r\n"

/-- `sizeof(ssdp_reply)`: the format, in which four conversions take eight characters. -/
def ssdp_reply_size : ℕ := (print_ssdp_reply [] 0 [] []).length - (dec 0).length + 8 + 1

/-- `INET_ADDRSTRLEN`. -/
def INET_ADDRSTRLEN : ℕ := 16

/-- `sizeof(send_buf)`. -/
def send_buf_size : ℕ := ssdp_reply_size + INET_ADDRSTRLEN + 256 + 256 + wakeup_buf_size

/-- `sizeof(gBuf)`. -/
def gBuf_size : ℕ := 4096

/-- The target of a search for DIAL servers, which `handle_mcast` looks for. -/
def search_target : Bytes := bytes "urn:dial-multiscreen-org:service:dial:1"

/-- The body of the loop of `handle_mcast`, with what `recvfrom` returns. -/
def handle_datagram (saddr : sockaddr_in) : Option Bytes → Program Responder Sent Unit
  | none => return ()                                   -- perror("recvfrom")
  | some datagram => do
    let gBuf := cstr (datagram.take (gBuf_size - 1))
    -- "sophisticated SSDP parsing algorithm"
    if strstr gBuf search_target = none then return ()
    else
      let r ← Program.read id
      let text := print_ssdp_reply r.ip_addr r.my_port r.uuid r.wakeup_buf
      Program.emit (.sendto saddr (snprintf send_buf_size text) text.length)

/-- `handle_mcast` up to its loop. -/
def handle_mcast (inet_addr : Bytes → Vector UInt8 4) (setsockopt : Membership → Bool)
    (hw_addr : Bytes) : Program Responder Sent Unit := do
  Program.modify fun r =>
    if -1 < wakeup_timeout ∧ r.wakeOnWifiLan then { r with wakeup_buf := print_wakeup hw_addr }
    else r
  Program.modify fun r =>
    { r with mreq := ⟨inet_addr (bytes "239.255.255.250"), inet_addr r.ip_addr⟩ }
  let mreq ← Program.read fun r => r.mreq
  Program.emit (.setsockopt (.IP_ADD_MEMBERSHIP mreq))
  if !setsockopt (.IP_ADD_MEMBERSHIP mreq) then Program.stop
  else return ()

/-- `run_ssdp` up to the loop of `handle_mcast`, with the table of interfaces and with the port on
which `mg_start` listens, if it starts. It returns whether the loop is reached. -/
def run_ssdp (inet_addr : Bytes → Vector UInt8 4) (setsockopt : Membership → Bool)
    (table : List ifreq) (mg_start : Option UInt16) (port : UInt16)
    (pFriendlyName pModelName pUuid : Option Bytes) : Program Responder Sent Bool := do
  Program.modify fun r =>
    { r with
      friendly_name := (pFriendlyName.map (List.take (256 - 1))).getD (bytes "DIAL server sample")
      model_name := (pModelName.map (List.take (256 - 1))).getD
        (bytes "deadbeef-dead-beef-dead-beefdeadbeef")
      uuid := (pUuid.map (List.take (256 - 1))).getD
        (bytes "deadbeef-dead-beef-dead-beefdeadbeef")
      dial_port := port }
  let hw_addr ← on_ssdp (get_local_address table)
  match mg_start with
  | none => return false                -- "Unable to start SSDP master listening thread."
  | some sin_port =>
    Program.modify fun r => { r with my_port := sin_port }
    handle_mcast inet_addr setsockopt hw_addr
    return true

/-- `request_handler` of `quick_ssdp.c`, on `MG_NEW_REQUEST`. -/
def dd_xml_handler (request_info : mg_request_info) : Program Responder Sent Unit := do
  if request_info.uri = bytes "/dd.xml" ∧ request_info.request_method = bytes "GET" then
    let r ← Program.read id
    Program.emit (.write (mg_printf (print_dd_head r.ip_addr r.dial_port)))
    Program.emit (.write (mg_printf (print_ddxml r.friendly_name r.model_name r.uuid)))
  else
    let body := http_error_body 404 (bytes "Not Found") (bytes "Not Found")
    Program.emit (.write (mg_printf (http_error_head 404 (bytes "Not Found") body.length)))
    Program.emit (.write (mg_printf body))

/-- An event of the platform. -/
inductive PlatformEvent
  | EVENT_PROPERTY_CHANGED (key value : Bytes)
  | EVENT_INTERFACE_IPADDRESS

/-- `AmlPlfEventHandle::onEvent`, with the table of interfaces at that time. In the other build it
is `PersistDialServerName::onEvent` and `changeMulticast`. -/
def onEvent (inet_addr : Bytes → Vector UInt8 4) (setsockopt : Membership → Bool)
    (table : List ifreq) : PlatformEvent → Program Responder Sent Unit
  | .EVENT_PROPERTY_CHANGED key value =>
    Program.modify fun r =>
      if key = bytes "persist.dialserver.name" then
        { r with friendly_name := snprintf MAXSIZE (cstr value) }
      else r
  | .EVENT_INTERFACE_IPADDRESS => on_ssdp (addNewIpToMulticast inet_addr setsockopt table)

/-- The variables of `quick_ssdp.c` when `main` has called `setDialProperty`. -/
def initial_responder (property : DialProperty) : Responder where
  ip_addr := bytes "127.0.0.1"
  wakeup_buf := []
  mreq := ⟨Vector.replicate 4 0, Vector.replicate 4 0⟩
  wakeOnWifiLan := true
  eth_interface := property.eth_interface
  wifi_interface := property.wifi_interface
  dial_port := 0
  my_port := 0
  friendly_name := []
  model_name := []
  uuid := []

end DialServer
