import DialServer.Source.UrlLib

/-!
# `quick_ssdp.c`

The part of the SSDP responder that finds the address to advertise, and what happens when the
address changes. The table of interfaces is given, with what `SIOCGIFFLAGS` and `SIOCGIFHWADDR`
return for each entry; a failure of a socket, of these calls or of `malloc` ends the process and is
left out here.
-/

namespace DialServer

open CLib

/-- `IFNAMSIZ`. -/
def IFNAMSIZ : ℕ := 16

/-- `INET6_ADDRSTRLEN`. -/
def INET6_ADDRSTRLEN : ℕ := 46

/-- `HW_ADDRSTRLEN`. -/
def HW_ADDRSTRLEN : ℕ := 18

/-- `STR_TIMEOUTLEN`. -/
def STR_TIMEOUTLEN : ℕ := 6

/-- `wakeup_timeout`. -/
def wakeup_timeout : ℤ := 10

/-- A string in an array of `IFNAMSIZ` characters. -/
structure InterfaceName where
  text : Bytes
  fits : text.length < IFNAMSIZ
  terminated : 0 ∉ text
  deriving DecidableEq

/-- `struct ifreq`: an entry of the table, and what the two requests for it return. -/
structure ifreq where
  ifr_name : InterfaceName
  ifr_addr : Vector UInt8 4
  /-- `IFF_LOOPBACK` of `ifr_flags`. -/
  loopback : Bool
  ifr_hwaddr : Vector UInt8 6
  deriving DecidableEq

/-- `struct ip_mreq`. -/
structure ip_mreq where
  imr_multiaddr : Vector UInt8 4
  imr_interface : Vector UInt8 4
  deriving DecidableEq

/-- The variables of the responder. -/
structure Ssdp where
  ip_addr : Bytes
  wakeup_buf : Bytes
  mreq : ip_mreq
  wakeOnWifiLan : Bool
  eth_interface : InterfaceName
  wifi_interface : InterfaceName
  deriving DecidableEq

/-- What the responder asks of its socket: to leave a group and to join one. -/
inductive Membership
  | IP_DROP_MEMBERSHIP (mreq : ip_mreq)
  | IP_ADD_MEMBERSHIP (mreq : ip_mreq)
  deriving DecidableEq

/-- `inet_ntoa`. -/
def inet_ntoa (addr : Vector UInt8 4) : Bytes :=
  [chr '.'].intercalate (addr.toList.map fun b => dec b.toNat)

/-- `%02x` of a byte. -/
def print_02x (b : UInt8) : Bytes := [to_hex (b >>> 4), to_hex (b &&& 15)]

/-- `"%02x:%02x:%02x:%02x:%02x:%02x"`. -/
def print_hw_addr (sa_data : Vector UInt8 6) : Bytes :=
  [chr ':'].intercalate (sa_data.toList.map print_02x)

/-- The value of `hw_addr` in front of the loop. -/
def default_hw_addr : Bytes := bytes "00:00:00:00:00:00"

/-- The loop of `get_local_address`, with the values of `ip_addr` and `hw_addr`. -/
def local_address_loop (eth_interface wifi_interface : InterfaceName) :
    List ifreq → Bytes × Bytes → Bytes × Bytes
  | [], (ip_addr, hw_addr) => (ip_addr, hw_addr)
  | entry :: table, (ip_addr, hw_addr) =>
    let is_eth := strncmp_eq entry.ifr_name.text eth_interface.text IFNAMSIZ
    let is_wlan := strncmp_eq entry.ifr_name.text wifi_interface.text IFNAMSIZ
    if !is_eth && !is_wlan then
      local_address_loop eth_interface wifi_interface table (ip_addr, hw_addr)
    else
      -- The address is copied before the flags are known.
      let ip_addr := (inet_ntoa entry.ifr_addr).take (INET6_ADDRSTRLEN - 1)
      if entry.loopback then
        local_address_loop eth_interface wifi_interface table (ip_addr, hw_addr)
      else
        let hw_addr := print_hw_addr entry.ifr_hwaddr
        if is_eth then (ip_addr, hw_addr)
        else local_address_loop eth_interface wifi_interface table (ip_addr, hw_addr)

/-- `get_local_address`. -/
def get_local_address (table : List ifreq) : Program Ssdp Membership Bytes := do
  let s ← Program.read id
  let (ip_addr, hw_addr) := local_address_loop s.eth_interface s.wifi_interface table
    (s.ip_addr, default_hw_addr)
  Program.modify fun s => { s with ip_addr := ip_addr }
  return hw_addr

/-- `sizeof(wakeup_buf)`. -/
def wakeup_buf_size : ℕ :=
  (bytes "WAKEUP: MAC=%s;Timeout=%d\r\n").length + 1 + HW_ADDRSTRLEN + STR_TIMEOUTLEN

/-- What `snprintf` writes to `wakeup_buf`. -/
def print_wakeup (hw_addr : Bytes) : Bytes :=
  (bytes "WAKEUP: MAC=" ++ hw_addr ++ bytes ";Timeout=" ++ dec wakeup_timeout.toNat ++
    bytes "\r\n").take (wakeup_buf_size - 1)

/-- `addNewIpToMulticast`. `inet_addr` and `setsockopt` are those of the system; a call of
`setsockopt` that fails ends the process. -/
def addNewIpToMulticast (inet_addr : Bytes → Vector UInt8 4) (setsockopt : Membership → Bool)
    (table : List ifreq) : Program Ssdp Membership Unit := do
  let hw_addr ← get_local_address table
  if strncmp_eq hw_addr default_hw_addr HW_ADDRSTRLEN then return ()
  else
    Program.modify fun s =>
      if -1 < wakeup_timeout ∧ s.wakeOnWifiLan then { s with wakeup_buf := print_wakeup hw_addr }
      else s
    let mreq ← Program.read Ssdp.mreq
    Program.emit (.IP_DROP_MEMBERSHIP mreq)
    if !setsockopt (.IP_DROP_MEMBERSHIP mreq) then Program.stop
    else
      Program.modify fun s =>
        { s with mreq := ⟨inet_addr (bytes "239.255.255.250"), inet_addr s.ip_addr⟩ }
      let mreq ← Program.read Ssdp.mreq
      Program.emit (.IP_ADD_MEMBERSHIP mreq)
      if !setsockopt (.IP_ADD_MEMBERSHIP mreq) then Program.stop
      else return ()

end DialServer
