import DialServer.Source.Ssdp
import DialServer.Text.Encoding

/-!
# The advertised address

`get_local_address` returns the hardware address of one entry of the table (`chosen`), and leaves
the address of another in `ip_addr` (`shown`): the loop copies an address before it looks at the
flags of its entry. The two are the same entry unless loopback entries come behind the one that is
used, and a change is dropped after the copy when the entry that is used has no hardware address but
zeros.
-/

set_option maxRecDepth 8000

namespace DialServer

open CLib Program

/-! ## Printed addresses -/

/-- A name is told by as many characters as its array has. -/
theorem strncmp_eq_name {a b : InterfaceName} :
    strncmp_eq a.text b.text IFNAMSIZ = true ↔ a = b := by
  rw [strncmp_eq_iff, List.take_of_length_le a.fits.le, List.take_of_length_le b.fits.le]
  obtain ⟨a, _, _⟩ := a
  obtain ⟨b, _, _⟩ := b
  simp

/-- A number of three digits at most is what its digits say. -/
theorem dec_injective : Function.Injective fun b : UInt8 => dec b.toNat := by
  let value (s : Bytes) : ℕ := s.foldl (fun n c => 10 * n + (c.toNat - 48)) 0
  have hvalue : ∀ b : UInt8, value (dec b.toNat) = b.toNat := by decide
  intro a b h
  have hab : dec a.toNat = dec b.toNat := h
  rw [← UInt8.toNat_inj, ← hvalue a, hab, hvalue]

/-- Two digits tell the byte. -/
theorem print_02x_injective : Function.Injective print_02x := by
  intro a b h
  simp only [print_02x, List.cons.injEq, and_true] at h
  have ha := append_char_from_hex_to_hex a
  rw [h.1, h.2, append_char_from_hex_to_hex] at ha
  exact (Option.some.inj ha).symm

/-- Parts that are printed one by one can be told apart when none has the delimiter. -/
theorem intercalate_injective {n : ℕ} [NeZero n] {print : UInt8 → Bytes} {delim : UInt8}
    (hprint : Function.Injective print) (hdelim : ∀ b, delim ∉ print b) :
    Function.Injective fun v : Vector UInt8 n => [delim].intercalate (v.toList.map print) := by
  have hsplit (v : Vector UInt8 n) :
      ([delim].intercalate (v.toList.map print)).splitOn delim = v.toList.map print := by
    refine List.splitOn_intercalate delim (fun l hl => ?_) fun hnil => ?_
    · obtain ⟨b, -, rfl⟩ := List.mem_map.mp hl
      exact hdelim b
    · have hlength := congrArg List.length hnil
      simp only [List.length_map, Vector.length_toList, List.length_nil] at hlength
      exact NeZero.ne n hlength
  intro v w h
  have hmaps : v.toList.map print = w.toList.map print := by
    rw [← hsplit v, ← hsplit w]
    exact congrArg (List.splitOn delim) h
  exact Vector.toList_inj.mp (List.map_injective_iff.mpr hprint hmaps)

/-- A printed address tells the address. -/
theorem inet_ntoa_injective : Function.Injective inet_ntoa := by
  apply intercalate_injective dec_injective
  intro b hmem
  exact absurd (isdigit_of_mem_dec hmem) (by decide)

/-- A printed hardware address tells the hardware address. -/
theorem print_hw_addr_injective : Function.Injective print_hw_addr := by
  apply intercalate_injective print_02x_injective
  intro b hmem
  rcases List.mem_pair.mp hmem with h | h
  · exact ne_of_isalnum (isalnum_to_hex _) (by decide) h.symm
  · exact ne_of_isalnum (isalnum_to_hex _) (by decide) h.symm

/-- A printed address fits the buffer. -/
theorem inet_ntoa_fits (addr : Vector UInt8 4) :
    (inet_ntoa addr).take (INET6_ADDRSTRLEN - 1) = inet_ntoa addr := by
  have hdec (b : UInt8) : (dec b.toNat).length ≤ 3 :=
    dec_length_le (by decide) (b.toNat_lt.trans (by decide))
  apply List.take_of_length_le
  obtain ⟨⟨bytes⟩, hlength⟩ := addr
  match bytes, hlength with
  | [a, b, c, d], _ =>
    have ha := hdec a
    have hb := hdec b
    have hc := hdec c
    have hd := hdec d
    have hfit : INET6_ADDRSTRLEN - 1 = 45 := rfl
    simp only [inet_ntoa, Vector.toList_mk, List.map_cons, List.map_nil,
      List.intercalate_cons_cons, List.intercalate_singleton, List.length_append,
      List.length_singleton, hfit]
    omega

/-- A printed hardware address has the length of the default. -/
theorem print_hw_addr_length (sa_data : Vector UInt8 6) : (print_hw_addr sa_data).length = 17 := by
  obtain ⟨⟨bytes⟩, hlength⟩ := sa_data
  match bytes, hlength with
  | [_, _, _, _, _, _], _ => rfl

/-- The default is the hardware address of zeros. -/
theorem default_hw_addr_eq : default_hw_addr = print_hw_addr (Vector.replicate 6 0) := rfl

/-! ## Entries -/

section Entries

variable (s : Ssdp)

/-- An entry with one of the two names. -/
def considers (entry : ifreq) : Bool :=
  entry.ifr_name = s.eth_interface || entry.ifr_name = s.wifi_interface

/-- An entry with one of the two names that is no loopback. -/
def usable (entry : ifreq) : Bool := considers s entry && !entry.loopback

/-- A usable entry with the name of the wired interface. -/
def wired (entry : ifreq) : Bool := entry.ifr_name = s.eth_interface && !entry.loopback

/-- The entry whose hardware address is returned: the first that is wired, or else the last that is
usable. -/
def chosen (table : List ifreq) : Option ifreq :=
  (table.find? (wired s)).or (table.filter (usable s)).getLast?

/-- The entry whose address is copied last. -/
def shown (table : List ifreq) : Option ifreq :=
  (table.find? (wired s)).or (table.filter (considers s)).getLast?

/-- A wired entry is usable. -/
theorem usable_of_wired {entry : ifreq} (h : wired s entry = true) : usable s entry = true := by
  simp only [wired, Bool.and_eq_true, decide_eq_true_eq] at h
  simp [usable, considers, h]

/-- One entry more in front of those that are looked through for the last. -/
theorem or_getLast?_cons_getD {α β : Type} (o : Option α) (g : α → β) (a : α) (l : List α) (d : β) :
    ((o.or (a :: l).getLast?).map g).getD d = ((o.or l.getLast?).map g).getD (g a) := by
  rw [List.getLast?_cons]
  cases o <;> cases l.getLast? <;> rfl

/-- One round of the loop. -/
theorem local_address_loop_cons (entry : ifreq) (table : List ifreq) (ip_addr hw_addr : Bytes) :
    local_address_loop s.eth_interface s.wifi_interface (entry :: table) (ip_addr, hw_addr) =
      if wired s entry then (inet_ntoa entry.ifr_addr, print_hw_addr entry.ifr_hwaddr)
      else if usable s entry then
        local_address_loop s.eth_interface s.wifi_interface table
          (inet_ntoa entry.ifr_addr, print_hw_addr entry.ifr_hwaddr)
      else if considers s entry then
        local_address_loop s.eth_interface s.wifi_interface table
          (inet_ntoa entry.ifr_addr, hw_addr)
      else local_address_loop s.eth_interface s.wifi_interface table (ip_addr, hw_addr) := by
  have hname (interface : InterfaceName) :
      strncmp_eq entry.ifr_name.text interface.text IFNAMSIZ =
        decide (entry.ifr_name = interface) :=
    Bool.eq_iff_iff.mpr (by rw [strncmp_eq_name, decide_eq_true_eq])
  rw [local_address_loop]
  simp only [hname, inet_ntoa_fits, wired, usable, considers]
  by_cases hloop : entry.loopback = true
  all_goals
    by_cases heth : entry.ifr_name = s.eth_interface
    · simp [hloop, heth]
    · by_cases hwlan : entry.ifr_name = s.wifi_interface <;> simp [hloop, heth, hwlan]

/-- What the loop leaves in the two variables. -/
theorem local_address_loop_eq (table : List ifreq) (ip_addr hw_addr : Bytes) :
    local_address_loop s.eth_interface s.wifi_interface table (ip_addr, hw_addr) =
      (((shown s table).map fun entry => inet_ntoa entry.ifr_addr).getD ip_addr,
        ((chosen s table).map fun entry => print_hw_addr entry.ifr_hwaddr).getD hw_addr) := by
  unfold shown chosen
  induction table generalizing ip_addr hw_addr with
  | nil => rfl
  | cons entry table ih =>
    rw [local_address_loop_cons]
    split_ifs with hwired husable hconsiders
    · -- The loop ends at a wired entry.
      rw [List.find?_cons_of_pos hwired]
      rfl
    · have hconsiders : considers s entry = true := by
        simp only [usable, Bool.and_eq_true] at husable
        exact husable.1
      rw [List.find?_cons_of_neg hwired, List.filter_cons_of_pos hconsiders,
        List.filter_cons_of_pos husable, or_getLast?_cons_getD, or_getLast?_cons_getD, ih]
    · rw [List.find?_cons_of_neg hwired, List.filter_cons_of_pos hconsiders,
        List.filter_cons_of_neg husable, or_getLast?_cons_getD, ih]
    · rw [List.find?_cons_of_neg hwired, List.filter_cons_of_neg hconsiders,
        List.filter_cons_of_neg husable, ih]

/-- What `get_local_address` returns, and the address it leaves. -/
theorem get_local_address_eq (table : List ifreq) : get_local_address table s =
    some (((chosen s table).map fun entry => print_hw_addr entry.ifr_hwaddr).getD default_hw_addr,
      [], { s with ip_addr :=
        ((shown s table).map fun entry => inet_ntoa entry.ifr_addr).getD s.ip_addr }) := by
  unfold get_local_address
  rw [read_bind_apply]
  simp only [id_eq, local_address_loop_eq]
  rfl

variable {s} {table : List ifreq}

/-- The entry that is used: it is usable, and wired if any is. -/
theorem of_chosen {entry : ifreq} (h : chosen s table = some entry) :
    entry ∈ table ∧ usable s entry = true ∧
      ((∃ w ∈ table, wired s w = true) → wired s entry = true) := by
  unfold chosen at h
  cases hfind : table.find? (wired s) with
  | some w =>
    rw [hfind, Option.some_or] at h
    obtain rfl := Option.some.inj h
    have hwired := List.find?_some hfind
    exact ⟨List.mem_of_find?_eq_some hfind, usable_of_wired s hwired, fun _ => hwired⟩
  | none =>
    rw [hfind, Option.none_or] at h
    obtain ⟨hmem, husable⟩ := List.mem_filter.mp (List.mem_of_getLast? h)
    refine ⟨hmem, husable, ?_⟩
    rintro ⟨w, hw, hwired⟩
    exact absurd hwired (List.find?_eq_none.mp hfind w hw)

/-- No entry is used only when none is usable. -/
theorem of_not_chosen (h : chosen s table = none) : ∀ entry ∈ table, usable s entry = false := by
  unfold chosen at h
  rw [Option.or_eq_none_iff, List.getLast?_eq_none_iff, List.filter_eq_nil_iff] at h
  exact fun entry hentry => Bool.not_eq_true _ ▸ h.2 entry hentry

/-- Where no entry is considered, none is used. -/
theorem not_chosen_of_not_shown (h : shown s table = none) : chosen s table = none := by
  unfold shown at h
  unfold chosen
  rw [Option.or_eq_none_iff, List.getLast?_eq_none_iff, List.filter_eq_nil_iff] at h ⊢
  refine ⟨h.1, fun entry hentry husable => h.2 entry hentry ?_⟩
  simp only [usable, Bool.and_eq_true] at husable
  exact husable.1

/-- The entry that is shown is used when it is no loopback, and otherwise none is wired. -/
theorem of_shown {entry : ifreq} (h : shown s table = some entry) :
    (entry.loopback = false → chosen s table = some entry) ∧
      (entry.loopback = true → ∀ w ∈ table, wired s w = false) := by
  unfold shown at h
  unfold chosen
  cases hfind : table.find? (wired s) with
  | some w =>
    rw [hfind, Option.some_or] at h
    obtain rfl := Option.some.inj h
    refine ⟨fun _ => rfl, fun hloop => ?_⟩
    have hwired := List.find?_some hfind
    simp [wired, hloop] at hwired
  | none =>
    rw [hfind, Option.none_or] at h
    constructor
    · intro hloop
      rw [Option.none_or]
      -- The last entry that is considered is the last that is usable.
      obtain ⟨before, hbefore⟩ := List.getLast?_eq_some_iff.mp h
      have hmem : entry ∈ table.filter (considers s) := by
        rw [hbefore]
        simp
      have husable : usable s entry = true := by
        simp [usable, (List.mem_filter.mp hmem).2, hloop]
      have hfilter : table.filter (usable s) =
          (table.filter (considers s)).filter fun entry => !entry.loopback := by
        rw [List.filter_filter]
        congr 1
        funext entry
        rw [usable, Bool.and_comm]
      rw [hfilter, hbefore, List.filter_append]
      simp [hloop]
    · exact fun _ w hw => Bool.not_eq_true _ ▸ List.find?_eq_none.mp hfind w hw

end Entries

/-! ## All or nothing -/

/-- What is to hold when `get_local_address` has returned `hw_addr`: no entry is usable and nothing
has changed, or the address and the hardware address are those of one usable entry, which is wired
if any is. -/
def FromOneEntry (s : Ssdp) (table : List ifreq) (hw_addr : Bytes) (t : Ssdp) : Prop :=
  ((∀ entry ∈ table, usable s entry = false) ∧ t.ip_addr = s.ip_addr ∧
      hw_addr = default_hw_addr) ∨
    ∃ entry ∈ table, usable s entry = true ∧ t.ip_addr = inet_ntoa entry.ifr_addr ∧
      hw_addr = print_hw_addr entry.ifr_hwaddr ∧
      ((∃ w ∈ table, wired s w = true) → wired s entry = true)

/-- An address that is looked up is that of one entry with its hardware address, and a change that
is given up, which is one without a call for the socket, leaves everything as it was. -/
def ChangeAllOrNothing (s : Ssdp) (table : List ifreq) : Prop :=
  (∃ hw_addr t, get_local_address table s = some (hw_addr, [], t) ∧
      FromOneEntry s table hw_addr t) ∧
    ∀ inet_addr setsockopt t,
      addNewIpToMulticast inet_addr setsockopt table s = some ((), [], t) →
        t.ip_addr = s.ip_addr ∧ t.wakeup_buf = s.wakeup_buf ∧ t.mreq = s.mreq

/-- Where the address of a loopback entry is shown, it makes no difference: it is the address from
before when no entry is used, and otherwise that of a usable entry with the hardware address of the
one that is used. -/
def LoopbackHarmless (s : Ssdp) (table : List ifreq) : Prop :=
  ∀ entry, shown s table = some entry → entry.loopback = true →
    (chosen s table = none → inet_ntoa entry.ifr_addr = s.ip_addr) ∧
      ∀ used, chosen s table = some used → ∃ other ∈ table, usable s other = true ∧
        other.ifr_addr = entry.ifr_addr ∧ other.ifr_hwaddr = used.ifr_hwaddr

/-- Where the hardware address that is used has only zeros, the address that is shown is the one
from before. -/
def ZerosHarmless (s : Ssdp) (table : List ifreq) : Prop :=
  ∀ used, chosen s table = some used → used.ifr_hwaddr = Vector.replicate 6 0 →
    ∀ entry, shown s table = some entry → inet_ntoa entry.ifr_addr = s.ip_addr

/-- The default is told from the hardware addresses of entries. -/
theorem is_default_iff {sa_data : Vector UInt8 6} :
    strncmp_eq (print_hw_addr sa_data) default_hw_addr HW_ADDRSTRLEN = true ↔
      sa_data = Vector.replicate 6 0 := by
  have hfits : (17 : ℕ) ≤ HW_ADDRSTRLEN := by decide
  rw [default_hw_addr_eq, strncmp_eq_iff, List.take_of_length_le, List.take_of_length_le]
  · exact print_hw_addr_injective.eq_iff
  · rw [print_hw_addr_length]
    exact hfits
  · rw [print_hw_addr_length]
    exact hfits

/-- A change is given up exactly when `get_local_address` returns the default, and then that call is
all that happens. -/
theorem addNewIpToMulticast_given_up {inet_addr : Bytes → Vector UInt8 4}
    {setsockopt : Membership → Bool} {table : List ifreq} {s t t' : Ssdp} {hw_addr : Bytes}
    (hlocal : get_local_address table s = some (hw_addr, [], t)) :
    addNewIpToMulticast inet_addr setsockopt table s = some ((), [], t') ↔
      strncmp_eq hw_addr default_hw_addr HW_ADDRSTRLEN = true ∧ t' = t := by
  unfold addNewIpToMulticast
  rw [bind_of_some hlocal]
  by_cases hdefault : strncmp_eq hw_addr default_hw_addr HW_ADDRSTRLEN = true
  · simp [hdefault, eq_comm]
  · -- Otherwise the first thing that is seen of the change is that the old group is left.
    simp only [hdefault, Bool.false_eq_true, if_false, false_and, iff_false]
    intro hrun
    obtain ⟨⟨⟨⟩, e, u⟩, hrun, heq⟩ := Option.map_eq_some_iff.mp hrun
    obtain rfl : e = [] := (Prod.mk.inj (Prod.mk.inj heq).2).1
    obtain ⟨⟨⟩, e₁, u, e₂, -, hrun, he⟩ := bind_eq_some.mp hrun
    obtain ⟨mreq, e₃, u, e₄, -, hrun, he'⟩ := bind_eq_some.mp hrun
    obtain ⟨⟨⟩, e₅, u, e₆, hemit, -, he''⟩ := bind_eq_some.mp hrun
    simp only [emit_apply, Option.some.injEq, Prod.mk.injEq, true_and] at hemit
    rw [he'', ← hemit.1] at he'
    rw [he'] at he
    simp at he

/-- **One interface, all or nothing.** For every table and every state before, the address and the
hardware address are those of one usable entry, or nothing has changed, and a change that is given
up leaves no trace, if and only if no loopback entry and no hardware address of zeros does harm. -/
theorem all_or_nothing_iff (s : Ssdp) (table : List ifreq) :
    ChangeAllOrNothing s table ↔ LoopbackHarmless s table ∧ ZerosHarmless s table := by
  have hlocal := get_local_address_eq s table
  constructor
  · rintro ⟨⟨hw_addr, t, hrun, hone⟩, hgiven⟩
    rw [hlocal, Option.some.injEq, Prod.mk.injEq, Prod.mk.injEq] at hrun
    obtain ⟨rfl, -, rfl⟩ := hrun
    constructor
    · intro entry hshown hloop
      simp only [FromOneEntry, hshown, Option.map_some, Option.getD_some] at hone
      constructor
      · intro hchosen
        rcases hone with ⟨-, hip, -⟩ | ⟨other, hother, husable, -⟩
        · exact hip
        · exact absurd husable (by simp [of_not_chosen hchosen other hother])
      · intro used hchosen
        obtain ⟨hused, husable, -⟩ := of_chosen hchosen
        rw [hchosen, Option.map_some, Option.getD_some] at hone
        rcases hone with ⟨hnone, -⟩ | ⟨other, hother, husable', hip, hhw, -⟩
        · exact absurd husable (by simp [hnone used hused])
        · exact ⟨other, hother, husable', (inet_ntoa_injective hip).symm,
            (print_hw_addr_injective hhw).symm⟩
    · intro used hchosen hzeros entry hshown
      simp only [hchosen, hshown, Option.map_some, Option.getD_some] at hlocal
      have hrun := (@addNewIpToMulticast_given_up (fun _ => Vector.replicate 4 0) (fun _ => true)
        table s _ _ _ hlocal).mpr ⟨is_default_iff.mpr hzeros, rfl⟩
      exact (hgiven _ _ _ hrun).1
  · rintro ⟨hloopback, hzeros⟩
    refine ⟨⟨_, _, hlocal, ?_⟩, fun inet_addr setsockopt t hrun => ?_⟩
    · cases hshown : shown s table with
      | none =>
        have hchosen := not_chosen_of_not_shown hshown
        exact .inl ⟨of_not_chosen hchosen, rfl, by rw [hchosen]; rfl⟩
      | some entry =>
        obtain ⟨hsame, hunwired⟩ := of_shown hshown
        simp only [FromOneEntry, Option.map_some, Option.getD_some]
        by_cases hloop : entry.loopback = true
        · obtain ⟨hold, hother⟩ := hloopback entry hshown hloop
          cases hchosen : chosen s table with
          | none => exact .inl ⟨of_not_chosen hchosen, hold hchosen, rfl⟩
          | some used =>
            obtain ⟨other, hmem, husable, haddr, hhw⟩ := hother used hchosen
            refine .inr ⟨other, hmem, husable, by rw [haddr], by rw [hhw]; rfl, ?_⟩
            rintro ⟨w, hw, hwired⟩
            exact absurd hwired (by simp [hunwired hloop w hw])
        · have hchosen := hsame (Bool.not_eq_true _ ▸ hloop)
          obtain ⟨hmem, husable, hwired⟩ := of_chosen hchosen
          exact .inr ⟨entry, hmem, husable, rfl, by rw [hchosen]; rfl, hwired⟩
    · obtain ⟨hgiven, rfl⟩ := (addNewIpToMulticast_given_up hlocal).mp hrun
      refine ⟨?_, rfl, rfl⟩
      cases hshown : shown s table with
      | none => rfl
      | some entry =>
        rw [Option.map_some, Option.getD_some]
        cases hchosen : chosen s table with
        | none =>
          have hloop : entry.loopback = true := by
            by_contra hloop
            rw [(of_shown hshown).1 (Bool.not_eq_true _ ▸ hloop)] at hchosen
            exact absurd hchosen (by simp)
          exact (hloopback entry hshown hloop).1 hchosen
        | some used =>
          rw [hchosen, Option.map_some, Option.getD_some] at hgiven
          exact hzeros used hchosen (is_default_iff.mp hgiven) entry hshown

/-- A responder at an address from before, whose wired interface is set to `lo`. -/
def old_ssdp : Ssdp where
  ip_addr := bytes "10.0.0.2"
  wakeup_buf := []
  mreq := ⟨Vector.replicate 4 0, Vector.replicate 4 0⟩
  wakeOnWifiLan := true
  eth_interface := ⟨bytes "lo", by decide, by decide⟩
  wifi_interface := ⟨bytes "wlan0", by decide, by decide⟩

/-- A wireless entry. -/
def wlan_entry (ifr_hwaddr : Vector UInt8 6) : ifreq :=
  ⟨old_ssdp.wifi_interface, #v[192, 168, 1, 5], false, ifr_hwaddr⟩

/-- The loopback entry. -/
def lo_entry : ifreq := ⟨old_ssdp.eth_interface, #v[127, 0, 0, 1], true, Vector.replicate 6 0⟩

/-- A loopback entry behind the one that is used leaves its own address, and a wireless entry
without a hardware address leaves its address where the change is given up. -/
theorem address_of_other_entry :
    ¬ChangeAllOrNothing old_ssdp [wlan_entry #v[2, 0, 0, 0, 0, 1], lo_entry] ∧
      ¬ChangeAllOrNothing old_ssdp [wlan_entry (Vector.replicate 6 0)] := by
  constructor
  · rintro ⟨⟨hw_addr, t, hrun, hone⟩, -⟩
    have hshown : get_local_address [wlan_entry #v[2, 0, 0, 0, 0, 1], lo_entry] old_ssdp =
        some (bytes "02:00:00:00:00:01", [], { old_ssdp with ip_addr := bytes "127.0.0.1" }) := by
      decide
    rw [hshown, Option.some.injEq, Prod.mk.injEq, Prod.mk.injEq] at hrun
    obtain ⟨rfl, -, rfl⟩ := hrun
    revert hone
    unfold FromOneEntry
    decide
  · rintro ⟨-, hgiven⟩
    have hrun : addNewIpToMulticast (fun _ => Vector.replicate 4 0) (fun _ => true)
        [wlan_entry (Vector.replicate 6 0)] old_ssdp =
          some ((), [], { old_ssdp with ip_addr := bytes "192.168.1.5" }) := by
      decide
    exact absurd (hgiven _ _ _ hrun).1 (by decide)

end DialServer
