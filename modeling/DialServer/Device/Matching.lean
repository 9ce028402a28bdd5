import DialServer.Device.Calls

/-!
# The current application

The entry that `matchAppInfo` makes the current one. It looks for a name from the head of the list
on, unless the current entry has the name already, so that it finds the first entry of the name, if
the current entry is the first of its own name. That is so at first, when there is no current entry,
and the callbacks keep it so (`CacheValid`).
-/

namespace DialServer

open CLib Program

/-- The position of the first entry of a name. -/
def first_entry (entries : List appInfo) (name : Bytes) : Option ℕ :=
  entries.findIdx? fun entry => entry.name = some name

/-- The entries have names. -/
def AllNamed (entries : List appInfo) : Prop := ∀ entry ∈ entries, entry.name ≠ none

/-- The list is this one, and the current entry is the first of its name. -/
structure CacheValid (entries : List appInfo) (d : Device) : Prop where
  list : d.appInfoList = some ⟨entries, none⟩
  first : ∀ pos, d.curAppForDial = some pos → ∃ name, first_entry entries name = some pos

/-- Without a current entry there is nothing to check. -/
theorem CacheValid.start {entries : List appInfo} {d : Device}
    (hlist : d.appInfoList = some ⟨entries, none⟩) (hcurrent : d.curAppForDial = none) :
    CacheValid entries d :=
  ⟨hlist, fun pos hpos => absurd (hcurrent.symm.trans hpos) (by simp)⟩

/-- Whether the cache is valid depends on the configuration alone. -/
theorem CacheValid.of_config {entries : List appInfo} {d d' : Device} (h : CacheValid entries d)
    (hconfig : d'.config = d.config) : CacheValid entries d' := by
  obtain ⟨hlist, hpos, -⟩ : d'.appInfoList = d.appInfoList ∧
      d'.curAppForDial = d.curAppForDial ∧ d'._passivemode = d._passivemode := by
    simpa [Device.config] using hconfig
  exact ⟨hlist.trans h.list, fun pos hcurrent => h.first pos (hpos.symm.trans hcurrent)⟩

/-- The first entry of a name has the name, and no entry before it does. -/
theorem first_entry_eq_some {entries : List appInfo} {name : Bytes} {pos : ℕ} :
    first_entry entries name = some pos ↔
      (∃ entry, entries[pos]? = some entry ∧ entry.name = some name) ∧
        ∀ i < pos, ∀ other, entries[i]? = some other → other.name ≠ some name := by
  unfold first_entry
  rw [List.findIdx?_eq_some_iff_getElem]
  constructor
  · rintro ⟨hlt, hname, hbefore⟩
    refine ⟨⟨entries[pos], List.getElem?_eq_getElem hlt, by simpa using hname⟩, ?_⟩
    intro i hi other hother
    obtain ⟨hi', rfl⟩ := List.getElem?_eq_some_iff.mp hother
    simpa using hbefore i hi
  · rintro ⟨⟨entry, hentry, hname⟩, hbefore⟩
    obtain ⟨hlt, rfl⟩ := List.getElem?_eq_some_iff.mp hentry
    refine ⟨hlt, by simpa using hname, fun i hi => ?_⟩
    simpa using hbefore i hi _ (List.getElem?_eq_getElem (hi.trans hlt))

section Match

variable {entries : List appInfo} {appname : Bytes} {d d' : Device}

/-- The loop stops at the first entry of the name. -/
theorem match_loop_eq (hnamed : AllNamed entries) (pos : ℕ) (d : Device) :
    match_loop appname none entries pos d = some ((), [], match first_entry entries appname with
      | some i => { d with curAppForDial := some (pos + i) }
      | none => d) := by
  induction entries generalizing pos with
  | nil => rfl
  | cons temp entries ih =>
    obtain ⟨htemp, hentries⟩ := List.forall_mem_cons.mp hnamed
    obtain ⟨name, hname⟩ := Option.ne_none_iff_exists'.mp htemp
    unfold match_loop first_entry
    rw [hname, deref_some, ret_bind, List.findIdx?_cons]
    by_cases heq : name = appname
    · simp [heq, hname]
    · have hne : (some name : Option Bytes) ≠ some appname := fun h => heq (Option.some.inj h)
      rw [if_neg heq, ih hentries]
      simp only [hname, hne, decide_false, Bool.false_eq_true, if_false]
      unfold first_entry
      cases entries.findIdx? fun entry => entry.name = some appname with
      | none => rfl
      | some i => simp [Nat.add_comm, Nat.add_left_comm]

/-- Whether or not all entries have names, a loop that returns has stopped there. -/
theorem match_loop_eq_some {pos : ℕ} {e : List (ManagerCall × Reply)}
    (h : match_loop appname none entries pos d = some ((), e, d')) :
    e = [] ∧ d' = match first_entry entries appname with
      | some i => { d with curAppForDial := some (pos + i) }
      | none => d := by
  induction entries generalizing pos with
  | nil =>
    simp only [match_loop, if_true, pure_apply, Option.some.injEq, Prod.mk.injEq, true_and] at h
    exact ⟨h.1.symm, h.2.symm⟩
  | cons temp entries ih =>
    unfold match_loop at h
    obtain ⟨name, e₁, t, e₂, hderef, hrest, rfl⟩ := bind_eq_some.mp h
    obtain ⟨hname, rfl, rfl⟩ := deref_eq_some.mp hderef
    unfold first_entry
    rw [List.findIdx?_cons, hname]
    split_ifs at hrest with heq
    · simp only [modify_apply, Option.some.injEq, Prod.mk.injEq, true_and] at hrest
      obtain ⟨rfl, rfl⟩ := hrest
      simp [heq]
    · have hne : (some name : Option Bytes) ≠ some appname := fun h => heq (Option.some.inj h)
      obtain ⟨rfl, rfl⟩ := ih hrest
      simp only [hne, decide_false, Bool.false_eq_true, if_false]
      unfold first_entry
      cases entries.findIdx? fun entry => entry.name = some appname with
      | none => simp
      | some i => simp [Nat.add_comm, Nat.add_left_comm]

/-- The test of the current entry, when there is one. -/
theorem is_current_eq (hvalid : CacheValid entries d) :
    ∃ b, is_current appname d = some (b, [], d) ∧
      (b = true → ∃ pos, d.curAppForDial = some pos ∧ first_entry entries appname = some pos) := by
  unfold is_current
  rw [read_bind_apply]
  cases hcurrent : d.curAppForDial with
  | none => exact ⟨false, rfl, by simp⟩
  | some pos =>
    obtain ⟨name, hfirst⟩ := hvalid.first pos hcurrent
    obtain ⟨⟨entry, hentry, hname⟩, -⟩ := first_entry_eq_some.mp hfirst
    have hget : get_entry pos d = some (entry, [], d) :=
      get_entry_eq_some.mpr ⟨⟨_, hvalid.list, hentry⟩, rfl, rfl⟩
    simp only
    rw [bind_of_some hget, hname]
    refine ⟨decide (name = appname), rfl, fun h => ⟨pos, rfl, ?_⟩⟩
    rw [← of_decide_eq_true h]
    exact hfirst

/-- With a valid cache the entry that is found is the first of its name, and there is no other
effect. -/
theorem matchAppInfo_eq (hvalid : CacheValid entries d) (hnamed : AllNamed entries) :
    matchAppInfo appname d = some ((), [], match first_entry entries appname with
      | some pos => { d with curAppForDial := some pos }
      | none => d) := by
  obtain ⟨b, hb, hcached⟩ := @is_current_eq entries appname d hvalid
  unfold matchAppInfo
  rw [bind_of_some hb]
  cases b with
  | true =>
    obtain ⟨pos, hpos, hfirst⟩ := hcached rfl
    simp only [if_true, hfirst, pure_apply, Option.map_some, List.append_nil]
    rw [← hpos]
  | false =>
    have hlist : get_list d = some (⟨entries, none⟩, [], d) := by
      unfold get_list
      rw [read_bind_apply, hvalid.list]
      rfl
    simp only [Bool.false_eq_true, if_false]
    rw [bind_of_some hlist]
    simp only [match_loop_eq hnamed, Option.map_some, List.nil_append, Nat.zero_add]

/-- That is so whenever it returns. -/
theorem matchAppInfo_eq_some (hvalid : CacheValid entries d) {e : List (ManagerCall × Reply)}
    (h : matchAppInfo appname d = some ((), e, d')) :
    e = [] ∧ d' = match first_entry entries appname with
      | some pos => { d with curAppForDial := some pos }
      | none => d := by
  obtain ⟨b, hb, hcached⟩ := @is_current_eq entries appname d hvalid
  unfold matchAppInfo at h
  rw [bind_of_some hb] at h
  cases b with
  | true =>
    obtain ⟨pos, hpos, hfirst⟩ := hcached rfl
    simp only [if_true, pure_apply, Option.map_some, List.append_nil, Option.some.injEq,
      Prod.mk.injEq, true_and] at h
    obtain ⟨rfl, rfl⟩ := h
    rw [hfirst]
    simp only [← hpos, true_and]
  | false =>
    have hlist : get_list d = some (⟨entries, none⟩, [], d) := by
      unfold get_list
      rw [read_bind_apply, hvalid.list]
      rfl
    simp only [Bool.false_eq_true, if_false] at h
    rw [bind_of_some hlist] at h
    have hloop := @match_loop_eq_some entries appname d d' 0 e (by simpa using h)
    simpa only [Nat.zero_add] using hloop

/-- The cache stays valid. -/
theorem CacheValid.matched (hvalid : CacheValid entries d)
    {e : List (ManagerCall × Reply)} (h : matchAppInfo appname d = some ((), e, d')) :
    CacheValid entries d' := by
  obtain ⟨-, rfl⟩ := matchAppInfo_eq_some hvalid h
  cases hfirst : first_entry entries appname with
  | none => exact hvalid
  | some pos => exact ⟨hvalid.list, fun pos' hpos => ⟨appname, hfirst.trans hpos⟩⟩

end Match

end DialServer
