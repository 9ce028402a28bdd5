import DialServer.Source.System

/-!
# The password of the sleep action

`system_start` builds the text that a request with the configured password has behind its first `&`,
and then compares the request with another text, in which the password is `TEST`. So what passes is
every key that begins with `TEST`, whatever the password is.
-/

namespace DialServer

open CLib Program DIALStatus

/-- A query gets past the check of the key. -/
def PassesKeyCheck (spSleepPassword query_string : Bytes) : Prop :=
  ∃ status e t, system_start spSleepPassword (some query_string) = some (status, e, t) ∧
    status ≠ kDIALStatusErrorUnauth ∧ status ≠ kDIALStatusErrorForbidden

/-- A query with a sleep action and a key. -/
def sleep_query (key : Bytes) : Bytes := bytes "action=sleep" ++ chr '&' :: (bytes "key=" ++ key)

/-- A query has a parameter of the name `key`. -/
def HasKey (query_string : Bytes) : Prop :=
  ∃ token ∈ query_string.splitOn (chr '&'), bytes "key=" <+: token

/-- What `system_start` does with a sleep action and a password. -/
theorem system_start_sleep {spSleepPassword query_string : Bytes} (hpassword : spSleepPassword ≠ [])
    (haction : bytes "action=sleep" <+: query_string) :
    (strchr query_string (chr '&') = none →
        system_start spSleepPassword (some query_string) =
          some (kDIALStatusErrorForbidden, [], some query_string)) ∧
      ∀ key_value, strchr query_string (chr '&') = some key_value →
        ∃ e t, system_start spSleepPassword (some query_string) =
          some (if bytes "key=TEST" <+: key_value.drop 1 then kDIALStatusErrorNotImplemented
            else kDIALStatusErrorUnauth, e, t) := by
  have hsleep : strncmp_eq query_string (bytes "action=sleep") (bytes "action=sleep").length =
      true :=
    strncmp_eq_length.mpr haction
  have hlength : spSleepPassword.length ≠ 0 := by
    rwa [ne_eq, List.length_eq_zero_iff]
  unfold system_start
  constructor
  · intro hkey
    rw [read_bind_apply]
    simp only [id_eq, hsleep, Bool.not_true, Bool.false_eq_true, if_false, hlength, ne_eq,
      not_false_eq_true, if_true, hkey]
    rfl
  · intro key_value hkey
    rw [read_bind_apply]
    simp only [id_eq, hsleep, Bool.not_true, Bool.false_eq_true, if_false, hlength, ne_eq,
      not_false_eq_true, if_true, hkey]
    rw [bind_of_some (modify_apply _ _), bind_of_some (emit_apply _ _)]
    have htest : strncmp_eq (key_value.drop 1) (bytes "key=TEST") (bytes "key=TEST").length =
        decide (bytes "key=TEST" <+: key_value.drop 1) :=
      Bool.eq_iff_iff.mpr (by rw [strncmp_eq_length, decide_eq_true_eq])
    rw [htest]
    by_cases h : bytes "key=TEST" <+: key_value.drop 1
    · rw [decide_eq_true h, if_pos h]
      exact ⟨_, _, rfl⟩
    · rw [decide_eq_false h, if_neg h]
      exact ⟨_, _, rfl⟩

/-- With a password, a sleep action passes when `key=TEST` follows its first `&`. -/
theorem passesKeyCheck_iff {spSleepPassword query_string : Bytes} (hpassword : spSleepPassword ≠ [])
    (haction : bytes "action=sleep" <+: query_string) :
    PassesKeyCheck spSleepPassword query_string ↔
      ∃ key_value, strchr query_string (chr '&') = some key_value ∧
        bytes "key=TEST" <+: key_value.drop 1 := by
  obtain ⟨hnone, hsome⟩ := system_start_sleep hpassword haction
  unfold PassesKeyCheck
  cases hkey : strchr query_string (chr '&') with
  | none =>
    rw [hnone hkey]
    simp
  | some key_value =>
    obtain ⟨e, t, hrun⟩ := hsome key_value hkey
    rw [hrun]
    by_cases htest : bytes "key=TEST" <+: key_value.drop 1
    · simp [htest, -List.drop_one]
    · simp [htest, -List.drop_one]

/-- A query with a key passes when the key begins with `TEST`. -/
theorem passesKeyCheck_sleep_query {spSleepPassword : Bytes} (hpassword : spSleepPassword ≠ [])
    (key : Bytes) :
    PassesKeyCheck spSleepPassword (sleep_query key) ↔ bytes "TEST" <+: key := by
  have hchr : strchr (sleep_query key) (chr '&') = some (chr '&' :: (bytes "key=" ++ key)) :=
    strchr_append (by decide) _
  have htest : bytes "key=TEST" <+: bytes "key=" ++ key ↔ bytes "TEST" <+: key :=
    List.prefix_append_right_inj (bytes "key=")
  have haction : bytes "action=sleep" <+: sleep_query key := List.prefix_append _ _
  rw [passesKeyCheck_iff hpassword haction, hchr]
  simp only [Option.some.injEq, exists_eq_left', List.drop_one, List.tail_cons, htest]

/-- A prefix without the delimiter is a prefix of the first piece. -/
theorem exists_mem_splitOn {p s : Bytes} {c : UInt8} (hp : c ∉ p) (h : p <+: s) :
    ∃ t ∈ s.splitOn c, p <+: t := by
  obtain ⟨r, rfl⟩ := h
  by_cases hr : c ∈ r
  · obtain ⟨v, w, rfl, hv⟩ := List.eq_append_cons_of_mem hr
    have hpv : c ∉ p ++ v := by
      rw [List.mem_append, not_or]
      exact ⟨hp, hv⟩
    refine ⟨p ++ v, ?_, List.prefix_append _ _⟩
    rw [← List.append_assoc, List.splitOn_append_cons_self_of_not_mem hpv]
    exact List.mem_cons_self ..
  · have hpr : c ∉ p ++ r := by
      rw [List.mem_append, not_or]
      exact ⟨hp, hr⟩
    rw [List.splitOn_eq_singleton hpr]
    exact ⟨p ++ r, List.mem_singleton_self _, List.prefix_append _ _⟩

/-- What passes has a key. -/
theorem hasKey_of_passes {spSleepPassword query_string : Bytes} (hpassword : spSleepPassword ≠ [])
    (haction : bytes "action=sleep" <+: query_string)
    (h : PassesKeyCheck spSleepPassword query_string) : HasKey query_string := by
  obtain ⟨key_value, hchr, htest⟩ := (passesKeyCheck_iff hpassword haction).mp h
  obtain ⟨before, rest, rfl, hbefore, rfl⟩ := strchr_eq_some.mp hchr
  rw [List.drop_one, List.tail_cons] at htest
  have hkey : bytes "key=" <+: rest := List.IsPrefix.trans ⟨bytes "TEST", rfl⟩ htest
  have hamp : chr '&' ∉ bytes "key=" := by decide
  obtain ⟨token, htoken, hstart⟩ := exists_mem_splitOn hamp hkey
  refine ⟨token, ?_, hstart⟩
  rw [List.splitOn_append_cons_self]
  exact List.mem_append_right _ htoken

/-- **The check of the key.** Whether a sleep action with a key passes if and only if the key is the
password depends on `TEST`: it does for the password itself when it begins so, and for another key
when that does not. Without a key no sleep action passes. -/
theorem key_check_iff {spSleepPassword : Bytes} (hpassword : spSleepPassword ≠ []) :
    (∀ key, (PassesKeyCheck spSleepPassword (sleep_query key) ↔ key = spSleepPassword) ↔
        (key = spSleepPassword ∧ bytes "TEST" <+: key) ∨
          (key ≠ spSleepPassword ∧ ¬bytes "TEST" <+: key)) ∧
      ∀ query_string, bytes "action=sleep" <+: query_string → ¬HasKey query_string →
        ¬PassesKeyCheck spSleepPassword query_string := by
  constructor
  · intro key
    rw [passesKeyCheck_sleep_query hpassword]
    by_cases hkey : key = spSleepPassword
    · simp only [hkey, iff_true, true_and, ne_eq, not_true_eq_false, false_and, or_false]
    · simp only [hkey, iff_false, false_and, ne_eq, not_false_eq_true, true_and, false_or]
  · exact fun query_string haction hkey h => hkey (hasKey_of_passes hpassword haction h)

/-- A password that begins with `TEST`, and a key that does not. -/
theorem test_password_checked :
    PassesKeyCheck (bytes "TEST1") (sleep_query (bytes "TEST1")) ∧
      ¬PassesKeyCheck (bytes "TEST1") (sleep_query (bytes "1")) ∧
      ¬PassesKeyCheck (bytes "TEST1") (bytes "action=sleep&delay=1") := by
  have hpassword : bytes "TEST1" ≠ [] := by decide
  obtain ⟨hkeys, hnone⟩ := key_check_iff hpassword
  refine ⟨?_, fun h => ?_, ?_⟩
  · exact ((hkeys (bytes "TEST1")).mpr (.inl (by decide))).mpr rfl
  · have hkey := ((hkeys (bytes "1")).mpr (.inr (by decide))).mp h
    exact absurd hkey (by decide)
  · refine hnone _ (by decide) ?_
    unfold HasKey
    decide

/-- Whatever the password is, a key gets a wrong answer: `TEST` passes, and so does `TEST1`. -/
theorem no_password_checked {spSleepPassword : Bytes} (hpassword : spSleepPassword ≠ []) :
    ∃ key, chr '&' ∉ key ∧
      ¬(PassesKeyCheck spSleepPassword (sleep_query key) ↔ key = spSleepPassword) := by
  by_cases h : spSleepPassword = bytes "TEST"
  · refine ⟨bytes "TEST1", by decide, ?_⟩
    rw [passesKeyCheck_sleep_query hpassword, h]
    decide
  · refine ⟨bytes "TEST", by decide, ?_⟩
    rw [passesKeyCheck_sleep_query hpassword]
    exact fun hiff => h (hiff.mp (List.prefix_refl _)).symm

/-- With another password, the key `TEST` passes and the password does not. -/
theorem test_key_passes :
    PassesKeyCheck (bytes "secret") (sleep_query (bytes "TEST")) ∧
      ¬PassesKeyCheck (bytes "secret") (sleep_query (bytes "secret")) := by
  have hpassword : bytes "secret" ≠ [] := by decide
  rw [passesKeyCheck_sleep_query hpassword, passesKeyCheck_sleep_query hpassword]
  decide

end DialServer
