import Ipxe.Interface.TargetAuthentication
import Mathlib.Data.List.TakeWhile

/-!
# iSCSI text keys

Which handler is run for a string of a login response.  The key is compared with the known ones
up to its own length only, so that the beginning of a known key is taken for it.
-/

namespace Ipxe.Analysis

open Model Interface List

variable (string : Bytes)

/-- What stands behind the `=` of a string. -/
def stringValue : Bytes := (string.dropWhile (· ≠ 0x3d)).tail

/-- The entry of the table whose handler is run for a string, if there is one. -/
def iscsiStringType : Option (Bytes × IscsiHandler) :=
  if 0x3d ∉ string ∨ stringValue string = ascii "Reject" then none
  else iscsiStringTypes.find? fun type => stringKey string <+: type.1

variable (env : IscsiEnv) (iscsi : IscsiSession)

/-- What that handler does with the value, or the result of a string without a handler. -/
def runHandler (string : Bytes) : Except Errno Unit × IscsiSession :=
  match iscsiStringType string with
  | some type =>
    type.2 env (env.oracle iscsi.turn) { iscsi with turn := iscsi.turn + 1 } (stringValue string)
  | none =>
    (if 0x3d ∉ string then .error .eprotoInvalidKeyValuePair
      else if stringValue string = ascii "Reject" then .error .eprotoValueRejected
      else .ok (), iscsi)

theorem iscsiHandleString_eq (string : Bytes) :
    iscsiHandleString env iscsi string = runHandler env iscsi string := by
  unfold runHandler
  by_cases hmem : 0x3d ∈ string
  · obtain ⟨key, value, rfl, hkey⟩ := eq_append_cons_of_mem hmem
    have hpos : ∀ x ∈ key, decide (x ≠ 0x3d) = true := fun x hx =>
      decide_eq_true (ne_of_mem_of_not_mem hx hkey)
    have hstringKey : stringKey (key ++ 0x3d :: value) = key := by
      rw [stringKey, takeWhile_append_of_pos hpos]; simp
    have hstringValue : stringValue (key ++ 0x3d :: value) = value := by
      rw [stringValue, dropWhile_append_of_pos hpos]; simp
    have htake : ∀ type : Bytes × IscsiHandler,
        (key = type.1.take key.length) = (key <+: type.1) := fun type =>
      propext prefix_iff_eq_take.symm
    rw [iscsiHandleString, strchr_iff.2 ⟨key, value, rfl, hkey, rfl⟩]
    simp only [tail_cons, length_append, length_cons, Nat.add_sub_cancel, take_left', htake,
      iscsiStringType, hmem, not_true_eq_false, false_or, hstringKey, hstringValue, if_false]
    split_ifs with hreject
    · rfl
    · cases iscsiStringTypes.find? fun type => decide (key <+: type.1) <;> rfl
  · have hnone : strchr string 0x3d = none := by
      cases hstrchr : strchr string 0x3d with
      | none => rfl
      | some separator =>
        obtain ⟨key, value, rfl, -⟩ := strchr_iff.1 hstrchr
        exact absurd (by simp) hmem
    rw [iscsiHandleString, hnone, iscsiStringType, if_pos (.inl hmem)]
    exact congrArg (·, iscsi) (if_pos hmem).symm

/-- The strings in a buffer are handled in turn, up to the first one that fails. -/
def handleInTurn (env : IscsiEnv) : IscsiSession → List Bytes → Except Errno Unit × IscsiSession
  | iscsi, [] => (.ok (), iscsi)
  | iscsi, string :: strings =>
    match runHandler env iscsi string with
    | (.error rc, iscsi) => (.error rc, iscsi)
    | (.ok (), iscsi) => handleInTurn env iscsi strings

theorem loginStrings_nil {data : Bytes} (h : 0 ∉ data) : loginStrings data = [] := by
  rw [loginStrings, splitOn,
    splitOnP_eq_singleton fun x hx => beq_false_of_ne (ne_of_mem_of_not_mem hx h)]
  rfl

theorem loginStrings_cons {string : Bytes} (h : 0 ∉ string) (rest : Bytes) :
    loginStrings (string ++ 0 :: rest) = string :: loginStrings rest := by
  have hstring : ∀ x ∈ string, (x == 0) = false := fun x hx =>
    beq_false_of_ne (ne_of_mem_of_not_mem hx h)
  rw [loginStrings, splitOn, splitOnP_append_cons_of_forall_mem hstring 0 rfl rest]
  exact dropLast_cons_of_ne_nil (splitOn_ne_nil 0 rest)

/-- **The loop.**  Every turn takes a string and its terminator. -/
theorem iscsiHandleStrings_eq (data : Bytes) :
    iscsiHandleStrings env iscsi data = handleInTurn env iscsi (loginStrings data) := by
  suffices hall : ∀ turns iscsi data, data.length ≤ turns →
      iscsiHandleStringsUpTo env turns iscsi data = handleInTurn env iscsi (loginStrings data) by
    exact hall _ iscsi data le_rfl
  intro turns
  induction turns with
  | zero =>
    intro iscsi data hturns
    rw [length_eq_zero_iff.1 (Nat.le_zero.1 hturns)]
    rfl
  | succ turns ih =>
    intro iscsi data hturns
    rw [iscsiHandleStringsUpTo]
    by_cases hzero : 0 ∈ data
    · obtain ⟨string, rest, rfl, hstring⟩ := eq_append_cons_of_mem hzero
      have htake : (string ++ 0 :: rest).takeWhile (· ≠ 0) = string := by
        rw [takeWhile_append_of_pos fun x hx => decide_eq_true (ne_of_mem_of_not_mem hx hstring)]
        simp
      have hdrop : (string ++ 0 :: rest).drop (string.length + 1) = rest := by simp
      rw [htake, if_neg (by simp), hdrop, loginStrings_cons hstring, handleInTurn,
        iscsiHandleString_eq]
      rw [length_append, length_cons] at hturns
      rcases runHandler env iscsi string with ⟨_ | _, iscsi'⟩
      · rfl
      · exact ih iscsi' rest (by omega)
    · have htake : data.takeWhile (· ≠ 0) = data :=
        takeWhile_eq_self_iff.2 fun x hx => decide_eq_true (ne_of_mem_of_not_mem hx hzero)
      rw [htake, if_pos (Nat.lt_succ_self _), loginStrings_nil hzero]
      rfl

/-- **The rule for strings.**  What holds of a session and the strings that are
still to be handled, and is kept by each of them, holds when they have been handled. -/
theorem iscsiHandleStrings_invariant {env : IscsiEnv} {inv : IscsiSession → List Bytes → Prop}
    (hstring : ∀ iscsi string strings, inv iscsi (string :: strings) →
      inv (iscsiHandleString env iscsi string).2 strings)
    {iscsi : IscsiSession} {data : Bytes} (hinv : inv iscsi (loginStrings data)) :
    ∃ strings, inv (iscsiHandleStrings env iscsi data).2 strings := by
  rw [iscsiHandleStrings_eq]
  generalize loginStrings data = strings at hinv
  induction strings generalizing iscsi with
  | nil => exact ⟨[], hinv⟩
  | cons string strings ih =>
    have hkept := hstring _ _ _ hinv
    rw [iscsiHandleString_eq] at hkept
    rw [handleInTurn]
    rcases hresult : runHandler env iscsi string with ⟨_ | _, iscsi'⟩ <;> rw [hresult] at hkept
    · exact ⟨strings, hkept⟩
    · exact ih hkept

/-- The key of a string is a known one only as a whole, and a known one is not rejected. -/
def KeyIsWhole : Prop :=
  if stringValue string = ascii "Reject" then ∀ type ∈ iscsiStringTypes, stringKey string ≠ type.1
  else ∀ type ∈ iscsiStringTypes, stringKey string <+: type.1 → stringKey string = type.1

/-- No known key is the beginning of another one. -/
theorem iscsiStringTypes_prefixFree {type other : Bytes × IscsiHandler}
    (htype : type ∈ iscsiStringTypes) (hother : other ∈ iscsiStringTypes)
    (h : type.1 <+: other.1) : type = other := by
  have hkeys : ∀ key ∈ iscsiStringTypes.map Prod.fst, ∀ other ∈ iscsiStringTypes.map Prod.fst,
      key <+: other → key = other := by decide
  exact inj_on_of_nodup_map (f := Prod.fst) (by decide) htype hother
    (hkeys _ (mem_map_of_mem htype) _ (mem_map_of_mem hother) h)

theorem iscsiStringType_iff {string : Bytes} (hmem : 0x3d ∈ string) :
    (∀ type ∈ iscsiStringTypes, iscsiStringType string = some type ↔ stringKey string = type.1) ↔
      KeyIsWhole string := by
  rw [iscsiStringType, KeyIsWhole]
  by_cases hreject : stringValue string = ascii "Reject"
  · simp [hreject]
  simp only [hmem, hreject, not_true_eq_false, or_self, if_false]
  -- an entry is found for every beginning of a known key
  have hfound : ∀ type ∈ iscsiStringTypes, stringKey string <+: type.1 →
      ∃ found ∈ iscsiStringTypes, stringKey string <+: found.1 ∧
        iscsiStringTypes.find? (fun type => stringKey string <+: type.1) = some found := by
    intro type htype hprefix
    cases hfind : iscsiStringTypes.find? (fun type => stringKey string <+: type.1) with
    | none => exact absurd (decide_eq_true hprefix) (find?_eq_none.1 hfind type htype)
    | some found =>
      exact ⟨found, mem_of_find?_eq_some hfind, by simpa using find?_some hfind, rfl⟩
  constructor
  · intro h type htype hprefix
    obtain ⟨found, hmem, -, hfind⟩ := hfound type htype hprefix
    have hkey := (h found hmem).1 hfind
    rw [hkey] at hprefix ⊢
    rw [iscsiStringTypes_prefixFree hmem htype hprefix]
  · intro h type htype
    refine ⟨fun hfind => h type htype (by simpa using find?_some hfind), fun hkey => ?_⟩
    obtain ⟨found, hmem, hprefix, hfind⟩ := hfound type htype (hkey ▸ prefix_rfl)
    rw [hkey] at hprefix
    rw [hfind, iscsiStringTypes_prefixFree htype hmem hprefix]

/-- **Text keys.**  Whatever the bytes of a login response are, the strings in it that are
terminated are handled in turn, up to the first one that fails, and each one by the handler of the
key before its first `=` exactly if no text before a first `=` is only the beginning of a known
key.  (The value `Reject` is an error for every key.)
[net/tcp/iscsi.c:1185-1273] -/
theorem iscsi_text_keys (env : IscsiEnv) (data : Bytes) :
    (∀ iscsi, iscsiHandleStrings env iscsi data = handleInTurn env iscsi (loginStrings data)) ∧
    ((∀ string ∈ loginStrings data, 0x3d ∈ string → ∀ type ∈ iscsiStringTypes,
        iscsiStringType string = some type ↔ stringKey string = type.1) ↔
      ∀ string ∈ loginStrings data, 0x3d ∈ string → KeyIsWhole string) :=
  ⟨fun iscsi => iscsiHandleStrings_eq env iscsi data,
    forall₂_congr fun _ _ => forall_congr' iscsiStringType_iff⟩

/-- **An empty key is taken for the first one of the table.** -/
theorem iscsi_text_keys_empty :
    let string := ascii "=192.168.0.1"
    string ∈ loginStrings (string ++ [0]) ∧ 0x3d ∈ string ∧ stringKey string = [] ∧
      (iscsiStringType string).map Prod.fst = some (ascii "TargetAddress") := by
  decide

end Ipxe.Analysis
