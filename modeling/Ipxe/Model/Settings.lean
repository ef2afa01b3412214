import Ipxe.Library.KeyedLists
import Ipxe.Library.SignedOctets
import Ipxe.Model.Platform
import Ipxe.Model.Strings

/-!
# Settings

`core/settings.c` for generic settings blocks, and `expand_settings`.  Setting types and scopes are
known by their addresses.  The name of a setting is not `NULL`, since storing takes its length.  The
length of a value is an `int`.

Left out: descriptions, redirected blocks and blocks that restrict what applies to them, priorities,
applicators, the other types of values, and failing allocations of `expand_settings`.
-/

namespace Ipxe.Model

open Library

/-- `struct setting`.  A tag of zero is none.
[include/ipxe/settings.h:23-51] -/
structure Setting where
  name : Bytes := []
  type : Option ℕ := none
  tag : ℕ := 0
  scope : Option ℕ := none
  deriving DecidableEq, Repr

/-- Compare two settings: whether they are the same.
[1120-1132] -/
def settingCmp (a b : Setting) : Bool :=
  -- if the settings have tags, compare them
  if a.tag ≠ 0 ∧ a.tag = b.tag ∧ a.scope = b.scope then true
  -- otherwise, if the settings have names, compare them
  else if a.name ≠ [] then a.name = b.name
  else false

structure GenericSetting where
  setting : Setting
  data : Bytes
  deriving DecidableEq, Repr

abbrev GenericSettings := List GenericSetting

variable (generics : GenericSettings)

/-- Find generic setting.
[105-115] -/
def findGenericSetting (setting : Setting) : Option GenericSetting :=
  lookupKey GenericSetting.setting settingCmp generics setting

/-- Store value of generic setting; no data clears it.
[126-166] -/
def genericSettingsStore (allocated : Bool) (generics : GenericSettings) (setting : Setting)
    (data : Bytes) : Except Errno GenericSettings :=
  if data = [] then .ok (eraseKey GenericSetting.setting settingCmp generics setting)
  else if allocated then
    .ok (⟨setting, data⟩ :: eraseKey GenericSetting.setting settingCmp generics setting)
  else .error .enomem

/-- What fetching a setting gives: its length, what is copied to the buffer, and its type. -/
structure Fetched where
  len : ℕ
  copied : Bytes
  type : Option ℕ
  deriving DecidableEq, Repr

/-- Fetch value of generic setting, to a buffer of some length.
[178-199] -/
def genericSettingsFetch (setting : Setting) (len : ℕ) : Except Errno Fetched :=
  match findGenericSetting generics setting with
  | none => .error .enoent
  | some generic =>
    .ok { len := generic.data.length
          copied := generic.data.take len
          -- set setting type, if not yet specified
          type := setting.type.or generic.setting.type }

/-- `struct settings`: a generic settings block and its children. -/
inductive Settings where
  | block (generics : GenericSettings) (children : List Settings)

mutual

/-- Fetch setting: its length, and the buffer.
[666-716] -/
def fetchSetting : (settings : Settings) → (setting : Setting) → (len : ℕ) →
    Except Errno (ℕ × Bytes)
  | .block generics children, setting, len =>
    match genericSettingsFetch generics setting len with
    | .ok fetched =>
      .ok (fetched.len, fetched.copied ++ List.replicate (len - fetched.copied.length) 0)
    -- recurse into each child block in turn
    | .error _ => fetchChildren children setting len

def fetchChildren : (children : List Settings) → (setting : Setting) → (len : ℕ) →
    Except Errno (ℕ × Bytes)
  | [], _, _ => .error .enoent
  | child :: children, setting, len =>
    match fetchSetting child setting len with
    | .ok fetched => .ok fetched
    | .error _ => fetchChildren children setting len

end

/-- Fetch value of setting.
[803-808] -/
def fetchRawSetting (settings : Settings) (setting : Setting) (len : ℕ) :
    Except Errno (ℕ × Bytes) :=
  fetchSetting settings setting len

/-! ## Numeric values -/

section

variable (arch : Platform)

def sizeofLong : ℕ := arch.sizeBits / 8

/-- What extracting a numeric value comes to: the status, the value that has been written, and how
many bytes have been read. -/
structure NumericSetting (arch : Platform) where
  rc : Except Errno ℕ
  value : BitVec arch.sizeBits
  read : ℕ
  deriving DecidableEq

/-- The loop over the bytes from number `i` on, of `len` in all. -/
def numericSettingLoop (len : ℕ) (pad : UInt8) :
    (i : ℕ) → BitVec arch.sizeBits → Bytes → NumericSetting arch
  | i, value, [] => ⟨.ok len, value, i⟩
  | i, value, byte :: bytes =>
    let value := pushOctet value byte
    if i + sizeofLong arch < len ∧ byte ≠ pad then ⟨.error .erange, value, i + 1⟩
    else numericSettingLoop len pad (i + 1) value bytes

/-- Extract numeric value of setting, from `len` bytes at `raw`.
[966-985] -/
def numericSettingValue (isSigned : Bool) (raw : ℕ → UInt8) (len : ℕ) : NumericSetting arch :=
  let isNegative : Bool := len ≠ 0 ∧ 0x80 ≤ raw 0
  let value : BitVec arch.sizeBits := if isSigned ∧ isNegative then -1 else 0
  let pad : UInt8 := if isSigned ∧ isNegative then 0xff else 0
  numericSettingLoop arch len pad 0 value ((List.range len).map raw)

variable (beyond : ℕ → UInt8) (settings : Settings) (setting : Setting)

/-- Fetch value of numeric setting, with what lies in memory behind the temporary `unsigned long`.
[997-1013] -/
def fetchNumericSetting
    (isSigned : Bool) : NumericSetting arch :=
  match fetchRawSetting settings setting (sizeofLong arch) with
  | .error rc => ⟨.error rc, 0, 0⟩
  | .ok (len, tmp) =>
    numericSettingValue arch isSigned
      (fun i => if h : i < tmp.length then tmp[i] else beyond (i - tmp.length)) len

/-- Fetch value of signed integer setting.
[1023-1029] -/
def fetchIntSetting : NumericSetting arch :=
  fetchNumericSetting arch beyond settings setting true

/-- Fetch value of unsigned integer setting.
[1039-1044] -/
def fetchUintSetting : NumericSetting arch :=
  fetchNumericSetting arch beyond settings setting false

/-- Fetch value of signed integer setting, or zero.
[1053-1059] -/
def fetchIntzSetting : ℤ :=
  (fetchNumericSetting arch beyond settings setting true).value.toInt

/-- Fetch value of unsigned integer setting, or zero.
[1068-1074] -/
def fetchUintzSetting : ℕ :=
  (fetchNumericSetting arch beyond settings setting false).value.toNat

end

/-! ## Expansion

The settings do not change meanwhile, and a setting without a value has the empty one. -/

/-- The settings as expansions see them: blocks and types by name, and the formatted values. -/
structure SettingsValues where
  block : Bytes → Option ℕ
  type : Bytes → Option ℕ
  value : Option ℕ → Bytes → Option ℕ → Bytes

/-- A name split at the first of some characters. -/
def splitName (char : UInt8) (name : Bytes) : Bytes × Option Bytes :=
  (name.takeWhile (· ≠ char), (strchr name char).map List.tail)

/-- The value of `[settings_name/]tag_name[:type_name]`; invalid names are treated as empty.
[1528-1595,2336-2348] -/
def SettingsValues.expand (settings : SettingsValues) (name : Bytes) : Bytes :=
  let (settingsName, settingName) :=
    match splitName 0x2f name with
    | (settingsName, some settingName) => (some settingsName, settingName)
    | (settingName, none) => (none, settingName)
  let (settingName, typeName) := splitName 0x3a settingName
  match settingsName.map settings.block, typeName.map settings.type with
  | some none, _ => []
  | _, some none => []
  | block, type => settings.value (block.bind id) settingName (type.bind id)

/-- Locate setting to be expanded: what is in front of it, its name, and what follows.  `start` is
the text from the last `${` on.
[2320-2334] -/
def locateSetting (head : Bytes) (start : Option Bytes) : Bytes → Option (Bytes × Bytes × Bytes)
  | [] => none
  | char :: tail =>
    let opens := char = 0x24 ∧ tail.head? = some 0x7b
    let head := if opens then head ++ start.getD [] else head
    match if opens then some [] else start with
    | none => locateSetting (head ++ [char]) none tail
    | some text =>
      if char = 0x7d then some (head, text.drop 2, tail)
      else locateSetting head (some (text ++ [char])) tail

/-- Expand variables within string, for at most so many turns.
[2297-2364] -/
def expandSettings (settings : SettingsValues) : ℕ → Bytes → Option Bytes
  | 0, _ => none
  | turns + 1, expstr =>
    match locateSetting [] none expstr with
    | none => some expstr
    | some (head, name, tail) =>
      expandSettings settings turns (head ++ settings.expand name ++ tail)

end Ipxe.Model
