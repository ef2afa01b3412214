import Ipxe.Library.Runs
import Ipxe.Model.Settings

/-!
# What settings blocks hold

Two settings are the same if they have a tag in common, or a name, or both have neither.  What a
history leaves behind for a setting is the last store to it that succeeded.  In a tree of blocks,
the value of a setting is that of the first block that has it.
-/

namespace Ipxe.Interface

open Library Model

/-- A store; without data it is a deletion. -/
structure SettingStore where
  setting : Setting
  data : Bytes
  allocated : Bool := true

/-- Deletions need no memory. -/
def SettingStore.succeeds (store : SettingStore) : Bool := store.data = [] ∨ store.allocated

/-- The same setting, identified by tag, by name, or by having neither. -/
def sameSetting (a b : Setting) : Bool :=
  (a.name = b.name ∧ a.tag = b.tag ∧ a.scope = b.scope) ∨ settingCmp a b

/-- The settings block after a store; one that fails changes nothing. -/
def storeStep (generics : GenericSettings) (store : SettingStore) : GenericSettings :=
  match genericSettingsStore store.allocated generics store.setting store.data with
  | .ok generics => generics
  | .error _ => generics

variable (history : List SettingStore)

def latestStore (setting : Setting) : Option GenericSetting :=
  match history.reverse.find? fun store => store.succeeds && sameSetting store.setting setting with
  | none => none
  | some store => if store.data = [] then none else some ⟨store.setting, store.data⟩

def fetchLatest (setting : Setting) (len : ℕ) : Except Errno Fetched :=
  match latestStore history setting with
  | none => .error .enoent
  | some stored =>
    .ok { len := stored.data.length
          copied := stored.data.take len
          type := setting.type.or stored.setting.type }

mutual

/-- The value that a tree of settings blocks has for a setting. -/
def storedValue : (settings : Settings) → (setting : Setting) → Option Bytes
  | .block generics children, setting =>
    match findGenericSetting generics setting with
    | some generic => some generic.data
    | none => storedChild children setting

def storedChild : (children : List Settings) → (setting : Setting) → Option Bytes
  | [], _ => none
  | child :: children, setting =>
    match storedValue child setting with
    | some data => some data
    | none => storedChild children setting

end

end Ipxe.Interface
