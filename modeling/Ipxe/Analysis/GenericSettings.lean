import Ipxe.Interface.SettingsHistory

/-!
# Generic settings

The comparison of settings is symmetric but not transitive.  Where it is an equivalence on the
settings in use, a block gives back what has last been stored.
-/

namespace Ipxe.Analysis

open Library Model Interface List

theorem settingCmp_eq_true {a b : Setting} :
    settingCmp a b = true ↔
      (a.tag ≠ 0 ∧ a.tag = b.tag ∧ a.scope = b.scope) ∨ (a.name ≠ [] ∧ a.name = b.name) := by
  unfold settingCmp
  split_ifs with htag hname
  · exact iff_of_true rfl (.inl htag)
  · rw [decide_eq_true_eq]
    exact ⟨fun h => .inr ⟨hname, h⟩, fun h => (h.resolve_left htag).2⟩
  · exact iff_of_false not_false fun h => h.elim htag fun h => hname h.1

theorem settingCmp_symm {a b : Setting} (h : settingCmp a b = true) : settingCmp b a = true := by
  rw [settingCmp_eq_true] at h ⊢
  rcases h with ⟨htag, heq, hscope⟩ | ⟨hname, heq⟩
  · exact .inl ⟨heq ▸ htag, heq.symm, hscope.symm⟩
  · exact .inr ⟨heq ▸ hname, heq.symm⟩

theorem settingCmp_self {a : Setting} : settingCmp a a = true ↔ a.tag ≠ 0 ∨ a.name ≠ [] := by
  rw [settingCmp_eq_true]
  simp

theorem sameSetting_eq {a b : Setting} (h : a.tag ≠ 0 ∨ a.name ≠ []) :
    sameSetting a b = settingCmp a b := by
  apply Bool.eq_iff_iff.2
  unfold sameSetting
  rw [decide_eq_true_eq]
  refine ⟨fun hsame => hsame.elim ?_ id, .inr⟩
  rintro ⟨hname, htag, hscope⟩
  rw [settingCmp_eq_true]
  rcases h with h | h
  · exact .inl ⟨h, htag, hscope⟩
  · exact .inr ⟨h, hname⟩

section

variable {used : Setting → Prop} {generics : GenericSettings} {history : List SettingStore}

theorem storeStep_of_fails {store : SettingStore} (h : ¬store.succeeds = true) :
    storeStep generics store = generics := by
  unfold SettingStore.succeeds at h
  rw [decide_eq_true_eq, not_or] at h
  rw [storeStep, genericSettingsStore, if_neg h.1, if_neg h.2]

theorem storeStep_of_succeeds {store : SettingStore} (h : store.succeeds = true) :
    storeStep generics store =
      if store.data = [] then eraseKey GenericSetting.setting settingCmp generics store.setting
      else ⟨store.setting, store.data⟩ ::
        eraseKey GenericSetting.setting settingCmp generics store.setting := by
  unfold SettingStore.succeeds at h
  rw [decide_eq_true_eq] at h
  rw [storeStep, genericSettingsStore]
  by_cases hdata : store.data = []
  · rw [if_pos hdata, if_pos hdata]
  · rw [if_neg hdata, if_pos (h.resolve_left hdata), if_neg hdata]

theorem latestStore_concat (store : SettingStore) (setting : Setting) :
    latestStore (history ++ [store]) setting =
      if store.succeeds && sameSetting store.setting setting then
        if store.data = [] then none else some ⟨store.setting, store.data⟩
      else latestStore history setting := by
  unfold latestStore
  rw [reverse_append, reverse_singleton, singleton_append, find?_cons]
  cases store.succeeds && sameSetting store.setting setting <;> rfl

/-- A settings block that a history has led to. -/
structure HoldsLatest (used : Setting → Prop) (generics : GenericSettings)
    (history : List SettingStore) : Prop where
  unique : UniqueKeys GenericSetting.setting settingCmp generics
  keys : ∀ generic ∈ generics, used generic.setting
  latest : ∀ setting, used setting →
    findGenericSetting generics setting = latestStore history setting

variable (heq : EquivalenceOn used settingCmp)

include heq

theorem HoldsLatest.store (h : HoldsLatest used generics history) {store : SettingStore}
    (hstore : used store.setting) :
    HoldsLatest used (storeStep generics store) (history ++ [store]) := by
  by_cases hsucceeds : store.succeeds = true
  · have hfound : ∀ setting, sameSetting store.setting setting = settingCmp store.setting setting :=
      fun _ => sameSetting_eq (settingCmp_self.1 (heq.refl _ hstore))
    have herased : ∀ setting, used setting →
        lookupKey GenericSetting.setting settingCmp
          (eraseKey GenericSetting.setting settingCmp generics store.setting) setting =
            if settingCmp store.setting setting then none else latestStore history setting := by
      intro setting hsetting
      rw [lookupKey_eraseKey heq h.unique h.keys hstore hsetting, ← h.latest setting hsetting]
      rfl
    have hkeys : ∀ generic ∈ eraseKey GenericSetting.setting settingCmp generics store.setting,
        used generic.setting := fun generic hmem => h.keys generic (mem_of_mem_eraseKey hmem)
    rw [storeStep_of_succeeds hsucceeds]
    by_cases hdata : store.data = []
    · rw [if_pos hdata]
      refine ⟨uniqueKeys_eraseKey h.unique _, hkeys, fun setting hsetting => ?_⟩
      rw [findGenericSetting, herased setting hsetting, latestStore_concat, hsucceeds,
        Bool.true_and, hfound, if_pos hdata]
    · rw [if_neg hdata]
      refine ⟨?_, ?_, fun setting hsetting => ?_⟩
      · exact uniqueKeys_cons_eraseKey heq h.unique h.keys
          (show used (GenericSetting.setting ⟨store.setting, store.data⟩) from hstore)
      · intro generic hmem
        rcases mem_cons.1 hmem with rfl | hmem
        · exact hstore
        · exact hkeys generic hmem
      · rw [findGenericSetting, lookupKey_cons, herased setting hsetting, latestStore_concat,
          hsucceeds, Bool.true_and, hfound]
        split_ifs <;> rfl
  · rw [storeStep_of_fails hsucceeds]
    refine ⟨h.unique, h.keys, fun setting hsetting => ?_⟩
    rw [h.latest setting hsetting, latestStore_concat, Bool.eq_false_of_not_eq_true hsucceeds,
      Bool.false_and, if_neg Bool.false_ne_true]

theorem holdsLatest_run (history : List SettingStore)
    (hused : ∀ store ∈ history, used store.setting) :
    HoldsLatest used (run storeStep [] history) history := by
  induction history using List.reverseRecOn with
  | nil => exact ⟨List.Pairwise.nil, nofun, fun _ _ => rfl⟩
  | append_singleton history store ih =>
    rw [run_append]
    have hbefore := ih fun other hother => hused other (mem_append_left _ hother)
    exact hbefore.store heq (hused store (mem_append_right _ mem_cons_self))

end

theorem fetch_unidentified {a : Setting} (h : settingCmp a a = false) :
    genericSettingsFetch (run storeStep [] [⟨a, [0], true⟩]) a 0 = .error .enoent ∧
      fetchLatest [⟨a, [0], true⟩] a 0 ≠ .error .enoent := by
  have hsame : sameSetting a a = true := decide_eq_true (.inl ⟨rfl, rfl, rfl⟩)
  constructor
  · have hrun : run storeStep [] [⟨a, [0], true⟩] = [⟨a, [0]⟩] := rfl
    rw [hrun, genericSettingsFetch, findGenericSetting, lookupKey_cons, h]
    rfl
  · have hlatest : latestStore [⟨a, [0], true⟩] a = some ⟨a, [0]⟩ := by
      have hconcat := @latestStore_concat [] ⟨a, [0], true⟩ a
      rw [hsame] at hconcat
      exact hconcat
    rw [fetchLatest, hlatest]
    nofun

/-- The stores that show that two settings are not the same as each other, though both are the same
as a third one: the third takes the place of the later one only, and its deletion leaves the other
one behind. -/
def stalePair (a b c : Setting) : List SettingStore :=
  [⟨a, [1], true⟩, ⟨c, [2], true⟩, ⟨b, [3], true⟩, ⟨b, [], true⟩]

theorem run_stalePair {a b c : Setting} (hb : settingCmp b b = true) (hcb : settingCmp c b = true)
    (hac : settingCmp a c = false) : run storeStep [] (stalePair a b c) = [⟨a, [1]⟩] := by
  simp [stalePair, storeStep, genericSettingsStore, eraseKey, hb, hcb, hac]

theorem latestStore_stalePair {a b c : Setting} (hb : settingCmp b b = true) :
    latestStore (stalePair a b c) b = none := by
  have hsame : sameSetting b b = true := decide_eq_true (.inr hb)
  have hconcat := @latestStore_concat [⟨a, [1], true⟩, ⟨c, [2], true⟩, ⟨b, [3], true⟩]
    ⟨b, [], true⟩ b
  rw [hsame] at hconcat
  exact hconcat

/-- **Generic settings.**  Over the settings in use every fetch gives what has last been
stored to the same setting, after every history, exactly if each of them has a tag or a name and
the comparison is transitive on them.
[core/settings.c:105-199, 1120-1132] -/
theorem generic_settings_latest (used : Setting → Prop) :
    (∀ history : List SettingStore, (∀ store ∈ history, used store.setting) →
        ∀ setting, used setting → ∀ len,
          genericSettingsFetch (run storeStep [] history) setting len =
            fetchLatest history setting len) ↔
      (∀ a, used a → a.tag ≠ 0 ∨ a.name ≠ []) ∧
      ∀ a b c, used a → used b → used c → settingCmp a b = true → settingCmp b c = true →
        settingCmp a c = true := by
  constructor
  · intro h
    have hnamed : ∀ a, used a → a.tag ≠ 0 ∨ a.name ≠ [] := by
      intro a ha
      rw [← settingCmp_self]
      by_contra hself
      have hfetch := h [⟨a, [0], true⟩] (by simpa using ha) a ha 0
      obtain ⟨hcode, hlatest⟩ := fetch_unidentified (Bool.eq_false_of_not_eq_true hself)
      exact hlatest (hfetch ▸ hcode)
    refine ⟨hnamed, fun a b c ha hb hc hab hbc => ?_⟩
    by_contra hac
    have hself : settingCmp b b = true := settingCmp_self.mpr (hnamed b hb)
    have hfetch := h (stalePair a b c) (by simp [stalePair, ha, hb, hc]) b hb 0
    rw [run_stalePair hself (settingCmp_symm hbc) (Bool.eq_false_of_not_eq_true hac), fetchLatest,
      latestStore_stalePair hself, genericSettingsFetch, findGenericSetting, lookupKey_cons,
      if_pos hab] at hfetch
    cases hfetch
  · rintro ⟨hnamed, htrans⟩ history hused setting hsetting len
    have heq : EquivalenceOn used settingCmp :=
      ⟨fun a ha => settingCmp_self.mpr (hnamed a ha), fun _ _ _ _ => settingCmp_symm, htrans⟩
    have hlatest := (holdsLatest_run heq history hused).latest setting hsetting
    rw [genericSettingsFetch, hlatest]
    rfl

/-- A setting named `x`, another one with tag 1 and a third with both: once the third has been
deleted, the value of the first is what it has. -/
theorem generic_settings_latest_stale :
    genericSettingsFetch
        (run storeStep []
          (stalePair { name := [0x78] } { name := [0x78], tag := 1 } { name := [0x79], tag := 1 }))
        { name := [0x78], tag := 1 } 8 = .ok ⟨1, [1], none⟩ ∧
      fetchLatest
        (stalePair { name := [0x78] } { name := [0x78], tag := 1 } { name := [0x79], tag := 1 })
        { name := [0x78], tag := 1 } 8 = .error .enoent := by
  decide

end Ipxe.Analysis
