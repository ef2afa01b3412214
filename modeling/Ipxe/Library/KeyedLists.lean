import Mathlib.Tactic

/-!
# Lists of items with keys

Items are looked up by a comparison of keys.  Where it is an equivalence on the keys in use, a list
with one item erased or put in front is looked up as a map would be.
-/

namespace Ipxe.Library

open List Bool

section

variable {α κ : Type} (key : α → κ) (same : κ → κ → Bool) (items : List α)

def lookupKey (k : κ) : Option α := items.find? fun item => same (key item) k

/-- The items without the first one with a key. -/
def eraseKey (k : κ) : List α := items.eraseP fun item => same (key item) k

/-- No two items have the same key. -/
def UniqueKeys : Prop :=
  items.Pairwise fun item other => same (key item) (key other) = false

variable {key same}

/-- The first item with the key. -/
theorem lookupKey_cons (item : α) (items : List α) (k : κ) :
    lookupKey key same (item :: items) k =
      if same (key item) k then some item else lookupKey key same items k := by
  unfold lookupKey
  rw [find?_cons]
  cases same (key item) k <;> rfl

/-- Only the first item with the key goes. -/
theorem eraseKey_cons (item : α) (items : List α) (k : κ) :
    eraseKey key same (item :: items) k =
      if same (key item) k then items else item :: eraseKey key same items k := by
  unfold eraseKey
  rw [eraseP_cons]
  cases same (key item) k <;> rfl

/-- Nothing has the key. -/
theorem lookupKey_eq_none {items : List α} {k : κ} :
    lookupKey key same items k = none ↔ ∀ item ∈ items, same (key item) k = false := by
  unfold lookupKey
  rw [find?_eq_none]
  exact forall₂_congr fun _ _ => Iff.of_eq (not_eq_true _)

/-- Erasing adds nothing. -/
theorem mem_of_mem_eraseKey {items : List α} {k : κ} {item : α}
    (h : item ∈ eraseKey key same items k) : item ∈ items :=
  mem_of_mem_eraseP h

/-- Erasing keeps keys unique. -/
theorem uniqueKeys_eraseKey {items : List α} (hunique : UniqueKeys key same items) (k : κ) :
    UniqueKeys key same (eraseKey key same items k) :=
  hunique.sublist eraseP_sublist

end

/-- A comparison that is an equivalence on the keys in use. -/
structure EquivalenceOn {κ : Type} (used : κ → Prop) (same : κ → κ → Bool) : Prop where
  refl : ∀ k, used k → same k k = true
  symm : ∀ k k', used k → used k' → same k k' = true → same k' k = true
  trans : ∀ k k' k'', used k → used k' → used k'' → same k k' = true → same k' k'' = true →
    same k k'' = true

section

variable {α κ : Type} {key : α → κ} {same : κ → κ → Bool} {used : κ → Prop}
  (heq : EquivalenceOn used same) {items : List α}

include heq

/-- An erased key is gone, and no other. -/
theorem lookupKey_eraseKey (hunique : UniqueKeys key same items)
    (hused : ∀ item ∈ items, used (key item)) {k q : κ} (hk : used k) (hq : used q) :
    lookupKey key same (eraseKey key same items k) q =
      if same k q then none else lookupKey key same items q := by
  induction items with
  | nil =>
    split_ifs <;> rfl
  | cons item items ih =>
    obtain ⟨hitem, hunique⟩ := pairwise_cons.1 hunique
    have hkey : used (key item) := hused item mem_cons_self
    have hrest : ∀ other ∈ items, used (key other) := fun other h =>
      hused other (mem_cons_of_mem _ h)
    rw [eraseKey_cons]
    by_cases herased : same (key item) k = true
    · rw [if_pos herased]
      have hback := heq.symm _ _ hkey hk herased
      by_cases hsame : same k q = true
      · -- the item was the only one with this key
        rw [if_pos hsame, lookupKey_eq_none]
        intro other hother
        by_contra hfound
        rw [not_eq_false] at hfound
        have hclash := heq.trans _ _ _ hkey hq (hrest other hother)
          (heq.trans _ _ _ hkey hk hq herased hsame) (heq.symm _ _ (hrest other hother) hq hfound)
        rw [hitem other hother] at hclash
        cases hclash
      · have hother : ¬same (key item) q = true := fun h =>
          hsame (heq.trans _ _ _ hk hkey hq hback h)
        rw [if_neg hsame, lookupKey_cons, if_neg hother]
    · rw [if_neg herased, lookupKey_cons, lookupKey_cons]
      by_cases hfound : same (key item) q = true
      · have hother : ¬same k q = true := fun h =>
          herased (heq.trans _ _ _ hkey hq hk hfound (heq.symm _ _ hk hq h))
        rw [if_pos hfound, if_neg hother, if_pos hfound]
      · rw [if_neg hfound, if_neg hfound]
        exact ih hunique hrest

/-- An item put in place of that with its key keeps keys unique. -/
theorem uniqueKeys_cons_eraseKey (hunique : UniqueKeys key same items)
    (hused : ∀ item ∈ items, used (key item)) {item : α} (hitem : used (key item)) :
    UniqueKeys key same (item :: eraseKey key same items (key item)) := by
  have hnone := lookupKey_eraseKey heq hunique hused hitem hitem
  rw [if_pos (heq.refl _ hitem), lookupKey_eq_none] at hnone
  refine pairwise_cons.2 ⟨fun other hother => ?_, uniqueKeys_eraseKey hunique _⟩
  by_contra hclash
  rw [not_eq_false] at hclash
  have hback := heq.symm _ _ hitem (hused other (mem_of_mem_eraseKey hother)) hclash
  rw [hnone other hother] at hback
  cases hback

end

end Ipxe.Library
