import Mathlib.Tactic

/-!
# Schedules

A schedule of things that depend on each other has nothing twice and everything after what it
depends on.
-/

namespace Ipxe.Library

open List

/-- A place in a list is a way to split it around an item. -/
theorem forall_splits_cons {α : Type} {P : List α → α → Prop} (first : α) (items : List α) :
    (∀ before item after, first :: items = before ++ item :: after → P before item) ↔
      P [] first ∧ ∀ before item after, items = before ++ item :: after → P (first :: before) item := by
  constructor
  · intro h
    refine ⟨h [] first items rfl, fun before item after hsplit => ?_⟩
    exact h (first :: before) item after (by rw [hsplit, cons_append])
  · rintro ⟨hfirst, hrest⟩ before item after hsplit
    cases before with
    | nil =>
      obtain ⟨rfl, -⟩ := cons.inj hsplit
      exact hfirst
    | cons other before =>
      obtain ⟨rfl, hitems⟩ := cons.inj hsplit
      exact hrest before item after hitems

section

variable {α : Type} (dep : α → α → Prop)

/-- Everything comes after what it depends on, or that is in `done`. -/
def Supplied (done items : List α) : Prop :=
  ∀ before item after, items = before ++ item :: after →
    ∀ need, dep item need → need ∈ done ++ before

structure Scheduled (items : List α) : Prop where
  nodup : items.Nodup
  supplied : Supplied dep [] items

variable {dep} {done items : List α} {item : α}

/-- No items need nothing. -/
theorem supplied_nil (done : List α) : Supplied dep done [] :=
  fun before _ _ h => absurd h.symm (append_ne_nil_of_right_ne_nil before (cons_ne_nil _ _))

/-- No items are scheduled. -/
theorem scheduled_nil : Scheduled dep [] := ⟨nodup_nil, supplied_nil []⟩

/-- The first item has what it needs. -/
theorem Supplied.head (h : Supplied dep done (item :: items)) :
    ∀ need, dep item need → need ∈ done := fun need hneed => by
  have hmem := ((forall_splits_cons item items).1 h).1 need hneed
  rwa [append_nil] at hmem

/-- The rest may need the first item. -/
theorem Supplied.tail (h : Supplied dep done (item :: items)) :
    Supplied dep (done ++ [item]) items := fun before next after heq need hneed => by
  have hmem := ((forall_splits_cons item items).1 h).2 before next after heq need hneed
  rwa [append_assoc, singleton_append]

/-- More may be there. -/
theorem Supplied.mono {done' : List α} (h : Supplied dep done items) (hsub : done ⊆ done') :
    Supplied dep done' items := fun before item after heq need hneed => by
  rcases mem_append.1 (h before item after heq need hneed) with hdone | hbefore
  · exact mem_append_left _ (hsub hdone)
  · exact mem_append_right _ hbefore

/-- All but the last, and what the last one needs. -/
theorem Supplied.of_concat (h : Supplied dep done (items ++ [item])) :
    Supplied dep done items ∧ ∀ need, dep item need → need ∈ done ++ items :=
  ⟨fun before next after heq => h before next (after ++ [item])
    (by rw [heq, append_assoc, cons_append]), h items item [] rfl⟩

/-- Nothing supplied from the start needs itself. -/
theorem Supplied.irrefl (h : Supplied dep [] items) (hmem : item ∈ items) : ¬ dep item item := by
  intro hself
  obtain ⟨before, after, rfl, hfirst⟩ := eq_append_cons_of_mem hmem
  exact hfirst (h before item after rfl item hself)

/-- A new item whose needs are met goes last. -/
theorem Scheduled.concat (h : Scheduled dep items) (hnew : item ∉ items)
    (hneeds : ∀ need, dep item need → need ∈ items) : Scheduled dep (items ++ [item]) where
  nodup := nodup_append.2 ⟨h.nodup, nodup_singleton _, fun a ha b hb heq => by
    rw [mem_singleton.1 hb] at heq
    exact hnew (heq ▸ ha)⟩
  supplied := fun before next after heq need hneed => by
    rcases eq_nil_or_concat after with rfl | ⟨after', last, rfl⟩
    · obtain ⟨rfl, hlast⟩ := append_inj' heq rfl
      rw [← (List.cons.inj hlast).1] at hneed
      exact hneeds need hneed
    · have hsplit : items ++ [item] = (before ++ next :: after') ++ [last] := by
        rw [heq, concat_eq_append, append_assoc, cons_append]
      obtain ⟨hitems, -⟩ := append_inj' hsplit rfl
      have hmem := h.supplied before next after' hitems need hneed
      rwa [nil_append] at hmem

variable [DecidableEq α]

/-- Add something unless it is there. -/
def addNew (items : List α) (item : α) : List α := if item ∈ items then items else items ++ [item]

/-- An item is added if it is not there. -/
theorem mem_addNew {other : α} : other ∈ addNew items item ↔ other ∈ items ∨ other = item := by
  unfold addNew
  split_ifs with h
  · exact ⟨.inl, fun hor => hor.elim id fun heq => heq ▸ h⟩
  · rw [mem_append, mem_singleton]

/-- Adding keeps the schedule. -/
theorem Scheduled.addNew (h : Scheduled dep items) (hneeds : ∀ need, dep item need → need ∈ items) :
    Scheduled dep (addNew items item) := by
  unfold Library.addNew
  split_ifs with hold
  · exact h
  · exact h.concat hold hneeds

/-- All of the items are added. -/
theorem mem_foldl_addNew {more : List α} {other : α} :
    other ∈ more.foldl addNew items ↔ other ∈ items ∨ other ∈ more := by
  induction more generalizing items with
  | nil => simp
  | cons item more ih => rw [foldl_cons, ih, mem_addNew, mem_cons, or_assoc]

end

end Ipxe.Library
