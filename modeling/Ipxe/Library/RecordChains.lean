import Mathlib.Tactic

/-!
# Chains of records

A position leads to a place, or nowhere; the record at a place ends its chain, or has a content and
the position of the next record.  A chain that ends comes to no place twice.
-/

namespace Ipxe.Library

open List

variable {α : Type} (place : ℕ → Option ℕ) (record : ℕ → Option (α × ℕ))

/-- The contents of the records from a position on, if the chain ends. -/
inductive Chain : ℕ → List α → Prop
  | last {position at_ : ℕ} : place position = some at_ → record at_ = none → Chain position []
  | next {position at_ after : ℕ} {content : α} {contents : List α} :
      place position = some at_ → record at_ = some (content, after) → Chain after contents →
      Chain position (content :: contents)

/-- Follow a chain for at most so many records. -/
def followChain : ℕ → ℕ → Option (List α)
  | 0, _ => none
  | limit + 1, position =>
    match place position with
    | none => none
    | some at_ =>
      match record at_ with
      | none => some []
      | some (content, after) => (followChain limit after).map (content :: ·)

variable {place record} {position at_ limit : ℕ} {contents contents' : List α}

/-- A chain ends here or goes on. -/
theorem chain_iff (h : place position = some at_) :
    Chain place record position contents ↔
      (record at_ = none ∧ contents = []) ∨
      ∃ content after rest, record at_ = some (content, after) ∧ contents = content :: rest ∧
        Chain place record after rest := by
  constructor
  · intro hchain
    cases hchain with
    | last hplace hrecord =>
      cases h.symm.trans hplace
      exact .inl ⟨hrecord, rfl⟩
    | next hplace hrecord hrest =>
      cases h.symm.trans hplace
      exact .inr ⟨_, _, _, hrecord, rfl, hrest⟩
  · rintro (⟨hrecord, rfl⟩ | ⟨content, after, rest, hrecord, rfl, hrest⟩)
    · exact .last h hrecord
    · exact .next h hrecord hrest

/-- A chain is followed if it is short enough. -/
theorem followChain_eq_some_iff :
    followChain place record limit position = some contents ↔
      Chain place record position contents ∧ contents.length < limit := by
  induction limit generalizing position contents with
  | zero => simp [followChain]
  | succ limit ih =>
    rw [followChain]
    cases hplace : place position with
    | none =>
      refine ⟨(nomatch ·), fun ⟨hchain, _⟩ => ?_⟩
      cases hchain with
      | last h _ => cases hplace.symm.trans h
      | next h _ _ => cases hplace.symm.trans h
    | some at_ =>
      rw [chain_iff hplace]
      cases hrecord : record at_ with
      | none =>
        simp only [hrecord, Option.some.injEq, true_and, reduceCtorEq, false_and, exists_false,
          or_false]
        constructor
        · rintro rfl
          exact ⟨rfl, Nat.succ_pos limit⟩
        · rintro ⟨rfl, -⟩
          rfl
      | some found =>
        obtain ⟨content, after⟩ := found
        simp only [hrecord, Option.map_eq_some_iff, ih, reduceCtorEq, false_and, false_or]
        constructor
        · rintro ⟨rest, ⟨hrest, hlimit⟩, rfl⟩
          exact ⟨⟨content, after, rest, rfl, rfl, hrest⟩, Nat.succ_lt_succ hlimit⟩
        · rintro ⟨⟨content', after', rest, hsame, rfl, hrest⟩, hlimit⟩
          cases hsame
          exact ⟨rest, ⟨hrest, Nat.lt_of_succ_lt_succ hlimit⟩, rfl⟩

section

variable (h : Chain place record position contents)

include h

/-- There is one chain from a position. -/
theorem Chain.unique (h' : Chain place record position contents') : contents = contents' := by
  have hsome := followChain_eq_some_iff.2
    ⟨h, Nat.lt_succ_of_le (Nat.le_max_left _ contents'.length)⟩
  have hsome' := followChain_eq_some_iff.2
    ⟨h', Nat.lt_succ_of_le (Nat.le_max_right contents.length _)⟩
  exact Option.some.inj (hsome.symm.trans hsome')

/-- The places a chain comes to: each begins a chain of its own, with fewer records after
it. -/
theorem Chain.exists_places :
    ∃ places : List ℕ, places.length = contents.length + 1 ∧ places.Nodup ∧
      ∀ at_ ∈ places, (∃ from_, place from_ = some at_) ∧
        ∃ rest, rest.length ≤ contents.length ∧
          ∀ from_, place from_ = some at_ → Chain place record from_ rest := by
  induction h with
  | @last position at_ hplace hrecord =>
    refine ⟨[at_], rfl, nodup_singleton at_, fun other hother => ?_⟩
    cases mem_singleton.1 hother
    exact ⟨⟨position, hplace⟩, [], le_rfl, fun _ hfrom => .last hfrom hrecord⟩
  | @next position at_ after content contents hplace hrecord hrest ih =>
    obtain ⟨places, hlen, hnodup, hplaces⟩ := ih
    have hhere : ∀ from_, place from_ = some at_ →
        Chain place record from_ (content :: contents) := fun _ hfrom => .next hfrom hrecord hrest
    refine ⟨at_ :: places, ?_, nodup_cons.2 ⟨fun hagain => ?_, hnodup⟩, ?_⟩
    · rw [length_cons, hlen, length_cons]
    · -- here again, the chain would be longer than itself
      obtain ⟨-, rest, hless, hchain⟩ := hplaces at_ hagain
      have hsame := (hhere position hplace).unique (hchain position hplace)
      rw [← hsame, length_cons] at hless
      omega
    · intro other hother
      rcases mem_cons.1 hother with rfl | hother
      · exact ⟨⟨position, hplace⟩, _, le_rfl, hhere⟩
      · obtain ⟨hfrom, rest, hless, hchain⟩ := hplaces other hother
        exact ⟨hfrom, rest, hless.trans (Nat.le_succ _), hchain⟩

/-- **A chain that ends has fewer records than the store has places.** -/
theorem Chain.length_lt {size : ℕ} (hsize : ∀ position at_, place position = some at_ → at_ < size) :
    contents.length < size := by
  obtain ⟨places, hlen, hnodup, hplaces⟩ := h.exists_places
  have hsubset : places ⊆ range size := fun at_ hat => by
    obtain ⟨⟨from_, hfrom⟩, -⟩ := hplaces at_ hat
    exact mem_range.2 (hsize from_ at_ hfrom)
  have hle := (hnodup.subperm hsubset).length_le
  rw [length_range] at hle
  omega

end

/-- A chain comes to no place twice, so the size is limit enough. -/
theorem followChain_size {size : ℕ}
    (hsize : ∀ position at_, place position = some at_ → at_ < size) :
    followChain place record size position = some contents ↔ Chain place record position contents :=
  followChain_eq_some_iff.trans ⟨And.left, fun h => ⟨h, h.length_lt hsize⟩⟩

end Ipxe.Library
