import Mathlib.Tactic

/-!
# Runs of a list of spans

Spans are half-open intervals of integers that may overlap.  A run is a stretch of numbers in spans
that cannot be extended.  A walk over spans in the order of their starts finds one (`Walked`).
-/

namespace Ipxe.Library

open List

structure Span where
  start : ℤ
  stop : ℤ

def Held (spans : List Span) (x : ℤ) : Prop := ∃ span ∈ spans, span.start ≤ x ∧ x < span.stop

/-- All numbers from `lo` to below `hi` are held, and the ones next to them are not. -/
structure IsRun (spans : List Span) (lo hi : ℤ) : Prop where
  nonempty : lo < hi
  covered : ∀ x, lo ≤ x → x < hi → Held spans x
  before : ¬ Held spans (lo - 1)
  behind : ¬ Held spans hi

/-- **Runs with different starts have no number in common.** -/
theorem IsRun.disjoint {spans : List Span} {lo hi lo' hi' : ℤ} (h : IsRun spans lo hi)
    (h' : IsRun spans lo' hi') (hne : lo ≠ lo') {x : ℤ} (hx : lo ≤ x ∧ x < hi) :
    ¬ (lo' ≤ x ∧ x < hi') := by
  intro hx'
  rcases lt_or_gt_of_ne hne with hlt | hlt
  · exact h'.before (h.covered _ (by omega) (by omega))
  · exact h.before (h'.covered _ (by omega) (by omega))

/-- What a walk has found after some spans: the stretch from `lo` to `hi` is held, no span
goes further, and those that begin earlier end before `lo`. -/
structure Walked (spans : List Span) (lo hi : ℤ) : Prop where
  ordered : lo ≤ hi
  covered : ∀ x, lo ≤ x → x < hi → Held spans x
  reach : ∀ span ∈ spans, span.stop ≤ hi
  apart : ∀ span ∈ spans, span.start < lo → span.stop < lo

/-- Nothing has been walked over. -/
theorem walked_nil (lo : ℤ) : Walked [] lo lo where
  ordered := le_refl lo
  covered _ hlo hhi := absurd hhi (not_lt.2 hlo)
  reach := forall_mem_nil _
  apart := forall_mem_nil _

section

variable {spans : List Span} {span : Span} {lo hi : ℤ}

/-- More spans hold more. -/
theorem held_append_of_left {x : ℤ} {spans' : List Span} (h : Held spans x) :
    Held (spans ++ spans') x := by
  obtain ⟨span, hmem, hx⟩ := h
  exact ⟨span, mem_append_left _ hmem, hx⟩

/-- The last span holds its numbers. -/
theorem held_append_singleton {x : ℤ} (h : span.start ≤ x ∧ x < span.stop) :
    Held (spans ++ [span]) x :=
  ⟨span, mem_append_right _ (mem_singleton_self span), h⟩

/-- Behind a gap a new run begins. -/
theorem Walked.gap (h : Walked spans lo hi) (hspan : span.start < span.stop)
    (hgap : hi < span.start) : Walked (spans ++ [span]) span.start span.stop where
  ordered := hspan.le
  covered x hlo hhi := held_append_singleton ⟨hlo, hhi⟩
  reach s hmem := by
    rcases mem_append.1 hmem with hmem | hmem
    · have hs := h.reach s hmem
      omega
    · rw [mem_singleton.1 hmem]
  apart s hmem hlt := by
    rcases mem_append.1 hmem with hmem | hmem
    · have hs := h.reach s hmem
      omega
    · rw [mem_singleton.1 hmem] at hlt
      omega

/-- A span that joins goes on with the run. -/
theorem Walked.join (h : Walked spans lo hi) (hlo : lo ≤ span.start) (hjoin : span.start ≤ hi) :
    Walked (spans ++ [span]) lo (max hi span.stop) where
  ordered := h.ordered.trans (le_max_left _ _)
  covered x hlo' hhi := by
    by_cases hold : x < hi
    · exact held_append_of_left (h.covered x hlo' hold)
    · exact held_append_singleton (by omega)
  reach s hmem := by
    rcases mem_append.1 hmem with hmem | hmem
    · exact (h.reach s hmem).trans (le_max_left _ _)
    · rw [mem_singleton.1 hmem]
      exact le_max_right _ _
  apart s hmem hlt := by
    rcases mem_append.1 hmem with hmem | hmem
    · exact h.apart s hmem hlt
    · rw [mem_singleton.1 hmem] at hlt
      omega

/-- **A stretch is a run** if all further spans begin behind a gap. -/
theorem Walked.isRun {rest : List Span} (h : Walked spans lo hi) (hne : lo < hi)
    (hrest : ∀ span ∈ rest, hi < span.start) : IsRun (spans ++ rest) lo hi where
  nonempty := hne
  covered x hlo hhi := held_append_of_left (h.covered x hlo hhi)
  before := by
    rintro ⟨s, hmem, hstart, hstop⟩
    rcases mem_append.1 hmem with hmem | hmem
    · have hs := h.apart s hmem (by omega)
      omega
    · have hs := hrest s hmem
      omega
  behind := by
    rintro ⟨s, hmem, hstart, hstop⟩
    rcases mem_append.1 hmem with hmem | hmem
    · have hs := h.reach s hmem
      omega
    · have hs := hrest s hmem
      omega

end

end Ipxe.Library
