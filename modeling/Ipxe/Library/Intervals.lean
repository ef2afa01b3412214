import Mathlib

/-!
# Sets as lists of intervals

A set of natural numbers as the ascending list of its maximal intervals (`Separated`).  An interval
is added by merging it with those that it touches (`coalesce`).
-/

namespace Ipxe.Library

open List

/-- The numbers from `lo` up to, but not including, `hi`. -/
structure Interval where
  lo : ℕ
  hi : ℕ
  deriving DecidableEq, Repr

def Interval.toSet (i : Interval) : Set ℕ := Set.Ico i.lo i.hi

def Interval.Within (i j : Interval) : Prop := j.lo ≤ i.lo ∧ i.hi ≤ j.hi

/-- The set that a list of intervals stands for. -/
def covered (l : List Interval) : Set ℕ := {n | ∃ i ∈ l, n ∈ i.toSet}

/-- Nothing covers nothing. -/
@[simp] theorem covered_nil : covered [] = ∅ := by
  simp [covered]

/-- The first interval and the others. -/
@[simp] theorem covered_cons (i : Interval) (l : List Interval) :
    covered (i :: l) = i.toSet ∪ covered l := by
  ext n
  simp [covered]

/-- Both lists cover their parts. -/
@[simp] theorem covered_append (l l' : List Interval) :
    covered (l ++ l') = covered l ∪ covered l' := by
  induction l with
  | nil => simp
  | cons i l ih => rw [cons_append, covered_cons, covered_cons, ih, Set.union_assoc]

variable {i : Interval} {l l₁ l₂ k : List Interval}

/-- Intervals in a set cover no more. -/
theorem covered_subset {s : Set ℕ} (h : ∀ i ∈ l, i.toSet ⊆ s) : covered l ⊆ s := by
  rintro n ⟨i, hi, hn⟩
  exact h i hi hn

/-- Each interval is covered. -/
theorem toSet_subset_covered (h : i ∈ l) : i.toSet ⊆ covered l := fun _ hn => ⟨i, h, hn⟩

/-- An interval within another is a part of it. -/
theorem Interval.Within.subset {j : Interval} (h : i.Within j) : i.toSet ⊆ j.toSet :=
  Set.Ico_subset_Ico h.1 h.2

/-- Of disjoint intervals one comes first. -/
theorem Interval.le_or_le {j : Interval} (hi : i.lo < i.hi) (hj : j.lo < j.hi)
    (h : Disjoint i.toSet j.toSet) : i.hi ≤ j.lo ∨ j.hi ≤ i.lo := by
  have hempty := Set.Ico_disjoint_Ico.1 h
  omega

/-- The intervals are not empty, ascend and do not touch. -/
structure Separated (l : List Interval) : Prop where
  proper : ∀ i ∈ l, i.lo < i.hi
  apart : l.Pairwise fun i j => i.hi < j.lo

/-- Nothing is separated. -/
theorem separated_nil : Separated [] := ⟨by simp, .nil⟩

/-- The first is proper and ends before the others begin. -/
theorem separated_cons :
    Separated (i :: l) ↔ i.lo < i.hi ∧ (∀ j ∈ l, i.hi < j.lo) ∧ Separated l := by
  constructor
  · rintro ⟨hproper, hapart⟩
    rw [pairwise_cons] at hapart
    exact ⟨hproper i (by simp), hapart.1, fun j hj => hproper j (by simp [hj]), hapart.2⟩
  · rintro ⟨hi, happ, hl⟩
    refine ⟨fun j hj => ?_, pairwise_cons.2 ⟨happ, hl.apart⟩⟩
    rcases mem_cons.1 hj with rfl | hj
    · exact hi
    · exact hl.proper j hj

/-- What ends before the others is disjoint from them. -/
theorem disjoint_covered_of_lt (h : ∀ j ∈ l, i.hi ≤ j.lo) : Disjoint i.toSet (covered l) := by
  rw [Set.disjoint_left]
  rintro n hn ⟨j, hj, hn'⟩
  have hle := h j hj
  have hni : n < i.hi := hn.2
  have hnj : j.lo ≤ n := hn'.1
  omega

/-- Add an interval, merging it with the interval that ends where it begins and with the one
that begins where it ends. -/
def coalesce (f : Interval) : List Interval → List Interval
  | [] => [f]
  | i :: l =>
    if i.hi = f.lo then coalesce ⟨i.lo, f.hi⟩ l
    else if f.hi = i.lo then ⟨f.lo, i.hi⟩ :: l
    else if f.hi < i.lo then f :: i :: l
    else i :: coalesce f l

/-- Coalescing moves no start down. -/
theorem lt_of_mem_coalesce {f j : Interval} {n : ℕ} (hf : n < f.lo) (hl : ∀ i ∈ l, n < i.lo)
    (hj : j ∈ coalesce f l) : n < j.lo := by
  induction l generalizing f with
  | nil =>
    rw [coalesce, mem_singleton] at hj
    exact hj ▸ hf
  | cons i l ih =>
    have hi : n < i.lo := hl i (by simp)
    have hl' : ∀ i ∈ l, n < i.lo := fun i hi => hl i (by simp [hi])
    rw [coalesce] at hj
    split_ifs at hj
    · exact ih (f := ⟨i.lo, f.hi⟩) hi hl' hj
    · rcases mem_cons.1 hj with rfl | hj
      · exact hf
      · exact hl' j hj
    · rcases mem_cons.1 hj with rfl | hj
      · exact hf
      · exact hl j hj
    · rcases mem_cons.1 hj with rfl | hj
      · exact hi
      · exact ih hf hl' hj

/-- Neighbours together are one interval. -/
theorem toSet_union_toSet {f : Interval} (hi : i.lo ≤ i.hi) (hf : f.lo ≤ f.hi) (h : i.hi = f.lo) :
    i.toSet ∪ f.toSet = Interval.toSet ⟨i.lo, f.hi⟩ := by
  unfold Interval.toSet
  rw [h] at hi ⊢
  exact Set.Ico_union_Ico_eq_Ico hi hf

/-- **Adding an interval** that has nothing in common with the set keeps the list separated,
and adds just that interval. -/
theorem coalesce_spec {f : Interval} (hl : Separated l) (hf : f.lo < f.hi)
    (hdisj : Disjoint f.toSet (covered l)) :
    Separated (coalesce f l) ∧ covered (coalesce f l) = covered l ∪ f.toSet := by
  induction l generalizing f with
  | nil => exact ⟨separated_cons.2 ⟨hf, by simp, separated_nil⟩, by simp [coalesce]⟩
  | cons i l ih =>
    obtain ⟨hi, hil, hl⟩ := separated_cons.1 hl
    rw [covered_cons, Set.disjoint_union_right] at hdisj
    obtain ⟨hdi, hdl⟩ := hdisj
    have hside := Interval.le_or_le hf hi hdi
    have hidl : Disjoint i.toSet (covered l) := disjoint_covered_of_lt fun j hj => (hil j hj).le
    rw [coalesce]
    split_ifs with hbefore hafter hlt
    · -- the interval before it
      have hunion := toSet_union_toSet hi.le hf.le hbefore
      obtain ⟨hsep, hcov⟩ := ih (f := ⟨i.lo, f.hi⟩) hl (show i.lo < f.hi by omega)
        (by rw [← hunion, Set.disjoint_union_left]; exact ⟨hidl, hdl⟩)
      refine ⟨hsep, ?_⟩
      rw [hcov, ← hunion, covered_cons]
      ac_rfl
    · -- the interval behind it
      have hunion := toSet_union_toSet hf.le hi.le hafter
      refine ⟨separated_cons.2 ⟨show f.lo < i.hi by omega, hil, hl⟩, ?_⟩
      rw [covered_cons, covered_cons, ← hunion]
      ac_rfl
    · refine ⟨separated_cons.2 ⟨hf, fun j hj => ?_, separated_cons.2 ⟨hi, hil, hl⟩⟩, ?_⟩
      · rcases mem_cons.1 hj with rfl | hj
        · exact hlt
        · exact hlt.trans (hi.trans (hil j hj))
      · rw [covered_cons, Set.union_comm]
    · -- the place is further on
      obtain ⟨hsep, hcov⟩ := ih hl hf hdl
      refine ⟨separated_cons.2 ⟨hi, fun j hj => ?_, hsep⟩, ?_⟩
      · exact lt_of_mem_coalesce (by omega) hil hj
      · rw [covered_cons, hcov, covered_cons, Set.union_assoc]

/-- **What is left of an interval** takes its place in the list. -/
theorem Separated.carve (h : Separated (l₁ ++ i :: l₂)) (hk : Separated k)
    (hwithin : ∀ j ∈ k, j.Within i) : Separated (l₁ ++ k ++ l₂) := by
  have hproper := h.proper
  have hapart := h.apart
  rw [pairwise_append, pairwise_cons] at hapart
  obtain ⟨h₁, ⟨hi₂, h₂⟩, h₁₂⟩ := hapart
  refine ⟨fun j hj => ?_, ?_⟩
  · simp only [mem_append] at hj
    rcases hj with (hj | hj) | hj
    · exact hproper j (by simp [hj])
    · exact hk.proper j hj
    · exact hproper j (by simp [hj])
  · rw [append_assoc, pairwise_append, pairwise_append]
    refine ⟨h₁, ⟨hk.apart, h₂, fun a ha b hb => ?_⟩, fun a ha b hb => ?_⟩
    · exact (hwithin a ha).2.trans_lt (hi₂ b hb)
    · rcases mem_append.1 hb with hb | hb
      · exact (h₁₂ a ha i (by simp)).trans_le (hwithin b hb).1
      · exact h₁₂ a ha b (by simp [hb])

/-- Carving covers nothing new. -/
theorem covered_carve (hwithin : ∀ j ∈ k, j.Within i) :
    covered (l₁ ++ k ++ l₂) ⊆ covered (l₁ ++ i :: l₂) := by
  refine covered_subset fun j hj => ?_
  simp only [mem_append] at hj
  rcases hj with (hj | hj) | hj
  · exact toSet_subset_covered (by simp [hj])
  · exact (hwithin j hj).subset.trans (toSet_subset_covered (by simp))
  · exact toSet_subset_covered (by simp [hj])

/-- What has been carved out is free. -/
theorem Separated.disjoint_carve {m : Interval} (h : Separated (l₁ ++ i :: l₂)) (hm : m.Within i)
    (hmk : Disjoint m.toSet (covered k)) :
    Disjoint m.toSet (covered (l₁ ++ k ++ l₂)) := by
  have hapart := h.apart
  rw [pairwise_append, pairwise_cons] at hapart
  obtain ⟨-, ⟨hi₂, -⟩, h₁₂⟩ := hapart
  rw [covered_append, covered_append, Set.disjoint_union_right, Set.disjoint_union_right]
  refine ⟨⟨?_, hmk⟩, disjoint_covered_of_lt fun j hj => (hm.2.trans_lt (hi₂ j hj)).le⟩
  rw [Set.disjoint_right]
  rintro n ⟨j, hj, hn⟩ hn'
  have hlt := h₁₂ j hj i (by simp)
  have hnj : n < j.hi := hn.2
  have hnm : m.lo ≤ n := hn'.1
  have hmi := hm.1
  omega

/-- What is left of `i` on both sides of a piece `m` of it, as far as it is kept. -/
def sides (before behind : Prop) [Decidable before] [Decidable behind] (i m : Interval) :
    List Interval :=
  (if before then [⟨i.lo, m.lo⟩] else []) ++ if behind then [⟨m.hi, i.hi⟩] else []

/-- What is left at the sides is in order, and free of the middle. -/
theorem sides_spec {before behind : Prop} [Decidable before] [Decidable behind] {m : Interval}
    (hm : m.Within i) (hproper : m.lo < m.hi) (hbefore : before → i.lo < m.lo)
    (hbehind : behind → m.hi < i.hi) :
    Separated (sides before behind i m) ∧ (∀ j ∈ sides before behind i m, j.Within i) ∧
      Disjoint m.toSet (covered (sides before behind i m)) := by
  have hside : ∀ j ∈ sides before behind i m,
      (j = ⟨i.lo, m.lo⟩ ∧ i.lo < m.lo) ∨ (j = ⟨m.hi, i.hi⟩ ∧ m.hi < i.hi) := by
    intro j hj
    unfold sides at hj
    split_ifs at hj with h₁ h₂ h₂ <;> simp at hj <;> tauto
  obtain ⟨hlo, hhi⟩ := hm
  refine ⟨⟨fun j hj => ?_, ?_⟩, fun j hj => ?_, ?_⟩
  · rcases hside j hj with ⟨rfl, hlt⟩ | ⟨rfl, hlt⟩ <;> exact hlt
  · unfold sides
    split_ifs <;> simp [hproper]
  · rcases hside j hj with ⟨rfl, hlt⟩ | ⟨rfl, hlt⟩
    · exact ⟨le_refl _, (hproper.trans_le hhi).le⟩
    · exact ⟨(hlo.trans_lt hproper).le, le_refl _⟩
  · rw [Set.disjoint_right]
    rintro n ⟨j, hj, hn⟩ ⟨hn₁, hn₂⟩
    rcases hside j hj with ⟨rfl, -⟩ | ⟨rfl, -⟩
    · exact absurd hn.2 (not_lt.2 hn₁)
    · exact absurd hn.1 (not_le.2 hn₂)

end Ipxe.Library
