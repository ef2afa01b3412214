import Ipxe.Model.Encodings
import Ipxe.Model.Settings

/-!
# Expansion of settings

A turn of the loop takes one closing brace away and puts the value in its place.  The loop ends
exactly if the values bring back closing braces in finitely many turns only.
-/

namespace Ipxe.Analysis

open Model List

/-- A complete expression stands in a string. -/
def HasExpression (string : Bytes) : Prop :=
  ∃ head name tail, string = head ++ 0x24 :: 0x7b :: (name ++ 0x7d :: tail)

/-- Expansion ends, and no complete expression is left. -/
def Expands (settings : SettingsValues) (string : Bytes) : Prop :=
  ∃ turns expstr, expandSettings settings turns string = some expstr ∧ ¬ HasExpression expstr

/-- The string after so many turns, if there are as many. -/
def expandedBy (settings : SettingsValues) : ℕ → Bytes → Option Bytes
  | 0, string => some string
  | turns + 1, string =>
    match locateSetting [] none string with
    | none => none
    | some (head, name, tail) =>
      expandedBy settings turns (head ++ settings.expand name ++ tail)

theorem locateSetting_sound {head text string head' name tail : Bytes}
    {start : Option Bytes} (hstart : start = none ∧ text = [] ∨ start = some text ∧
      ∃ rest, text ++ string = 0x24 :: 0x7b :: rest)
    (h : locateSetting head start string = some (head', name, tail)) :
    head ++ text ++ string = head' ++ 0x24 :: 0x7b :: (name ++ 0x7d :: tail) := by
  induction string generalizing head text start with
  | nil => cases h
  | cons char string ih =>
    rw [locateSetting] at h
    by_cases hopens : char = 0x24 ∧ string.head? = some 0x7b
    · obtain ⟨rfl, hnext⟩ := hopens
      obtain ⟨rest, rfl⟩ : ∃ rest, string = 0x7b :: rest := by
        cases string <;> simp_all
      have hhead : start.getD [] = text := by
        rcases hstart with ⟨rfl, rfl⟩ | ⟨rfl, -⟩ <;> rfl
      simp [hhead] at h
      simpa using ih (.inr ⟨rfl, rest, rfl⟩) h
    · simp only [if_neg hopens] at h
      rcases hstart with ⟨rfl, rfl⟩ | ⟨rfl, rest, hrest⟩
      · simpa using ih (.inl ⟨rfl, rfl⟩) h
      · split_ifs at h with hclose
        · cases h
          rcases text with _ | ⟨first, _ | ⟨second, text⟩⟩ <;> simp_all
        · simpa using ih (.inr ⟨rfl, rest, by simpa using hrest⟩) h

theorem isSome_locateSetting {string : Bytes} (hclose : 0x7d ∈ string)
    (head text : Bytes) : (locateSetting head (some text) string).isSome := by
  induction string generalizing head text with
  | nil => cases hclose
  | cons char string ih =>
    rw [locateSetting]
    by_cases hchar : char = 0x7d
    · simp [hchar]
    · have hrest : 0x7d ∈ string := (mem_cons.1 hclose).resolve_left (Ne.symm hchar)
      split_ifs with hopens
      · exact ih hrest _ _
      · exact ih hrest _ _

theorem locateSetting_complete {rest : Bytes} (hclose : 0x7d ∈ rest) (before head : Bytes)
    (start : Option Bytes) :
    (locateSetting head start (before ++ 0x24 :: 0x7b :: rest)).isSome := by
  induction before generalizing head start with
  | nil =>
    rw [nil_append, locateSetting]
    simpa using isSome_locateSetting (mem_cons_of_mem 0x7b hclose) _ _
  | cons char before ih =>
    rw [cons_append, locateSetting]
    split
    · exact ih _ _
    · by_cases hend : char = 0x7d
      · rw [if_pos hend]
        rfl
      · rw [if_neg hend]
        exact ih _ _

theorem locateSetting_eq_none_iff (string : Bytes) :
    locateSetting [] none string = none ↔ ¬ HasExpression string := by
  constructor
  · rintro hnone ⟨head, name, tail, rfl⟩
    have hsome := @locateSetting_complete (name ++ 0x7d :: tail) (by simp) head [] none
    rw [hnone] at hsome
    cases hsome
  · intro hnone
    cases h : locateSetting [] none string with
    | none => rfl
    | some found =>
      exact absurd ⟨_, _, _, locateSetting_sound (.inl ⟨rfl, rfl⟩) h⟩ hnone

section

variable {settings : SettingsValues} {string expstr : Bytes} {turns : ℕ}

theorem not_hasExpression (h : expandSettings settings turns string = some expstr) :
    ¬ HasExpression expstr := by
  induction turns generalizing string with
  | zero => cases h
  | succ turns ih =>
    rw [expandSettings] at h
    split at h
    · next hnone =>
        cases h
        exact (locateSetting_eq_none_iff _).1 hnone
    · exact ih h

theorem expandedBy_eq_none (h : expandSettings settings turns string = some expstr) {turn : ℕ}
    (hturn : turns ≤ turn) : expandedBy settings turn string = none := by
  induction turns generalizing string turn with
  | zero => cases h
  | succ turns ih =>
    obtain ⟨turn, rfl⟩ : ∃ n, turn = n + 1 := ⟨turn - 1, by omega⟩
    rw [expandSettings] at h
    rw [expandedBy]
    cases hlocate : locateSetting [] none string with
    | none => rfl
    | some found =>
      rw [hlocate] at h
      exact ih h (by omega)

/-- **Values without closing braces**: each turn leaves one less. -/
theorem expandSettings_ends (h : ∀ turn string' head name tail,
      expandedBy settings turn string = some string' →
      locateSetting [] none string' = some (head, name, tail) → 0x7d ∉ settings.expand name) :
    ∃ turns expstr, expandSettings settings turns string = some expstr := by
  generalize hcount : string.count 0x7d = count
  induction count using Nat.strong_induction_on generalizing string with
  | _ count ih =>
    cases hlocate : locateSetting [] none string with
    | none => exact ⟨1, string, by rw [expandSettings, hlocate]⟩
    | some found =>
      obtain ⟨head, name, tail⟩ := found
      have hvalue := h 0 string head name tail rfl hlocate
      have hsplit : string = head ++ 0x24 :: 0x7b :: (name ++ 0x7d :: tail) := by
        simpa using locateSetting_sound (.inl ⟨rfl, rfl⟩) hlocate
      obtain ⟨turns, expstr, hturns⟩ := @ih
        ((head ++ settings.expand name ++ tail).count 0x7d) (by
          rw [← hcount, hsplit]
          simp [count_eq_zero.2 hvalue]
          omega) _ (fun turn string' head' name' tail' hafter => h (turn + 1) string' head' name'
            tail' (by rw [expandedBy, hlocate]; exact hafter)) rfl
      exact ⟨turns + 1, expstr, by rw [expandSettings, hlocate]; exact hturns⟩

/-- Where the loop ends, no complete expression is left. -/
theorem expands_of_ends (h : ∃ turns expstr, expandSettings settings turns string = some expstr) :
    Expands settings string := by
  obtain ⟨turns, expstr, hturns⟩ := h
  exact ⟨turns, expstr, hturns, not_hasExpression hturns⟩

end

/-- **Expansion.**  It ends, with no complete expression left, exactly if from some turn on no value
has a closing brace, as in particular if no value of a setting has one.
[core/settings.c:2297-2364] -/
theorem settings_expansion (settings : SettingsValues) (string : Bytes) :
    (Expands settings string ↔ ∃ start, ∀ turn ≥ start, ∀ string' head name tail,
      expandedBy settings turn string = some string' →
      locateSetting [] none string' = some (head, name, tail) → 0x7d ∉ settings.expand name) ∧
    ((∀ name, 0x7d ∉ settings.expand name) → Expands settings string) := by
  refine ⟨⟨?_, ?_⟩, fun h => expands_of_ends ?_⟩
  · rintro ⟨turns, expstr, h, -⟩
    refine ⟨turns, fun turn hturn string' head name tail hafter => ?_⟩
    rw [expandedBy_eq_none h hturn] at hafter
    cases hafter
  · rintro ⟨start, h⟩
    apply expands_of_ends
    induction start generalizing string with
    | zero => exact expandSettings_ends fun turn => h turn (Nat.zero_le turn)
    | succ start ih =>
      cases hlocate : locateSetting [] none string with
      | none => exact ⟨1, string, by rw [expandSettings, hlocate]⟩
      | some found =>
        obtain ⟨head, name, tail⟩ := found
        obtain ⟨turns, expstr, hturns⟩ := ih (head ++ settings.expand name ++ tail)
          fun turn hturn string' head' name' tail' hafter => h (turn + 1) (by omega) string' head'
            name' tail' (by rw [expandedBy, hlocate]; exact hafter)
        exact ⟨turns + 1, expstr, by rw [expandSettings, hlocate]; exact hturns⟩
  · exact expandSettings_ends fun _ _ _ name _ _ _ => h name

/-- Every setting has its own expression as its value. -/
def selfReference : SettingsValues where
  block := fun _ => none
  type := fun _ => none
  value := fun _ name _ => [0x24, 0x7b] ++ name ++ [0x7d]

/-- `${a}` is expanded to itself for ever. -/
theorem settings_expansion_loops : ¬ Expands selfReference (ascii "$\x7ba\x7d") := by
  rintro ⟨turns, expstr, h, -⟩
  induction turns with
  | zero => cases h
  | succ turns ih => exact ih h

end Ipxe.Analysis
