import Mathlib.Tactic

/-!
# Runs of a deterministic machine

A run is the fold of `step : σ → ε → σ` over a list of events.  Conditions on a run may look at the
state in which each event happens (`Meets`).
-/

namespace Ipxe.Library

open List

section

variable {σ ε : Type} (step : σ → ε → σ) (s : σ)

def run (events : List ε) : σ := events.foldl step s

/-- No events. -/
@[simp] theorem run_nil : run step s [] = s := rfl

/-- The first event, then the rest. -/
@[simp] theorem run_cons (e : ε) (events : List ε) :
    run step s (e :: events) = run step (step s e) events := rfl

/-- One run after another. -/
theorem run_append (events events' : List ε) :
    run step s (events ++ events') = run step (run step s events) events' :=
  foldl_append

variable {events : List ε}

/-- A loop that never fails is a run. -/
theorem foldlM_eq_run {step : σ → ε → σ} {loop : σ → ε → Option σ}
    (h : ∀ e ∈ events, ∀ s, loop s e = some (step s e)) (s : σ) :
    events.foldlM loop s = some (run step s events) := by
  induction events generalizing s with
  | nil => rfl
  | cons e events ih =>
    obtain ⟨he, hevents⟩ := forall_mem_cons.1 h
    rw [foldlM_cons, he, run_cons, ← ih hevents]
    rfl

/-- Every event of the run meets a condition on the state it happens in. -/
def Meets (cond : σ → ε → Prop) : σ → List ε → Prop
  | _, [] => True
  | s, e :: events => cond s e ∧ Meets cond (step s e) events

instance decidableMeets (cond : σ → ε → Prop) [∀ s e, Decidable (cond s e)] :
    (s : σ) → (events : List ε) → Decidable (Meets step cond s events)
  | _, [] => .isTrue trivial
  | s, e :: events =>
    have := decidableMeets cond (step s e) events
    inferInstanceAs (Decidable (cond s e ∧ Meets step cond (step s e) events))

variable {step} {cond : σ → ε → Prop}

/-- The first event, then the rest, meet it. -/
theorem meets_cons {s : σ} {e : ε} :
    Meets step cond s (e :: events) ↔ cond s e ∧ Meets step cond (step s e) events :=
  Iff.rfl

/-- Both runs meet it. -/
theorem meets_append {s : σ} {events' : List ε} :
    Meets step cond s (events ++ events') ↔
      Meets step cond s events ∧ Meets step cond (run step s events) events' := by
  induction events generalizing s with
  | nil => exact (and_iff_right trivial).symm
  | cons e events ih => exact (and_congr_right fun _ => ih).trans and_assoc.symm

/-- What holds of every event in every state. -/
theorem meets_of_forall
    (h : ∀ e ∈ events, ∀ s, cond s e) (s : σ) : Meets step cond s events := by
  induction events generalizing s with
  | nil => exact trivial
  | cons e events ih =>
    exact ⟨h e mem_cons_self s, ih (fun e' hmem => h e' (mem_cons_of_mem _ hmem)) _⟩

variable {cond' : σ → ε → Prop}

/-- Two conditions at once. -/
theorem Meets.and {s : σ} (h : Meets step cond s events) (h' : Meets step cond' s events) :
    Meets step (fun s e => cond s e ∧ cond' s e) s events := by
  induction events generalizing s with
  | nil => exact trivial
  | cons e events ih => exact ⟨⟨h.1, h'.1⟩, ih h.2 h'.2⟩

/-- **The invariant rule.**  What holds at the start and is kept by every step that
meets the condition holds after every run whose steps all meet it. -/
theorem run_invariant {cond : σ → ε → Prop} {inv : σ → Prop}
    (hstep : ∀ s e, inv s → cond s e → inv (step s e)) {s : σ} {events : List ε}
    (hs : inv s) (hmeets : Meets step cond s events) : inv (run step s events) := by
  induction events generalizing s with
  | nil => exact hs
  | cons e events ih =>
    obtain ⟨hcond, hmeets⟩ := hmeets
    exact ih (hstep s e hs hcond) hmeets

/-- The rule for an invariant of all steps. -/
theorem run_keeps {inv : σ → Prop} (hstep : ∀ s e, inv s → inv (step s e)) {s : σ} (hs : inv s)
    (events : List ε) : inv (run step s events) := by
  induction events generalizing s with
  | nil => exact hs
  | cons e events ih => exact ih (hstep s e hs)

/-- A run meets what its invariant implies. -/
theorem Meets.imp {inv : σ → Prop} (hstep : ∀ s e, inv s → cond s e → inv (step s e))
    (himp : ∀ s e, inv s → cond s e → cond' s e) {s : σ} (hs : inv s)
    (hmeets : Meets step cond s events) : Meets step cond' s events := by
  induction events generalizing s with
  | nil => exact trivial
  | cons e events ih => exact ⟨himp s e hs hmeets.1, ih (hstep s e hs hmeets.1) hmeets.2⟩

/-- What the invariant says holds throughout a run, up to the first step that does not meet the
condition. -/
theorem meets_iff_forall {cond : σ → ε → Prop} {inv good : σ → Prop}
    (hgood : ∀ s, inv s → good s) (hkeeps : ∀ s e, inv s → cond s e → inv (step s e))
    (hbreaks : ∀ s e, inv s → good (step s e) → cond s e) {s : σ} (hs : inv s) (events : List ε) :
    (∀ past, past <+: events → good (run step s past)) ↔ Meets step cond s events := by
  induction events generalizing s with
  | nil =>
    refine ⟨fun _ => trivial, fun _ past hpast => ?_⟩
    rw [prefix_nil.1 hpast]
    exact hgood s hs
  | cons e events ih =>
    constructor
    · intro h
      have hcond := hbreaks s e hs (h [e] (prefix_append [e] events))
      exact ⟨hcond, (ih (hkeeps s e hs hcond)).1 fun past hpast =>
        h (e :: past) (cons_prefix_cons.2 ⟨rfl, hpast⟩)⟩
    · rintro ⟨hcond, hmeets⟩ past hpast
      cases past with
      | nil => exact hgood s hs
      | cons e' past =>
        obtain ⟨rfl, hrest⟩ := cons_prefix_cons.1 hpast
        exact (ih (hkeeps s e' hs hcond)).2 hmeets past hrest

end

end Ipxe.Library
