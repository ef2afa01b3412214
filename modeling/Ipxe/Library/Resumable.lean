import Mathlib.Tactic

/-!
# Machines that wait for input

A step of a machine goes on, waits because the input does not reach, or stops with a result.
Machines whose steps agree through a map of the inputs have runs that agree through it.  Where
steps do not mind more input behind (`Extensible`), a run taken up again is the run on all of it.
-/

namespace Ipxe.Library

variable {κ σ τ ρ α : Type}

/-- How a run ends: it waits, to be taken up in a control state, or it stops. -/
inductive Halt (κ σ ρ : Type) where
  | waiting (c : κ) (s : σ)
  | stopped (result : ρ) (c : κ) (s : σ)

inductive Outcome (κ σ ρ : Type) where
  | next (c : κ) (s : σ)
  | halt (h : Halt κ σ ρ)

namespace Halt

def map (f : σ → τ) : Halt κ σ ρ → Halt κ τ ρ
  | .waiting c s => .waiting c (f s)
  | .stopped result c s => .stopped result c (f s)

def control : Halt κ σ ρ → κ
  | .waiting c _ => c
  | .stopped _ c _ => c

def input : Halt κ σ ρ → σ
  | .waiting _ s => s
  | .stopped _ _ s => s

end Halt

namespace Outcome

def map (f : σ → τ) : Outcome κ σ ρ → Outcome κ τ ρ
  | .next c s => .next c (f s)
  | .halt h => .halt (h.map f)

/-- Go on with what has been read, or wait in a control state. -/
def await (c : κ) (read : Option α × σ) (go : α → σ → Outcome κ σ ρ) : Outcome κ σ ρ :=
  match read.1 with
  | none => .halt (.waiting c read.2)
  | some value => go value read.2

/-- What is there is taken. -/
@[simp] theorem await_some (c : κ) (value : α) (s : σ) (go : α → σ → Outcome κ σ ρ) :
    await c (some value, s) go = go value s := rfl

end Outcome

section

variable (step : κ → σ → Outcome κ σ ρ)

def runFor : ℕ → κ → σ → Option (Halt κ σ ρ)
  | 0, _, _ => none
  | n + 1, c, s =>
    match step c s with
    | .next c' s' => runFor n c' s'
    | .halt h => some h

def Halts (c : κ) (s : σ) (h : Halt κ σ ρ) : Prop := ∃ n, runFor step n c s = some h

/-- Some steps lead from one control state and input to others. -/
def Reaches : κ × σ → κ × σ → Prop :=
  Relation.ReflTransGen fun before after => step before.1 before.2 = .next after.1 after.2

variable {step} {c c' : κ} {s s' : σ} {h h' : Halt κ σ ρ}

/-- More fuel changes nothing. -/
theorem runFor_mono {n m : ℕ} (hrun : runFor step n c s = some h) (hle : n ≤ m) :
    runFor step m c s = some h := by
  induction n generalizing c s m with
  | zero => cases hrun
  | succ n ih =>
    obtain ⟨m, rfl⟩ := Nat.exists_eq_add_of_le' (Nat.le_of_add_left_le hle)
    rw [runFor] at hrun ⊢
    cases hstep : step c s with
    | next c' s' =>
      rw [hstep] at hrun
      exact ih hrun (Nat.le_of_succ_le_succ hle)
    | halt h' =>
      rw [hstep] at hrun
      exact hrun

/-- A machine halts in one way. -/
theorem Halts.unique (hrun : Halts step c s h) (hrun' : Halts step c s h') : h = h' := by
  obtain ⟨n, hn⟩ := hrun
  obtain ⟨m, hm⟩ := hrun'
  have hboth := runFor_mono hn (Nat.le_max_left n m)
  rw [runFor_mono hm (Nat.le_max_right n m)] at hboth
  exact (Option.some.inj hboth).symm

/-- A step does not change how it halts. -/
theorem halts_next (hstep : step c s = .next c' s') : Halts step c s h ↔ Halts step c' s' h := by
  constructor
  · rintro ⟨n, hn⟩
    cases n with
    | zero => cases hn
    | succ n =>
      rw [runFor, hstep] at hn
      exact ⟨n, hn⟩
  · rintro ⟨n, hn⟩
    exact ⟨n + 1, by rw [runFor, hstep]; exact hn⟩

/-- A last step. -/
theorem halts_halt (hstep : step c s = .halt h') : Halts step c s h ↔ h = h' := by
  constructor
  · rintro ⟨n, hn⟩
    cases n with
    | zero => cases hn
    | succ n =>
      rw [runFor, hstep] at hn
      exact (Option.some.inj hn).symm
  · rintro rfl
    exact ⟨1, by rw [runFor, hstep]⟩

/-- Only the step matters. -/
theorem halts_congr (hstep : step c s = step c' s') : Halts step c s h ↔ Halts step c' s' h := by
  cases hout : step c s with
  | next c₁ s₁ => rw [halts_next hout, halts_next (hstep.symm.trans hout)]
  | halt h₁ => rw [halts_halt hout, halts_halt (hstep.symm.trans hout)]

/-- No step. -/
theorem Reaches.refl : Reaches step (c, s) (c, s) := Relation.ReflTransGen.refl

/-- One step. -/
theorem Reaches.next (hstep : step c s = .next c' s') : Reaches step (c, s) (c', s') :=
  Relation.ReflTransGen.single hstep

/-- Steps, then more steps. -/
theorem Reaches.trans {a b d : κ × σ} (hab : Reaches step a b) (hbd : Reaches step b d) :
    Reaches step a d :=
  Relation.ReflTransGen.trans hab hbd

/-- A run may begin with the steps that are known. -/
theorem Reaches.halts (hreach : Reaches step (c, s) (c', s')) (hrun : Halts step c' s' h) :
    Halts step c s h := by
  suffices hall : ∀ a b : κ × σ, Reaches step a b → Halts step b.1 b.2 h → Halts step a.1 a.2 h from
    hall (c, s) (c', s') hreach hrun
  intro a b hreach
  induction hreach with
  | refl => exact id
  | tail _ hlast ih => exact fun hrun => ih ((halts_next hlast).2 hrun)

variable {inv : κ → σ → Prop}

/-- **Termination.**  Where every step that goes on makes a measure smaller, the measure bounds
the number of steps. -/
theorem runFor_of_measure {measure : κ → σ → ℕ}
    (hnext : ∀ c s c' s', inv c s → step c s = .next c' s' →
      inv c' s' ∧ measure c' s' < measure c s)
    {n : ℕ} (hinv : inv c s) (hn : measure c s < n) : ∃ h, runFor step n c s = some h := by
  induction n generalizing c s with
  | zero => exact absurd hn (Nat.not_lt_zero _)
  | succ n ih =>
    rw [runFor]
    cases hstep : step c s with
    | next c' s' =>
      obtain ⟨hinv', hless⟩ := hnext c s c' s' hinv hstep
      exact ih hinv' (by omega)
    | halt h => exact ⟨h, rfl⟩

/-- **Invariants of a run.**  What every step that goes on keeps holds where the run ends, up
to what the last step does. -/
theorem runFor_invariant {post : Halt κ σ ρ → Prop}
    (hnext : ∀ c s c' s', inv c s → step c s = .next c' s' → inv c' s')
    (hhalt : ∀ c s h, inv c s → step c s = .halt h → post h)
    {n : ℕ} (hinv : inv c s) (hrun : runFor step n c s = some h) : post h := by
  induction n generalizing c s with
  | zero => cases hrun
  | succ n ih =>
    rw [runFor] at hrun
    cases hstep : step c s with
    | next c' s' =>
      rw [hstep] at hrun
      exact ih (hnext c s c' s' hinv hstep) hrun
    | halt h' =>
      rw [hstep] at hrun
      cases hrun
      exact hhalt c s h hinv hstep

/-- A simulation of the steps is one of the runs. -/
theorem runFor_map {step' : κ → τ → Outcome κ τ ρ} {f : σ → τ} {inv : κ → σ → Prop}
    (hsim : ∀ c s, inv c s → step' c (f s) = (step c s).map f)
    (hnext : ∀ c s c' s', inv c s → step c s = .next c' s' → inv c' s') (n : ℕ)
    (hinv : inv c s) : runFor step' n c (f s) = (runFor step n c s).map (Halt.map f) := by
  induction n generalizing c s with
  | zero => rfl
  | succ n ih =>
    rw [runFor, runFor, hsim c s hinv]
    cases hstep : step c s with
    | next c' s' => exact ih (hnext c s c' s' hinv hstep)
    | halt h => rfl

end

/-- A step does the same with more input behind what it has; where it had to wait, it may as
well be taken up where it waits. -/
structure Extensible (step : κ → σ → Outcome κ σ ρ) (extend : σ → σ) : Prop where
  next : ∀ {c s c' s'}, step c s = .next c' s' → step c (extend s) = .next c' (extend s')
  stopped : ∀ {c s result c' s'}, step c s = .halt (.stopped result c' s') →
    step c (extend s) = .halt (.stopped result c' (extend s'))
  waiting : ∀ {c s c' s'}, step c s = .halt (.waiting c' s') →
    step c (extend s) = step c' (extend s')

namespace Extensible

variable {step : κ → σ → Outcome κ σ ρ} {extend : σ → σ}

/-- More input does not change a run that has stopped. -/
theorem halts_stopped (hext : Extensible step extend) {c : κ} {s : σ} {result : ρ} {c' : κ} {s' : σ}
    (hrun : Halts step c s (.stopped result c' s')) :
    Halts step c (extend s) (.stopped result c' (extend s')) := by
  obtain ⟨n, hn⟩ := hrun
  induction n generalizing c s with
  | zero => cases hn
  | succ n ih =>
    rw [runFor] at hn
    cases hstep : step c s with
    | next c₁ s₁ =>
      rw [hstep] at hn
      exact (halts_next (hext.next hstep)).2 (ih hn)
    | halt h =>
      rw [hstep] at hn
      cases hn
      exact (halts_halt (hext.stopped hstep)).2 rfl

/-- More input wakes a run that waits. -/
theorem halts_waiting (hext : Extensible step extend) {c : κ} {s : σ} {c' : κ} {s' : σ}
    {h : Halt κ σ ρ} (hrun : Halts step c s (.waiting c' s')) :
    Halts step c (extend s) h ↔ Halts step c' (extend s') h := by
  obtain ⟨n, hn⟩ := hrun
  induction n generalizing c s with
  | zero => cases hn
  | succ n ih =>
    rw [runFor] at hn
    cases hstep : step c s with
    | next c₁ s₁ =>
      rw [hstep] at hn
      rw [halts_next (hext.next hstep)]
      exact ih hn
    | halt h₁ =>
      rw [hstep] at hn
      cases hn
      exact halts_congr (hext.waiting hstep)

end Extensible

end Ipxe.Library
