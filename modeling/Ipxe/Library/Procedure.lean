import Mathlib.Tactic

/-!
# Procedures

A procedure works on a state and may fail; what it has changed until then remains changed.
`Frame view p` means that `view` of the state stays the same, and `Triple pre p post failed` also
says what holds where the procedure has failed.
-/

namespace Ipxe.Library

/-- A computation in two parts succeeds exactly when the second succeeds on what the
first has returned. -/
theorem bind_succeeds_iff {ε α β : Type} {first : Except ε α} {second : α → Except ε β} {value : β} :
    first >>= second = .ok value ↔ ∃ between, first = .ok between ∧ second between = .ok value := by
  match first with
  | .ok between => exact ⟨fun h => ⟨between, rfl, h⟩, fun ⟨_, rfl, h⟩ => h⟩
  | .error _ => exact ⟨nofun, nofun⟩

def Procedure (ε σ α : Type) : Type := σ → Except ε α × σ

namespace Procedure

variable {ε σ ρ α β : Type}

instance : Monad (Procedure ε σ) where
  pure a := fun s => (.ok a, s)
  bind p f := fun s =>
    match p s with
    | (.ok a, s) => f a s
    | (.error e, s) => (.error e, s)

def modify (f : σ → σ) : Procedure ε σ Unit := fun s => (.ok (), f s)

def fail (e : ε) : Procedure ε σ α := fun s => (.error e, s)

def refuse (c : Prop) [Decidable c] (e : ε) : Procedure ε σ Unit :=
  if c then fail e else pure ()

/-- Do something in the given case only. -/
def whenever (c : Prop) [Decidable c] (p : Procedure ε σ Unit) : Procedure ε σ Unit :=
  if c then p else pure ()

/-- A result that does not depend on the state. -/
def result (r : Except ε α) : Procedure ε σ α := fun s => (r, s)

variable {f : α → Procedure ε σ β} {p : Procedure ε σ α}

/-- After success the next one runs. -/
theorem bind_ok {s s' : σ} {a : α} (h : p s = (.ok a, s')) : (p >>= f) s = f a s' := by
  show (match p s with | (.ok a, s) => f a s | (.error e, s) => (.error e, s)) = _
  rw [h]

/-- After an error nothing runs. -/
theorem bind_error {s s' : σ} {e : ε}
    (h : p s = (.error e, s')) : (p >>= f) s = (.error e, s') := by
  show (match p s with | (.ok a, s) => f a s | (.error e, s) => (.error e, s)) = _
  rw [h]

/-- Whether all that a procedure returns has a decidable property is decided by running it. -/
instance decidableForallOk (p : Procedure ε σ α) (s : σ) (post : α → σ → Prop)
    [∀ a s', Decidable (post a s')] : Decidable (∀ a s', p s = (.ok a, s') → post a s') :=
  match p s with
  | (.ok a, s') =>
    decidable_of_iff (post a s')
      ⟨fun h _ _ heq => by cases heq; exact h, fun h => h a s' rfl⟩
  | (.error _, _) => .isTrue nofun

/-- The procedure does not change what `view` shows of the state. -/
def Frame (view : σ → ρ) (p : Procedure ε σ α) : Prop := ∀ s, view (p s).2 = view s

section

variable {view : σ → ρ}

/-- Returning changes nothing. -/
theorem Frame.pure (a : α) : Frame view (Pure.pure a : Procedure ε σ α) := fun _ => rfl

/-- Failing changes nothing. -/
theorem Frame.fail (e : ε) : Frame view (fail e : Procedure ε σ α) := fun _ => rfl

/-- A result changes nothing. -/
theorem Frame.result (r : Except ε α) : Frame view (result r : Procedure ε σ α) := fun _ => rfl

/-- A change out of view. -/
theorem Frame.modify {f : σ → σ} (h : ∀ s, view (f s) = view s) :
    Frame view (modify f : Procedure ε σ Unit) := h

/-- One after the other. -/
theorem Frame.bind {p : Procedure ε σ α} {f : α → Procedure ε σ β} (hp : Frame view p)
    (hf : ∀ a, Frame view (f a)) : Frame view (p >>= f) := by
  intro s
  have hview := hp s
  rcases h : p s with ⟨e | a, s'⟩ <;> rw [h] at hview
  · rw [bind_error h]
    exact hview
  · rw [bind_ok h]
    exact (hf a s').trans hview

/-- Refusing changes nothing. -/
theorem Frame.refuse (c : Prop) [Decidable c] (e : ε) :
    Frame view (refuse c e : Procedure ε σ Unit) := by
  unfold Procedure.refuse
  split
  · exact Frame.fail e
  · exact Frame.pure ()

/-- Also under a condition. -/
theorem Frame.whenever {c : Prop} [Decidable c] {p : Procedure ε σ Unit} (hp : Frame view p) :
    Frame view (whenever c p) := by
  unfold Procedure.whenever
  split
  · exact hp
  · exact Frame.pure ()

end

/-- From a state with `pre`, the procedure returns a value and ends in a state with `post`,
or it fails in a state with `failed`. -/
def Triple (pre : σ → Prop) (p : Procedure ε σ α) (post : α → σ → Prop)
    (failed : σ → Prop) : Prop :=
  ∀ s, pre s → match p s with
    | (.ok a, s') => post a s'
    | (.error _, s') => failed s'

section

variable {pre failed : σ → Prop} {post : α → σ → Prop}

/-- The rule for returning. -/
theorem Triple.pure {a : α} (h : ∀ s, pre s → post a s) :
    Triple pre (Pure.pure a : Procedure ε σ α) post failed := h

/-- The rule for failing. -/
theorem Triple.fail {e : ε} (h : ∀ s, pre s → failed s) :
    Triple pre (fail e : Procedure ε σ α) post failed := h

/-- The rule for a change of state. -/
theorem Triple.modify {post : Unit → σ → Prop} {f : σ → σ} (h : ∀ s, pre s → post () (f s)) :
    Triple pre (modify f : Procedure ε σ Unit) post failed := h

variable {p : Procedure ε σ α}

/-- The rule of composition. -/
theorem Triple.bind {f : α → Procedure ε σ β} {post : β → σ → Prop}
    (mid : α → σ → Prop) (hp : Triple pre p mid failed)
    (hf : ∀ a, Triple (mid a) (f a) post failed) : Triple pre (p >>= f) post failed := by
  intro s hs
  have hmid := hp s hs
  rcases h : p s with ⟨e | a, s'⟩ <;> rw [h] at hmid
  · rw [bind_error h]
    exact hmid
  · rw [bind_ok h]
    exact hf a s' hmid

/-- The rule for a condition. -/
theorem Triple.whenever {c : Prop} [Decidable c] {p : Procedure ε σ Unit}
    (hp : Triple pre p (fun _ => pre) failed) :
    Triple pre (whenever c p) (fun _ => pre) failed := by
  unfold Procedure.whenever
  split
  · exact hp
  · exact Triple.pure fun s hs => hs

/-- The rule of consequence. -/
theorem Triple.consequence {pre' failed' : σ → Prop}
    {post' : α → σ → Prop} (h : Triple pre p post failed) (hpre : ∀ s, pre' s → pre s)
    (hpost : ∀ a s, post a s → post' a s) (hfailed : ∀ s, failed s → failed' s) :
    Triple pre' p post' failed' := by
  intro s hs
  have hend := h s (hpre s hs)
  rcases hp : p s with ⟨e | a, s'⟩ <;> rw [hp] at hend
  · exact hfailed s' hend
  · exact hpost a s' hend

/-- What is known of the state when a procedure starts is known of what it leaves alone
when it ends. -/
theorem Frame.triple {view : σ → ρ} (hp : Frame view p)
    (hpre : ∀ s s', view s' = view s → pre s → pre s') : Triple pre p (fun _ => pre) pre := by
  intro s hs
  have hend := hpre s (p s).2 (hp s) hs
  rcases h : p s with ⟨e | a, s'⟩ <;> rw [h] at hend <;> exact hend

end

end Procedure

end Ipxe.Library
