import Mathlib.Data.Set.Basic
import Lkm.Base.Transitions

/-!
# Loading and unloading

A module is loaded by a function that may fail, and unloaded by one that may not; both
may also run into a fault, and then nothing goes on. `Loadable.sys` is the loader: it
loads what is not loaded, with answers that the world chooses, and unloads what is.

`Clean` looks at one load alone: it fails and leaves the world as it was, or the unload
behind it does. This is all there is to know about whole histories: with answers from
a set `A` every history is `Tidy` exactly if all of `A` is clean (`tidy_iff`).
-/

namespace Base

/-- `ω` is the world, `α` are the answers that a load gets from it, `γ` is what a loaded
module remembers, `φ` are the faults and `ε` the errors that a load returns. -/
structure Loadable (ω α γ φ ε : Type) where
  init : α → ω → Except φ (Except ε γ × ω)
  exit : γ → ω → Except φ ω

namespace Loadable

inductive Stage (γ : Type) where
  | unloaded
  | loaded (g : γ)
  | broken

structure State (ω γ : Type) where
  stage : Stage γ
  world : ω

inductive Event (α : Type) where
  | load (a : α)
  | unload

variable {ω α γ φ ε : Type} (L : Loadable ω α γ φ ε)

/-- What a load leaves. -/
def afterInit (w : ω) : Except φ (Except ε γ × ω) → State ω γ
  | .ok (.ok g, w') => ⟨.loaded g, w'⟩
  | .ok (.error _, w') => ⟨.unloaded, w'⟩
  | .error _ => ⟨.broken, w⟩

/-- What an unload leaves. -/
def afterExit (w : ω) : Except φ ω → State ω γ
  | .ok w' => ⟨.unloaded, w'⟩
  | .error _ => ⟨.broken, w⟩

def next (s : State ω γ) : Event α → Option (State ω γ)
  | .load a =>
      match s.stage with
      | .unloaded => some (afterInit s.world (L.init a s.world))
      | _ => none
  | .unload =>
      match s.stage with
      | .loaded g => some (afterExit s.world (L.exit g s.world))
      | _ => none

/-- The loader, from the world `w₀`. -/
def sys (w₀ : ω) : TSys (State ω γ) (Event α) where
  init s := s = ⟨.unloaded, w₀⟩
  next := L.next

/-- The answers of a load are among `A`. -/
def Event.In (A : Set α) : Event α → Prop
  | .load a => a ∈ A
  | .unload => True

/-- Nothing has broken, and while the module is not loaded the world is as it was. -/
def State.Tidy (w₀ : ω) (s : State ω γ) : Prop :=
  match s.stage with
  | .unloaded => s.world = w₀
  | .loaded _ => True
  | .broken => False

/-- A loaded module can be unloaded without a trace, and there is none of an unloaded one. -/
def Ready (w₀ : ω) (s : State ω γ) : Prop :=
  match s.stage with
  | .unloaded => s.world = w₀
  | .loaded g => L.exit g s.world = .ok w₀
  | .broken => False

/-- A load alone: it fails without a trace, or the unload behind it leaves none. -/
def Clean (w₀ : ω) (a : α) : Prop := L.Ready w₀ (afterInit w₀ (L.init a w₀))

variable {L}

section

variable {w₀ : ω} {a : α}

theorem clean_iff_of_refused {e : ε} {w : ω} (h : L.init a w₀ = .ok (.error e, w)) :
    L.Clean w₀ a ↔ w = w₀ := by
  rw [Clean, h]
  exact Iff.rfl

theorem clean_iff_of_loaded {g : γ} {w : ω} (h : L.init a w₀ = .ok (.ok g, w)) :
    L.Clean w₀ a ↔ L.exit g w = .ok w₀ := by
  rw [Clean, h]
  exact Iff.rfl

theorem not_clean_of_fault {f : φ} (h : L.init a w₀ = .error f) : ¬ L.Clean w₀ a := by
  rw [Clean, h]
  exact id

end

theorem Ready.tidy {w₀ : ω} {s : State ω γ} (h : L.Ready w₀ s) : s.Tidy w₀ := by
  obtain ⟨stage, w⟩ := s
  cases stage with
  | unloaded => exact h
  | loaded g => trivial
  | broken => exact h

/-- One step, if the answers are clean. -/
theorem Ready.next {A : Set α} {w₀ : ω} (hA : ∀ a ∈ A, L.Clean w₀ a) {s s' : State ω γ}
    {e : Event α} (hs : L.Ready w₀ s) (he : e.In A) (hnext : L.next s e = some s') :
    L.Ready w₀ s' := by
  obtain ⟨stage, w⟩ := s
  cases e with
  | load a =>
      cases stage with
      | unloaded =>
          obtain rfl : w = w₀ := hs
          cases hnext
          exact hA a he
      | loaded g => cases hnext
      | broken => cases hnext
  | unload =>
      cases stage with
      | loaded g =>
          have hexit : L.exit g w = .ok w₀ := hs
          cases hnext
          rw [hexit]
          exact rfl
      | unloaded => cases hnext
      | broken => cases hnext

/-- A state that is tidy, and so is what an unload makes of it. -/
theorem ready_of_tidy {w₀ : ω} {s : State ω γ} (hs : s.Tidy w₀)
    (hunload : ∀ s', L.next s .unload = some s' → s'.Tidy w₀) : L.Ready w₀ s := by
  obtain ⟨stage, w⟩ := s
  cases stage with
  | unloaded => exact hs
  | broken => exact hs
  | loaded g =>
      have hexit := hunload _ rfl
      change L.exit g w = .ok w₀
      cases h : L.exit g w with
      | ok w' =>
          rw [h] at hexit
          exact congrArg Except.ok hexit
      | error e =>
          rw [h] at hexit
          exact hexit.elim

theorem tidy_iff {A : Set α} {w₀ : ω} :
    (∀ s, (L.sys w₀).Reach (fun _ e => e.In A) s → s.Tidy w₀) ↔ ∀ a ∈ A, L.Clean w₀ a := by
  constructor
  · intro h a ha
    have hload : (L.sys w₀).Reach (fun _ e => e.In A) (afterInit w₀ (L.init a w₀)) :=
      .step (.load a) (.init rfl) ha rfl
    apply ready_of_tidy (h _ hload)
    intro s' hnext
    exact h s' (.step .unload hload trivial hnext)
  · intro hA s hs
    apply Ready.tidy
    refine TSys.Reach.invariant ?_ ?_ hs
    · rintro s rfl
      exact rfl
    · intro s e s' hready he hnext
      exact Ready.next hA hready he hnext

end Loadable

end Base
