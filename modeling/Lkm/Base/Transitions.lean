import Mathlib.Logic.Relation
import Mathlib.Tactic.Common

/-!
# Transition systems

States, initial states, and events that may be enabled. `Reach P` are the states
of the runs whose every step meets `P`; `Reach.invariant` is the induction over
such a run, `run` executes a list of events, `Always` speaks of the states that
such a list passes, and `Leads` of the states that some list comes to.
-/

namespace Base

structure TSys (σ ε : Type) where
  init : σ → Prop
  next : σ → ε → Option σ

namespace TSys

variable {σ ε : Type} {T : TSys σ ε}

/-- The states that runs reach in which every step meets `P`. -/
inductive Reach (T : TSys σ ε) (P : σ → ε → Prop) : σ → Prop
  | init {s : σ} : T.init s → Reach T P s
  | step {s s' : σ} (e : ε) : Reach T P s → P s e → T.next s e = some s' → Reach T P s'

/-- All states that the system can reach. -/
def Reachable (T : TSys σ ε) : σ → Prop := T.Reach fun _ _ => True

/-- The invariant rule. -/
theorem Reach.invariant {P : σ → ε → Prop} {I : σ → Prop} (hinit : ∀ s, T.init s → I s)
    (hstep : ∀ s e s', I s → P s e → T.next s e = some s' → I s') {s : σ} (h : T.Reach P s) :
    I s := by
  induction h with
  | init hs => exact hinit _ hs
  | step e _ hP hnext ih => exact hstep _ e _ ih hP hnext

/-- Execute a list of events. -/
def run (T : TSys σ ε) : List ε → σ → Option σ
  | [], s => some s
  | e :: es, s => (T.next s e).bind fun s' => T.run es s'

/-- What a run of events that `P` lets through reaches. -/
theorem Reach.run {P : σ → ε → Prop} {es : List ε} {s s' : σ} (hs : T.Reach P s)
    (hes : ∀ e ∈ es, ∀ s, P s e) (h : T.run es s = some s') : T.Reach P s' := by
  induction es generalizing s with
  | nil =>
      cases h
      exact hs
  | cons e es ih =>
      obtain ⟨s₁, hnext, hrest⟩ := Option.bind_eq_some_iff.mp h
      exact ih (.step e hs (hes e List.mem_cons_self s) hnext)
        (fun e' he' => hes e' (List.mem_cons_of_mem e he')) hrest

/-- What an unrestricted run reaches is reachable. -/
theorem Reachable.run {es : List ε} {s s' : σ} (hs : T.Reachable s) (h : T.run es s = some s') :
    T.Reachable s' :=
  Reach.run hs (fun _ _ _ => trivial) h

/-- `P` holds in every state that the run passes, up to its first event that is not
enabled. -/
def Always (T : TSys σ ε) (P : σ → Prop) (es : List ε) (s : σ) : Prop :=
  ∀ before s', before <+: es → T.run before s = some s' → P s'

theorem always_nil {P : σ → Prop} {s : σ} : T.Always P [] s ↔ P s := by
  constructor
  · intro h
    exact h [] s List.nil_prefix rfl
  · intro h before s' hbefore hrun
    obtain rfl := List.prefix_nil.mp hbefore
    cases hrun
    exact h

theorem always_cons {P : σ → Prop} {e : ε} {es : List ε} {s s₁ : σ} (hnext : T.next s e = some s₁) :
    T.Always P (e :: es) s ↔ P s ∧ T.Always P es s₁ := by
  constructor
  · intro h
    refine ⟨h [] s List.nil_prefix rfl, ?_⟩
    intro before s' hbefore hrun
    apply h (e :: before) s' ((List.prefix_cons_inj e).mpr hbefore)
    rw [run, hnext]
    exact hrun
  · rintro ⟨hs, h⟩ before s' hbefore hrun
    rcases List.prefix_cons_iff.mp hbefore with rfl | ⟨before', rfl, hbefore'⟩
    · cases hrun
      exact hs
    · rw [run, hnext] at hrun
      exact h before' s' hbefore' hrun

/-- From an initial state, what holds alike in all reachable states. -/
theorem always_congr {P Q : σ → Prop} (hPQ : ∀ s, T.Reachable s → (P s ↔ Q s)) {s : σ}
    (hs : T.init s) (es : List ε) : T.Always P es s ↔ T.Always Q es s := by
  have hreach : ∀ before s', T.run before s = some s' → T.Reachable s' :=
    fun before s' hrun => Reachable.run (.init hs) hrun
  constructor
  · intro h before s' hbefore hrun
    exact (hPQ s' (hreach before s' hrun)).mp (h before s' hbefore hrun)
  · intro h before s' hbefore hrun
    exact (hPQ s' (hreach before s' hrun)).mpr (h before s' hbefore hrun)

/-- Some run goes from the one state to the other. -/
def Leads (T : TSys σ ε) : σ → σ → Prop :=
  Relation.ReflTransGen fun s s' => ∃ e, T.next s e = some s'

theorem Leads.single {s s' : σ} (e : ε) (h : T.next s e = some s') : T.Leads s s' :=
  Relation.ReflTransGen.single ⟨e, h⟩

theorem Leads.trans {s s₁ s₂ : σ} (h₁ : T.Leads s s₁) (h₂ : T.Leads s₁ s₂) : T.Leads s s₂ :=
  Relation.ReflTransGen.trans h₁ h₂

theorem Reachable.leads {s s' : σ} (hs : T.Reachable s) (h : T.Leads s s') : T.Reachable s' := by
  induction h with
  | refl => exact hs
  | tail _ hstep ih =>
      obtain ⟨e, hnext⟩ := hstep
      exact .step e ih trivial hnext

end TSys

end Base
