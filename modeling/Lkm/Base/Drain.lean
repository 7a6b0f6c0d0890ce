import Mathlib.Tactic.Common

/-!
# Calls repeated until one yields nothing

A reader that gets its data in pieces calls again and again, from where the last call
left off, and stops when a call comes back empty. `drain step rs s` is what it has got in
the end: `step r s` is one call with the parameter `r` (a length, a buffer's room) in the
state `s`, and `none` if the call fails. The second component says whether the reader has
seen the empty call; `drain_ended` is the rule for that.
-/

namespace Base

variable {ρ σ α : Type}

/-- Everything that the calls yield up to the first empty one, and whether there was one. -/
def drain (step : ρ → σ → Option (List α × σ)) : List ρ → σ → List α × Bool
  | [], _ => ([], false)
  | r :: rs, s =>
      match step r s with
      | none => ([], false)
      | some ([], _) => ([], true)
      | some (x :: xs, s') =>
          let rest := drain step rs s'
          (x :: xs ++ rest.1, rest.2)

variable {step : ρ → σ → Option (List α × σ)} {r : ρ} {rs : List ρ} {s s' : σ} {xs : List α}

theorem drain_stop (h : step r s = some ([], s')) : drain step (r :: rs) s = ([], true) := by
  rw [drain, h]

theorem drain_more (h : step r s = some (xs, s')) (hne : xs ≠ []) :
    drain step (r :: rs) s = (xs ++ (drain step rs s').1, (drain step rs s').2) := by
  cases xs with
  | nil => exact absurd rfl hne
  | cons x xs => rw [drain, h]

/-- Calls that yield something can be counted down by `μ`: with more calls than that, one is
empty. `R` is what the parameters satisfy and `J` what the states do. -/
theorem drain_ended {R : ρ → Prop} {J : σ → Prop} {μ : σ → Nat}
    (hstep : ∀ r s, R r → J s → ∃ xs s', step r s = some (xs, s') ∧
      (xs ≠ [] → J s' ∧ μ s' < μ s))
    (hrs : ∀ r ∈ rs, R r) (hJ : J s) (hlong : μ s < rs.length) : (drain step rs s).2 = true := by
  induction rs generalizing s with
  | nil => cases hlong
  | cons r rs ih =>
      obtain ⟨xs, s', hone, hmore⟩ := hstep r s (hrs r (by simp)) hJ
      by_cases hne : xs = []
      · subst hne
        rw [drain_stop hone]
      · obtain ⟨hJ', hless⟩ := hmore hne
        rw [drain_more hone hne]
        rw [List.length_cons] at hlong
        exact ih (fun r hr => hrs r (by simp [hr])) hJ' (by omega)

end Base
