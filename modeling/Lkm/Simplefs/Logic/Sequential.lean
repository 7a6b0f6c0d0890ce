import Lkm.Simplefs.Locks

/-!
# Calls that run alone, seen on the volume

For a call that no other thread disturbs, only the volume matters: who holds a
mutex, the reference counts and the ghost fields are out of the picture.
`vwp S w T p Q v` says of the code `p`, started on volume `v` in the world `w`:
every volume on the way satisfies `S`, every fault `T`, and a result `a` on
volume `v'` satisfies `Q a v'`. There is one rule for each kernel
primitive; `vwp_run` is what a `vwp` says about `Prog.run` and `Prog.visits`,
`vwp_runs` what it says about a run of calls.
-/

namespace Lkm.Simplefs

open Base

/-- The context of a call that runs alone in the world `w`. -/
def seqCtx (S : Vol → Prop) (w : Outside) (T : Fault → Prop) :
    Ctx Mem Mutex Site Fault Query.Answer :=
  Ctx.solo 0 w (fun m => S m.mem.toVol) (fun e _ => T e)

/-- The weakest precondition on volumes. Irreducible: the rules below are all
there is to it, and unification must not unfold the code under it. -/
@[irreducible] def vwp (S : Vol → Prop) (w : Outside) (T : Fault → Prop) {α : Type} (p : Sfs α)
    (Q : α → Vol → Prop) (v : Vol) : Prop :=
  ∀ m : Machine, m.mem.toVol = v →
    p.wp (seqCtx S w T) (fun a m' => Q a m'.mem.toVol) m

/-- Any fault may stop a call: what counts is the volume it leaves. -/
abbrev AnyFault (_ : Fault) : Prop := True

section Rules

variable {S : Vol → Prop} {w : Outside} {T : Fault → Prop} {α β : Type} {v : Vol}

theorem vwp_ret {Q : α → Vol → Prop} {a : α} (h : Q a v) : vwp S w T (.ret a) Q v := by
  unfold vwp
  intro m hm
  subst hm
  exact h

theorem vwp_pure {Q : α → Vol → Prop} {a : α} (h : Q a v) : vwp S w T (pure a) Q v :=
  vwp_ret h

theorem vwp_bind {Q : β → Vol → Prop} {p : Sfs α} {f : α → Sfs β}
    (h : vwp S w T p (fun a v' => vwp S w T (f a) Q v') v) :
    vwp S w T (p >>= f) Q v := by
  unfold vwp at h ⊢
  intro m hm
  rw [Prog.wp_bind]
  exact Prog.wp_mono (fun a m' ha => ha m' rfl) (h m hm)

theorem vwp_mono {Q Q' : α → Vol → Prop} {p : Sfs α} (hQ : ∀ a v', Q a v' → Q' a v')
    (h : vwp S w T p Q v) : vwp S w T p Q' v := by
  unfold vwp at h ⊢
  exact fun m hm => Prog.wp_mono (fun a _ ha => hQ a _ ha) (h m hm)

theorem vwp_weaken {S' : Vol → Prop} {Q : α → Vol → Prop} {p : Sfs α} (hS : ∀ v', S v' → S' v')
    (h : vwp S w T p Q v) : vwp S' w T p Q v := by
  unfold vwp at h ⊢
  intro m hm
  exact Prog.wp_weaken (fun m' hm' => hS _ hm') (h m hm)

/-- The volume at the end satisfies `S`, too. -/
theorem vwp_keep {Q : α → Vol → Prop} {p : Sfs α} (hS : S v) (h : vwp S w T p Q v) :
    vwp S w T p (fun a v' => S v' ∧ Q a v') v := by
  unfold vwp at h ⊢
  intro m hm
  refine Prog.wp_inv (fun m₁ m₂ hr hinv => ?_) ?_ (h m hm)
  · rwa [← show m₁ = m₂ from hr]
  · show S m.mem.toVol
    rwa [hm]

theorem vwp_readMem {Q : Mem → Vol → Prop} (h : ∀ m : Mem, m.toVol = v → Q m v) :
    vwp S w T readMem Q v := by
  unfold vwp
  intro m hm m' hr
  subst hr
  subst hm
  exact h m.mem rfl

/-- An update that leaves the volume alone. -/
theorem vwp_update {Q : Unit → Vol → Prop} {f : Mem → Mem} (hf : ∀ m, (f m).toVol = m.toVol)
    (hS : S v) (h : Q () v) : vwp S w T (update f) Q v := by
  unfold vwp
  intro m hm m' hr
  subst hr
  subst hm
  refine ⟨⟨?_, trivial⟩, ?_⟩
  · show S (f m.mem).toVol
    rw [hf]
    exact hS
  · show Q () (f m.mem).toVol
    rw [hf]
    exact h

theorem vwp_updateVol {Q : Unit → Vol → Prop} {f : Vol → Vol} (hS : S (f v)) (h : Q () (f v)) :
    vwp S w T (updateVol f) Q v := by
  unfold vwp
  intro m hm m' hr
  subst hr
  subst hm
  exact ⟨⟨hS, trivial⟩, h⟩

theorem vwp_stop {Q : α → Vol → Prop} {e : Fault} (h : T e) : vwp S w T (stop e) Q v := by
  unfold vwp
  exact fun _ _ _ _ => h

theorem vwp_ask {q : Query} {Q : q.Answer → Vol → Prop} (h : Q (w.answer q) v) :
    vwp S w T (ask q) Q v := by
  unfold vwp
  intro m hm m' hr a ha
  subst hr
  subst hm
  subst ha
  exact h

theorem vwp_lock {Q : Bool → Vol → Prop} {i : Site} (hS : S v) (h : Q false v)
    (hi : w.interrupted i = true → Q true v) : vwp S w T (mutexLockInterruptible i) Q v := by
  unfold vwp
  intro m hm m' hr
  subst hr
  subst hm
  exact ⟨trivial, fun _ => ⟨⟨hS, trivial⟩, h⟩, hi⟩

/-- A wait, and what the code does when it was interrupted. -/
theorem vwp_lockOr {Q : α → Vol → Prop} {i : Site} {p q : Sfs α} (hS : S v)
    (hp : w.interrupted i = true → vwp S w T p Q v) (hq : vwp S w T q Q v) :
    vwp S w T (mutexLockInterruptible i >>= fun b => if b = true then p else q) Q v :=
  vwp_bind (vwp_lock hS hq hp)

theorem vwp_unlock {Q : Unit → Vol → Prop} {x : Mutex} (hS : S v) (h : Q () v) :
    vwp S w T (mutexUnlock x) Q v := by
  unfold vwp
  intro m hm m' hr
  subst hr
  subst hm
  exact ⟨trivial, ⟨hS, trivial⟩, h⟩

theorem vwp_liftFault {Q : α → Vol → Prop} {x : Except Fault α}
    (hok : ∀ a, x = .ok a → Q a v) (herr : ∀ e, x = .error e → T e) :
    vwp S w T (liftFault x) Q v := by
  cases x with
  | ok a => exact vwp_pure (hok a rfl)
  | error e => exact vwp_stop (herr e rfl)

theorem vwp_inBlock {Q : Unit → Vol → Prop} {b off len : Nat}
    (hT : simplefsDefaultBlockSize < off + len → T (.outOfBlock b off len))
    (h : off + len ≤ simplefsDefaultBlockSize → Q () v) :
    vwp S w T (inBlock b off len) Q v := by
  unfold inBlock
  by_cases hin : off + len ≤ simplefsDefaultBlockSize
  · rw [if_pos hin]
    exact vwp_pure (h hin)
  · rw [if_neg hin]
    exact vwp_stop (hT (by omega))

/-- Following a pointer to a private inode. -/
theorem vwp_simplefsInode {Q : SimplefsInode → Vol → Prop} {p : Path}
    (hT : v.priv p = none → T .nullPrivate) (h : ∀ i, v.priv p = some i → Q i v) :
    vwp S w T (simplefsInode p) Q v := by
  unfold simplefsInode
  refine vwp_bind (vwp_readMem fun m hm => ?_)
  rw [show m.priv p = v.priv p by rw [hm]]
  cases hp : v.priv p with
  | none => exact vwp_stop (hT hp)
  | some i => exact vwp_pure (h i hp)

theorem vwp_sbBread {P : Platform} {Q : Bool → Vol → Prop} {b : Nat} (hS : S v)
    (hin : b < P.nrBlocks → Q true v) (hout : P.nrBlocks ≤ b → Q false v) :
    vwp S w T (sbBread P b) Q v := by
  unfold sbBread
  by_cases hb : b < P.nrBlocks
  · rw [if_pos hb]
    exact vwp_bind (vwp_update (fun m => Mem.getBh_toVol m b) hS (vwp_pure (hin hb)))
  · rw [if_neg hb]
    exact vwp_pure (hout (by omega))

theorem vwp_sbBreadOrBug {P : Platform} {Q : Unit → Vol → Prop} {b : Nat} (hS : S v)
    (hT : P.nrBlocks ≤ b → T .bug) (h : b < P.nrBlocks → Q () v) :
    vwp S w T (sbBreadOrBug P b) Q v := by
  unfold sbBreadOrBug
  refine vwp_bind (vwp_sbBread hS (fun hb => ?_) (fun hb => ?_))
  · exact vwp_pure (h hb)
  · exact vwp_stop (hT hb)

theorem vwp_brelse {Q : Unit → Vol → Prop} {b : Nat} (hS : S v) (h : Q () v) :
    vwp S w T (update (·.brelse b)) Q v :=
  vwp_update (fun m => Mem.brelse_toVol m b) hS h

/-- What the logic says about a call that runs alone. -/
theorem vwp_run {p : Sfs α} {Q : α → Vol → Prop} {m : Machine} (hS : S m.mem.toVol)
    (h : vwp S w T p Q m.mem.toVol) :
    (∀ m' ∈ p.visits w 0 m, S m'.mem.toVol) ∧
      (p.run w 0 m).Meets (fun a m' => Q a m'.mem.toVol) (fun _ => True) (fun e _ => T e) := by
  unfold vwp at h
  have hwp := Prog.wp_run (C := seqCtx S w T) (fun _ _ => rfl) (w := w)
    ⟨fun _ hi => hi, fun _ => rfl⟩ hS (h m rfl)
  exact ⟨hwp.1, hwp.2.mono (fun _ _ h => h) (fun _ _ => trivial) (fun _ _ h => h)⟩

/-- A call that cannot fault and whose waits are not interrupted returns. -/
theorem vwp_done {p : Sfs α} {Q : α → Vol → Prop} {m : Machine} (hp : Keeps safePolicy p .empty)
    (hw : ∀ i, w.interrupted i = false) (hfree : ∀ x, m.owner x = none)
    (h : vwp (fun _ => True) w (fun _ => False) p Q m.mem.toVol) :
    ∃ a m', p.run w 0 m = .done a m' ∧ Q a m'.mem.toVol ∧ ∀ x, m'.owner x = none := by
  have hrun := (vwp_run trivial h).2
  have hlock := LockSafe.run hp (w := w) (t := 0) (fun i hi => by simp [hw i] at hi) hfree
  cases hend : p.run w 0 m with
  | done a m' =>
      rw [hend] at hrun hlock
      exact ⟨a, m', rfl, hrun, hlock⟩
  | hung m' =>
      rw [hend] at hlock
      exact hlock.elim
  | fault e m' =>
      rw [hend] at hrun
      exact hrun.elim

/-- Such a call, with what is said about the states on the way. -/
theorem vwp_returns {p : Sfs α} {Q : α → Vol → Prop} {m : Machine} (hp : Keeps safePolicy p .empty)
    (hw : ∀ i, w.interrupted i = false) (hfree : ∀ x, m.owner x = none) (hS : S m.mem.toVol)
    (h : vwp S w (fun _ => False) p Q m.mem.toVol) :
    (∀ m' ∈ p.visits w 0 m, S m'.mem.toVol) ∧
      ∃ a m', p.run w 0 m = .done a m' ∧ Q a m'.mem.toVol ∧ ∀ x, m'.owner x = none :=
  ⟨(vwp_run hS h).1, vwp_done hp hw hfree (vwp_weaken (fun _ _ => trivial) h)⟩

/-- The run rule on volumes: `J` holds between calls, `I` in every state. -/
theorem vwp_runs {P : Platform} {A : Vol → Step → Prop} {J I : Vol → Prop}
    (hJI : ∀ v, J v → I v)
    (hstep : ∀ v s, J v → A v s →
      vwp I s.1 T (s.2.prog P) (fun _ v' => J v') v)
    {steps : List Step} {m : Machine} (hJ : J m.mem.toVol) (hA : Issues P A steps m) :
    (∀ m' ∈ states P steps m, I m'.mem.toVol) ∧
      (outcome P steps m).Meets (fun _ m' => J m'.mem.toVol) (fun _ => True) (fun e _ => T e) := by
  refine runs_inv (J := fun m => J m.mem.toVol) (I := fun m => I m.mem.toVol) (fun m => hJI _)
    (fun m s hJ hA => ?_) steps m hJ hA
  exact vwp_run (hJI _ hJ) (hstep _ s hJ hA)

end Rules

end Lkm.Simplefs
