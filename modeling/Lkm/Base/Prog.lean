import Mathlib.Logic.Function.Basic
import Mathlib.Tactic.Common

/-!
# Programs over shared memory and mutexes

A small language for code that runs in a kernel: it reads and updates a shared
memory `σ`, takes and drops mutexes `μ` (a wait at program point `ι` may be
interrupted), asks its environment questions (`ρ q` is the type of the answers
to `q`), and may stop with a fault `φ`. The module gives

* **syntax** — `Prog`, a monad, so that code is written in `do` notation;
* **one call, alone** — `Prog.run` (the outcome, given what the outside world
  does: `World`) and `Prog.visits` (every state passed through on the way);
* **a program logic** — `Prog.wp`: a postcondition, an invariant that every
  step keeps, a rely on the steps of others and a guarantee about one's own;
* **sequences of calls** — `runs` and `visitsAll`, with the run rule
  `runs_inv` and the refinement rule `runs_refines`.

Threads that interleave are in `Lkm.Base.Threads`, over the same `Prog.wp`.
-/

namespace Base

/-- A program with result `α`. -/
inductive Prog (σ μ ι φ : Type) {κ : Type} (ρ : κ → Type) (α : Type) : Type where
  | ret (a : α)
  | get (k : σ → Prog σ μ ι φ ρ α)
  | act (f : σ → σ) (k : Prog σ μ ι φ ρ α)
  | lock (i : ι) (x : μ) (k : Bool → Prog σ μ ι φ ρ α)
  | unlock (x : μ) (k : Prog σ μ ι φ ρ α)
  | ask (q : κ) (k : ρ q → Prog σ μ ι φ ρ α)
  | fail (e : φ)

/-- The shared memory and, for each mutex, the thread that holds it. -/
structure Mach (σ μ : Type) where
  mem : σ
  owner : μ → Option Nat

/-- What the outside world does during one call: which waits are interrupted,
and how the questions are answered. A wait is interrupted when some thread that is
not part of the run holds the mutex for a while. -/
structure World (ι : Type) {κ : Type} (ρ : κ → Type) where
  interrupted : ι → Bool
  answer : (q : κ) → ρ q

/-- How a call ends: it returns, waits forever for a mutex, or faults. -/
inductive Outcome (σ μ φ α : Type) where
  | done (a : α) (m : Mach σ μ)
  | hung (m : Mach σ μ)
  | fault (e : φ) (m : Mach σ μ)

section

variable {σ μ ι φ κ α β : Type} {ρ : κ → Type}

namespace Mach

variable [DecidableEq μ]

/-- Update the memory. -/
def upd (m : Mach σ μ) (f : σ → σ) : Mach σ μ := { m with mem := f m.mem }

/-- Thread `t` takes `x`. -/
def acquire (m : Mach σ μ) (t : Nat) (x : μ) : Mach σ μ :=
  { m with owner := Function.update m.owner x (some t) }

/-- `x` becomes free, whoever held it. -/
def release (m : Mach σ μ) (x : μ) : Mach σ μ :=
  { m with owner := Function.update m.owner x none }

omit [DecidableEq μ] in
@[simp] theorem upd_mem (m : Mach σ μ) (f : σ → σ) : (m.upd f).mem = f m.mem := rfl

omit [DecidableEq μ] in
@[simp] theorem upd_owner (m : Mach σ μ) (f : σ → σ) : (m.upd f).owner = m.owner := rfl

@[simp] theorem acquire_mem (m : Mach σ μ) (t : Nat) (x : μ) : (m.acquire t x).mem = m.mem := rfl

@[simp] theorem release_mem (m : Mach σ μ) (x : μ) : (m.release x).mem = m.mem := rfl

@[simp] theorem acquire_owner (m : Mach σ μ) (t : Nat) (x : μ) :
    (m.acquire t x).owner = Function.update m.owner x (some t) := rfl

@[simp] theorem release_owner (m : Mach σ μ) (x : μ) :
    (m.release x).owner = Function.update m.owner x none := rfl

end Mach

namespace Outcome

/-- The machine at the end, however the call ended. -/
def mach : Outcome σ μ φ α → Mach σ μ
  | .done _ m | .hung m | .fault _ m => m

@[simp] theorem mach_done (a : α) (m : Mach σ μ) : (done (φ := φ) a m).mach = m := rfl
@[simp] theorem mach_hung (m : Mach σ μ) : (hung (φ := φ) (α := α) m).mach = m := rfl
@[simp] theorem mach_fault (e : φ) (m : Mach σ μ) : (fault (α := α) e m).mach = m := rfl

/-- The fault, if the call ended in one. -/
def fault? : Outcome σ μ φ α → Option φ
  | .fault e _ => some e
  | _ => none

/-- The result, if the call returned. -/
def result? : Outcome σ μ φ α → Option α
  | .done a _ => some a
  | _ => none

theorem eq_done {o : Outcome σ μ φ α} {a : α} (h : o.result? = some a) : o = .done a o.mach := by
  cases o <;> simp_all [result?]

/-- How to say that a run returns, by evaluating it. -/
theorem exists_done {o : Outcome σ μ φ α} {a : α} {P : Mach σ μ → Prop}
    (h : o.result? = some a ∧ P o.mach) : ∃ m, o = .done a m ∧ P m :=
  ⟨o.mach, eq_done h.1, h.2⟩

/-- The outcome satisfies the condition for the way it ended. -/
def Meets (Q : α → Mach σ μ → Prop) (H : Mach σ μ → Prop) (F : φ → Mach σ μ → Prop) :
    Outcome σ μ φ α → Prop
  | .done a m => Q a m
  | .hung m => H m
  | .fault e m => F e m

theorem Meets.mono {Q Q' : α → Mach σ μ → Prop} {H H' : Mach σ μ → Prop}
    {F F' : φ → Mach σ μ → Prop} {o : Outcome σ μ φ α} (hQ : ∀ a m, Q a m → Q' a m)
    (hH : ∀ m, H m → H' m) (hF : ∀ e m, F e m → F' e m) (h : o.Meets Q H F) :
    o.Meets Q' H' F' := by
  cases o with
  | done a m => exact hQ a m h
  | hung m => exact hH m h
  | fault e m => exact hF e m h

/-- Continue after a call that returned. -/
def bind (o : Outcome σ μ φ α) (f : α → Mach σ μ → Outcome σ μ φ β) : Outcome σ μ φ β :=
  match o with
  | .done a m => f a m
  | .hung m => .hung m
  | .fault e m => .fault e m

@[simp] theorem bind_done (a : α) (m : Mach σ μ) (f : α → Mach σ μ → Outcome σ μ φ β) :
    (done a m).bind f = f a m := rfl
@[simp] theorem bind_hung (m : Mach σ μ) (f : α → Mach σ μ → Outcome σ μ φ β) :
    (hung m).bind f = .hung m := rfl
@[simp] theorem bind_fault (e : φ) (m : Mach σ μ) (f : α → Mach σ μ → Outcome σ μ φ β) :
    (fault e m).bind f = .fault e m := rfl

end Outcome

namespace Prog

/-! ## The monad -/

/-- Sequencing. -/
def bind : Prog σ μ ι φ ρ α → (α → Prog σ μ ι φ ρ β) → Prog σ μ ι φ ρ β
  | .ret a, f => f a
  | .get k, f => .get fun s => (k s).bind f
  | .act g k, f => .act g (k.bind f)
  | .lock i x k, f => .lock i x fun b => (k b).bind f
  | .unlock x k, f => .unlock x (k.bind f)
  | .ask q k, f => .ask q fun a => (k a).bind f
  | .fail e, _ => .fail e

instance : Monad (Prog σ μ ι φ ρ) where
  pure := .ret
  bind := Prog.bind

@[simp] theorem pure_eq (a : α) : (pure a : Prog σ μ ι φ ρ α) = .ret a := rfl

@[simp] theorem ret_bind (a : α) (f : α → Prog σ μ ι φ ρ β) : (Prog.ret a >>= f) = f a := rfl

@[simp] theorem get_bind (k : σ → Prog σ μ ι φ ρ α) (f : α → Prog σ μ ι φ ρ β) :
    (Prog.get k >>= f) = .get fun s => k s >>= f := rfl

@[simp] theorem act_bind (g : σ → σ) (k : Prog σ μ ι φ ρ α) (f : α → Prog σ μ ι φ ρ β) :
    (Prog.act g k >>= f) = .act g (k >>= f) := rfl

@[simp] theorem lock_bind (i : ι) (x : μ) (k : Bool → Prog σ μ ι φ ρ α)
    (f : α → Prog σ μ ι φ ρ β) : (Prog.lock i x k >>= f) = .lock i x fun b => k b >>= f := rfl

@[simp] theorem unlock_bind (x : μ) (k : Prog σ μ ι φ ρ α) (f : α → Prog σ μ ι φ ρ β) :
    (Prog.unlock x k >>= f) = .unlock x (k >>= f) := rfl

@[simp] theorem ask_bind (q : κ) (k : ρ q → Prog σ μ ι φ ρ α) (f : α → Prog σ μ ι φ ρ β) :
    (Prog.ask q k >>= f) = .ask q fun a => k a >>= f := rfl

@[simp] theorem fail_bind (e : φ) (f : α → Prog σ μ ι φ ρ β) :
    ((Prog.fail e : Prog σ μ ι φ ρ α) >>= f) = .fail e := rfl

/-! ## One call, alone -/

variable [DecidableEq μ]

/-- Run a call of thread `t` to its end, with no other thread in between. -/
def run (w : World ι ρ) (t : Nat) : Prog σ μ ι φ ρ α → Mach σ μ → Outcome σ μ φ α
  | .ret a, m => .done a m
  | .get k, m => (k m.mem).run w t m
  | .act f k, m => k.run w t (m.upd f)
  | .lock i x k, m =>
      if w.interrupted i then (k true).run w t m
      else if m.owner x = none then (k false).run w t (m.acquire t x)
      else .hung m
  | .unlock x k, m => k.run w t (m.release x)
  | .ask q k, m => (k (w.answer q)).run w t m
  | .fail e, m => .fault e m

/-- The states that `run` passes through, first to last. A crash of the
machine can happen in any of them. -/
def visits (w : World ι ρ) (t : Nat) : Prog σ μ ι φ ρ α → Mach σ μ → List (Mach σ μ)
  | .ret _, m => [m]
  | .get k, m => (k m.mem).visits w t m
  | .act f k, m => m :: k.visits w t (m.upd f)
  | .lock i x k, m =>
      if w.interrupted i then (k true).visits w t m
      else if m.owner x = none then m :: (k false).visits w t (m.acquire t x)
      else [m]
  | .unlock x k, m => m :: k.visits w t (m.release x)
  | .ask q k, m => (k (w.answer q)).visits w t m
  | .fail _, m => [m]

theorem run_bind (w : World ι ρ) (t : Nat) (p : Prog σ μ ι φ ρ α) (f : α → Prog σ μ ι φ ρ β)
    (m : Mach σ μ) : (p >>= f).run w t m = (p.run w t m).bind fun a m' => (f a).run w t m' := by
  induction p generalizing m with
  | ret a => rfl
  | get k ih => exact ih m.mem m
  | act g k ih => exact ih (m.upd g)
  | lock i x k ih =>
      simp only [lock_bind, run]
      split
      · exact ih true m
      · split
        · exact ih false (m.acquire t x)
        · rfl
  | unlock x k ih => exact ih (m.release x)
  | ask q k ih => exact ih (w.answer q) m
  | fail e => rfl

/-! ## The program logic -/

end Prog

/-- What a proof about the code of thread `tid` may assume and must show.
`rely` bounds what others do between two steps; every step keeps `inv` and
meets `guar`; `onLock` and `onUnlock` are asserted at each lock operation. -/
structure Ctx (σ μ ι φ : Type) {κ : Type} (ρ : κ → Type) where
  tid : Nat
  rely : Mach σ μ → Mach σ μ → Prop
  inv : Mach σ μ → Prop
  guar : Mach σ μ → Mach σ μ → Prop
  mayInterrupt : ι → Prop
  mayAnswer : (q : κ) → ρ q → Prop
  mayFault : φ → Mach σ μ → Prop
  onLock : ι → μ → Mach σ μ → Prop
  onUnlock : μ → Mach σ μ → Prop

namespace Ctx

/-- The step from `m` to `m'` is allowed. -/
def Allows (C : Ctx σ μ ι φ ρ) (m m' : Mach σ μ) : Prop := C.inv m' ∧ C.guar m m'

/-- A world that does only what the context admits. -/
structure Admits (C : Ctx σ μ ι φ ρ) (w : World ι ρ) : Prop where
  interrupted : ∀ i, w.interrupted i = true → C.mayInterrupt i
  answer : ∀ q, C.mayAnswer q (w.answer q)

end Ctx

namespace Prog

variable [DecidableEq μ]

/-- The weakest precondition of a program in a context. -/
def wp (C : Ctx σ μ ι φ ρ) : Prog σ μ ι φ ρ α → (α → Mach σ μ → Prop) → Mach σ μ → Prop
  | .ret a, Q, m => Q a m
  | .get k, Q, m => ∀ m', C.rely m m' → (k m'.mem).wp C Q m'
  | .act f k, Q, m => ∀ m', C.rely m m' → C.Allows m' (m'.upd f) ∧ k.wp C Q (m'.upd f)
  | .lock i x k, Q, m => ∀ m', C.rely m m' → C.onLock i x m' ∧
      (m'.owner x = none →
        C.Allows m' (m'.acquire C.tid x) ∧ (k false).wp C Q (m'.acquire C.tid x)) ∧
      (C.mayInterrupt i → (k true).wp C Q m')
  | .unlock x k, Q, m => ∀ m', C.rely m m' → C.onUnlock x m' ∧
      C.Allows m' (m'.release x) ∧ k.wp C Q (m'.release x)
  | .ask q k, Q, m => ∀ m', C.rely m m' → ∀ a, C.mayAnswer q a → (k a).wp C Q m'
  | .fail e, _, m => ∀ m', C.rely m m' → C.mayFault e m'

/-- Sequencing composes weakest preconditions. -/
theorem wp_bind (C : Ctx σ μ ι φ ρ) (p : Prog σ μ ι φ ρ α) (f : α → Prog σ μ ι φ ρ β)
    (Q : β → Mach σ μ → Prop) (m : Mach σ μ) :
    (p >>= f).wp C Q m ↔ p.wp C (fun a m' => (f a).wp C Q m') m := by
  induction p generalizing m with
  | ret a => exact Iff.rfl
  | get k ih => exact forall_congr' fun m' => imp_congr_right fun _ => ih m'.mem m'
  | act g k ih =>
      exact forall_congr' fun m' => imp_congr_right fun _ =>
        and_congr_right fun _ => ih (m'.upd g)
  | lock i x k ih =>
      exact forall_congr' fun m' => imp_congr_right fun _ => and_congr_right fun _ =>
        and_congr (imp_congr_right fun _ => and_congr_right fun _ => ih false _)
          (imp_congr_right fun _ => ih true m')
  | unlock x k ih =>
      exact forall_congr' fun m' => imp_congr_right fun _ => and_congr_right fun _ =>
        and_congr_right fun _ => ih (m'.release x)
  | ask q k ih =>
      exact forall_congr' fun m' => imp_congr_right fun _ => forall_congr' fun a =>
        imp_congr_right fun _ => ih a m'
  | fail e => exact Iff.rfl

/-- The consequence rule. -/
theorem wp_mono {C : Ctx σ μ ι φ ρ} {p : Prog σ μ ι φ ρ α} {Q Q' : α → Mach σ μ → Prop}
    {m : Mach σ μ} (hQ : ∀ a m', Q a m' → Q' a m') (h : p.wp C Q m) : p.wp C Q' m := by
  induction p generalizing m with
  | ret a => exact hQ a m h
  | get k ih => exact fun m' hr => ih m'.mem (h m' hr)
  | act g k ih => exact fun m' hr => ⟨(h m' hr).1, ih (h m' hr).2⟩
  | lock i x k ih =>
      exact fun m' hr => ⟨(h m' hr).1,
        fun hx => ⟨((h m' hr).2.1 hx).1, ih false ((h m' hr).2.1 hx).2⟩,
        fun hi => ih true ((h m' hr).2.2 hi)⟩
  | unlock x k ih => exact fun m' hr => ⟨(h m' hr).1, (h m' hr).2.1, ih (h m' hr).2.2⟩
  | ask q k ih => exact fun m' hr a ha => ih a (h m' hr a ha)
  | fail e => exact h

/-- The rule for code in two parts: a postcondition of the first is enough
for the second. -/
theorem wp_seq {C : Ctx σ μ ι φ ρ} {p : Prog σ μ ι φ ρ α} {f : α → Prog σ μ ι φ ρ β}
    {R : α → Mach σ μ → Prop} {Q : β → Mach σ μ → Prop} {m : Mach σ μ}
    (hp : p.wp C R m) (hf : ∀ a m', R a m' → (f a).wp C Q m') : (p >>= f).wp C Q m :=
  (wp_bind C p f Q m).mpr (wp_mono hf hp)

/-- The invariant may be added to any postcondition. -/
theorem wp_inv {C : Ctx σ μ ι φ ρ} (hrely : ∀ m m', C.rely m m' → C.inv m → C.inv m')
    {p : Prog σ μ ι φ ρ α} {Q : α → Mach σ μ → Prop} {m : Mach σ μ} (hinv : C.inv m)
    (h : p.wp C Q m) : p.wp C (fun a m' => C.inv m' ∧ Q a m') m := by
  induction p generalizing m with
  | ret a => exact ⟨hinv, h⟩
  | get k ih => exact fun m' hr => ih m'.mem (hrely m m' hr hinv) (h m' hr)
  | act g k ih => exact fun m' hr => ⟨(h m' hr).1, ih (h m' hr).1.1 (h m' hr).2⟩
  | lock i x k ih =>
      refine fun m' hr => ⟨(h m' hr).1, fun hx => ?_, fun hi => ?_⟩
      · obtain ⟨hallow, hk⟩ := (h m' hr).2.1 hx
        exact ⟨hallow, ih false hallow.1 hk⟩
      · exact ih true (hrely m m' hr hinv) ((h m' hr).2.2 hi)
  | unlock x k ih =>
      exact fun m' hr => ⟨(h m' hr).1, (h m' hr).2.1, ih (h m' hr).2.1.1 (h m' hr).2.2⟩
  | ask q k ih => exact fun m' hr a ha => ih a (hrely m m' hr hinv) (h m' hr a ha)
  | fail e => exact h

/-- What the logic says about a call that runs alone: every state on the way
keeps the invariant, and the outcome is the one the postcondition, the fault
condition or an asserted wait describes. -/
theorem wp_run {C : Ctx σ μ ι φ ρ} (hrefl : ∀ m, C.inv m → C.rely m m) {w : World ι ρ}
    (hw : C.Admits w) {p : Prog σ μ ι φ ρ α} {Q : α → Mach σ μ → Prop} {m : Mach σ μ}
    (hinv : C.inv m) (h : p.wp C Q m) :
    (∀ m' ∈ p.visits w C.tid m, C.inv m') ∧
      (p.run w C.tid m).Meets Q
        (fun m' => C.inv m' ∧ ∃ i x, C.onLock i x m' ∧ m'.owner x ≠ none) C.mayFault := by
  induction p generalizing m with
  | ret a => exact ⟨by simpa [visits] using hinv, h⟩
  | get k ih => exact ih m.mem hinv (h m (hrefl m hinv))
  | act g k ih =>
      obtain ⟨hallow, hk⟩ := h m (hrefl m hinv)
      obtain ⟨hv, hrest⟩ := ih hallow.1 hk
      exact ⟨by simpa [visits] using ⟨hinv, hv⟩, hrest⟩
  | lock i x k ih =>
      obtain ⟨hlock, hfree, hintr⟩ := h m (hrefl m hinv)
      simp only [visits, run]
      by_cases hi : w.interrupted i = true
      · rw [if_pos hi, if_pos hi]
        exact ih true hinv (hintr (hw.interrupted i hi))
      · rw [if_neg hi, if_neg hi]
        by_cases hx : m.owner x = none
        · obtain ⟨hallow, hk⟩ := hfree hx
          obtain ⟨hv, hrest⟩ := ih false hallow.1 hk
          rw [if_pos hx, if_pos hx]
          exact ⟨by simpa using ⟨hinv, hv⟩, hrest⟩
        · rw [if_neg hx, if_neg hx]
          exact ⟨by simpa using hinv, hinv, i, x, hlock, hx⟩
  | unlock x k ih =>
      obtain ⟨_, hallow, hk⟩ := h m (hrefl m hinv)
      obtain ⟨hv, hrest⟩ := ih hallow.1 hk
      exact ⟨by simpa [visits] using ⟨hinv, hv⟩, hrest⟩
  | ask q k ih => exact ih (w.answer q) hinv (h m (hrefl m hinv) _ (hw.answer q))
  | fail e => exact ⟨by simpa [visits] using hinv, h m (hrefl m hinv)⟩

/-- The machine at the end of a call is one of the states it visited. -/
theorem run_mach_mem_visits (w : World ι ρ) (t : Nat) (p : Prog σ μ ι φ ρ α) (m : Mach σ μ) :
    (p.run w t m).mach ∈ p.visits w t m := by
  induction p generalizing m with
  | ret a => simp [run, visits]
  | get k ih => exact ih m.mem m
  | act g k ih => exact List.mem_cons_of_mem _ (ih (m.upd g))
  | lock i x k ih =>
      simp only [run, visits]
      split
      · exact ih true m
      · split
        · exact List.mem_cons_of_mem _ (ih false _)
        · simp
  | unlock x k ih => exact List.mem_cons_of_mem _ (ih (m.release x))
  | ask q k ih => exact ih (w.answer q) m
  | fail e => simp [run, visits]

/-- A weaker invariant asks less. -/
theorem wp_weaken {C : Ctx σ μ ι φ ρ} {I : Mach σ μ → Prop} (hI : ∀ m, C.inv m → I m)
    {p : Prog σ μ ι φ ρ α} {Q : α → Mach σ μ → Prop} {m : Mach σ μ} (h : p.wp C Q m) :
    p.wp { C with inv := I } Q m := by
  induction p generalizing m with
  | ret a => exact h
  | get k ih => exact fun m' hr => ih m'.mem (h m' hr)
  | act g k ih => exact fun m' hr => ⟨⟨hI _ (h m' hr).1.1, (h m' hr).1.2⟩, ih (h m' hr).2⟩
  | lock i x k ih =>
      refine fun m' hr => ⟨(h m' hr).1, fun hx => ?_, fun hi => ih true ((h m' hr).2.2 hi)⟩
      obtain ⟨hallow, hk⟩ := (h m' hr).2.1 hx
      exact ⟨⟨hI _ hallow.1, hallow.2⟩, ih false hk⟩
  | unlock x k ih =>
      exact fun m' hr => ⟨(h m' hr).1, ⟨hI _ (h m' hr).2.1.1, (h m' hr).2.1.2⟩, ih (h m' hr).2.2⟩
  | ask q k ih => exact fun m' hr a ha => ih a (h m' hr a ha)
  | fail e => exact h

end Prog

/-- The context of a thread that runs alone in the world `w`: nobody else steps. -/
def Ctx.solo (tid : Nat) (w : World ι ρ) (inv : Mach σ μ → Prop)
    (mayFault : φ → Mach σ μ → Prop) : Ctx σ μ ι φ ρ where
  tid := tid
  rely := Eq
  inv := inv
  guar := fun _ _ => True
  mayInterrupt := fun i => w.interrupted i = true
  mayAnswer := fun q a => a = w.answer q
  mayFault := mayFault
  onLock := fun _ _ _ => True
  onUnlock := fun _ _ => True

/-! ## Sequences of calls -/

section

variable [DecidableEq μ] {χ : Type} (prog : χ → Prog σ μ ι φ ρ α) (t : Nat)

/-- Run calls one after the other, each in its own world, until one does not
return. -/
def runs : List (World ι ρ × χ) → Mach σ μ → Outcome σ μ φ (List α)
  | [], m => .done [] m
  | (w, c) :: rest, m =>
      ((prog c).run w t m).bind fun a m' =>
        (runs rest m').bind fun as m'' => .done (a :: as) m''

/-- Every state of a sequence of calls, the ones inside the calls included. -/
def visitsAll : List (World ι ρ × χ) → Mach σ μ → List (Mach σ μ)
  | [], m => [m]
  | (w, c) :: rest, m =>
      (prog c).visits w t m ++
        match (prog c).run w t m with
        | .done _ m' => visitsAll rest m'
        | _ => []

/-- Every call of the sequence is issued in a state that `P` admits it in. -/
def EachStep (P : Mach σ μ → World ι ρ × χ → Prop) : List (World ι ρ × χ) → Mach σ μ → Prop
  | [], _ => True
  | s :: rest, m =>
      P m s ∧ ∀ a m', (prog s.2).run s.1 t m = .done a m' → EachStep P rest m'

variable {prog t}

/-- A sequence of calls that returns: the first call does, and so do the others after it. -/
theorem runs_cons_done {s : World ι ρ × χ} {rest : List (World ι ρ × χ)} {m m' : Mach σ μ}
    {as : List α} (h : runs prog t (s :: rest) m = .done as m') :
    ∃ a as' m₁, (prog s.2).run s.1 t m = .done a m₁ ∧ runs prog t rest m₁ = .done as' m' ∧
      as = a :: as' := by
  rw [runs] at h
  cases hfirst : (prog s.2).run s.1 t m with
  | hung m₁ =>
      rw [hfirst] at h
      cases h
  | fault e m₁ =>
      rw [hfirst] at h
      cases h
  | done a m₁ =>
      rw [hfirst, Outcome.bind_done] at h
      cases hrest : runs prog t rest m₁ with
      | hung m₂ =>
          rw [hrest] at h
          cases h
      | fault e m₂ =>
          rw [hrest] at h
          cases h
      | done as' m₂ =>
          rw [hrest] at h
          cases h
          exact ⟨a, as', m₁, rfl, hrest, rfl⟩

theorem eachStep_cons_done {P : Mach σ μ → World ι ρ × χ → Prop} {s : World ι ρ × χ}
    {rest : List (World ι ρ × χ)} {m m₁ : Mach σ μ} {a : α}
    (h : (prog s.2).run s.1 t m = .done a m₁) :
    EachStep prog t P (s :: rest) m ↔ P m s ∧ EachStep prog t P rest m₁ := by
  constructor
  · intro hsteps
    exact ⟨hsteps.1, hsteps.2 a m₁ h⟩
  · rintro ⟨hfirst, hrest⟩
    refine ⟨hfirst, ?_⟩
    intro a' m' h'
    rw [h] at h'
    cases h'
    exact hrest

/-- A run in two parts: the calls of the first, and those of the second where the first ends. -/
theorem eachStep_append {P : Mach σ μ → World ι ρ × χ → Prop} {xs ys : List (World ι ρ × χ)}
    {m : Mach σ μ} (h : EachStep prog t P (xs ++ ys) m) :
    EachStep prog t P xs m ∧
      ∀ as m₁, runs prog t xs m = .done as m₁ → EachStep prog t P ys m₁ := by
  induction xs generalizing m with
  | nil =>
      refine ⟨trivial, ?_⟩
      rintro as m₁ ⟨⟩
      exact h
  | cons s rest ih =>
      refine ⟨⟨h.1, fun a m' hrun => (ih (h.2 a m' hrun)).1⟩, ?_⟩
      intro as m₁ hruns
      obtain ⟨a, as', m', hrun, hrest, -⟩ := runs_cons_done hruns
      exact (ih (h.2 a m' hrun)).2 as' m₁ hrest

/-- Two conditions that agree on each admitted call agree on a run of such calls, if each of
them returns; `J` holds between the calls. -/
theorem eachStep_congr {A P Q : Mach σ μ → World ι ρ × χ → Prop} {J : Mach σ μ → Prop}
    (hstep : ∀ m s, J m → A m s → (P m s ↔ Q m s) ∧
      ∃ a m', (prog s.2).run s.1 t m = .done a m' ∧ J m')
    {steps : List (World ι ρ × χ)} {m : Mach σ μ} (hJ : J m) (hA : EachStep prog t A steps m) :
    EachStep prog t P steps m ↔ EachStep prog t Q steps m := by
  induction steps generalizing m with
  | nil => exact Iff.rfl
  | cons s rest ih =>
      obtain ⟨hiff, a, m₁, hrun, hJ₁⟩ := hstep m s hJ hA.1
      have hrest := ih hJ₁ (hA.2 a m₁ hrun)
      rw [eachStep_cons_done hrun, eachStep_cons_done hrun, hiff, hrest]

instance decidableEachStep (P : Mach σ μ → World ι ρ × χ → Prop) [∀ m s, Decidable (P m s)] :
    ∀ steps m, Decidable (EachStep prog t P steps m)
  | [], _ => .isTrue trivial
  | s :: rest, m =>
      match h : (prog s.2).run s.1 t m with
      | .done _ m₁ =>
          have := decidableEachStep P rest m₁
          decidable_of_iff (P m s ∧ EachStep prog t P rest m₁) (eachStep_cons_done h).symm
      | .hung _ =>
          decidable_of_iff (P m s) ⟨fun hs => ⟨hs, fun _ _ h' => by cases h.symm.trans h'⟩, And.left⟩
      | .fault _ _ =>
          decidable_of_iff (P m s) ⟨fun hs => ⟨hs, fun _ _ h' => by cases h.symm.trans h'⟩, And.left⟩

/-- The machine at the end of a run is one of its states. -/
theorem runs_mach_mem_visitsAll (steps : List (World ι ρ × χ)) (m : Mach σ μ) :
    (runs prog t steps m).mach ∈ visitsAll prog t steps m := by
  induction steps generalizing m with
  | nil => simp [runs, visitsAll]
  | cons c rest ih =>
      have hmem := Prog.run_mach_mem_visits c.1 t (prog c.2) m
      rw [runs, visitsAll, List.mem_append]
      cases hrun : (prog c.2).run c.1 t m with
      | done a m₁ =>
          right
          have hrest := ih m₁
          rw [Outcome.bind_done]
          cases hruns : runs prog t rest m₁ <;> rw [hruns] at hrest <;> exact hrest
      | hung m₁ =>
          rw [hrun] at hmem
          exact .inl hmem
      | fault e m₁ =>
          rw [hrun] at hmem
          exact .inl hmem

/-- The run rule. `J` holds between calls, `I` in every state: it is enough
that each admitted call, from a state with `J`, keeps `I` on its way and
returns in a state with `J`, or ends as `H` and `F` say. -/
theorem runs_inv {P : Mach σ μ → World ι ρ × χ → Prop} {J I H : Mach σ μ → Prop}
    {F : φ → Mach σ μ → Prop} (hJI : ∀ m, J m → I m)
    (hstep : ∀ m s, J m → P m s →
      (∀ m' ∈ (prog s.2).visits s.1 t m, I m') ∧
      ((prog s.2).run s.1 t m).Meets (fun _ m' => J m') H F) :
    ∀ (steps : List (World ι ρ × χ)) (m : Mach σ μ), J m → EachStep prog t P steps m →
      (∀ m' ∈ visitsAll prog t steps m, I m') ∧
      (runs prog t steps m).Meets (fun _ m' => J m') H F := by
  intro steps
  induction steps with
  | nil =>
      intro m hJ _
      refine ⟨fun m' hm' => ?_, hJ⟩
      rw [visitsAll, List.mem_singleton] at hm'
      exact hm' ▸ hJI m hJ
  | cons s rest ih =>
      intro m hJ hsteps
      obtain ⟨hI, hend⟩ := hstep m s hJ hsteps.1
      simp only [visitsAll, runs]
      cases hrun : (prog s.2).run s.1 t m with
      | done a m₁ =>
          rw [hrun] at hend
          obtain ⟨hI', hend'⟩ := ih m₁ hend (hsteps.2 a m₁ hrun)
          refine ⟨fun m' hm' => ?_, ?_⟩
          · rcases List.mem_append.mp hm' with hm' | hm'
            · exact hI m' hm'
            · exact hI' m' hm'
          · rw [Outcome.bind_done]
            cases hrest : runs prog t rest m₁ <;> rw [hrest] at hend' <;> exact hend'
      | hung m₁ =>
          rw [hrun] at hend
          exact ⟨fun m' hm' => hI m' (by simpa using hm'), hend⟩
      | fault e m₁ =>
          rw [hrun] at hend
          exact ⟨fun m' hm' => hI m' (by simpa using hm'), hend⟩

/-- A run of a specification whose one step, from state `x` for the request `c` with the
answer `a`, is `next x c a y`. -/
inductive SpecRun {X C A : Type} (next : X → C → A → X → Prop) : X → List C → List A → X → Prop
  | nil (x : X) : SpecRun next x [] [] x
  | cons {x y z : X} {c : C} {a : A} {cs : List C} {as : List A} :
      next x c a y → SpecRun next y cs as z → SpecRun next x (c :: cs) (a :: as) z

/-- A run of the specification in two parts. -/
theorem SpecRun.append {X C A : Type} {next : X → C → A → X → Prop} {x z : X} {cs ds : List C}
    {as : List A} (h : SpecRun next x (cs ++ ds) as z) :
    ∃ y as₁ as₂, as = as₁ ++ as₂ ∧ SpecRun next x cs as₁ y ∧ SpecRun next y ds as₂ z := by
  induction cs generalizing x as with
  | nil => exact ⟨x, [], as, rfl, .nil x, h⟩
  | cons c cs ih =>
      cases h with
      | cons hnext hrest =>
          obtain ⟨y, as₁, as₂, rfl, hfirst, hsecond⟩ := ih hrest
          exact ⟨y, _ :: as₁, as₂, rfl, .cons hnext hfirst, hsecond⟩

/-- The refinement rule: if every call that `P` admits returns, keeps `J` and is a step of the
specification as `abs` sees it, then so is every run. -/
theorem runs_refines {X : Type} {abs : Mach σ μ → X}
    {next : X → World ι ρ × χ → α → X → Prop} {P : Mach σ μ → World ι ρ × χ → Prop}
    {J : Mach σ μ → Prop}
    (hstep : ∀ m s, J m → P m s → ∃ a m', (prog s.2).run s.1 t m = .done a m' ∧ J m' ∧
      next (abs m) s a (abs m')) :
    ∀ (steps : List (World ι ρ × χ)) (m : Mach σ μ), J m → EachStep prog t P steps m →
      ∃ as m', runs prog t steps m = .done as m' ∧ J m' ∧ SpecRun next (abs m) steps as (abs m') := by
  intro steps
  induction steps with
  | nil =>
      intro m hJ _
      exact ⟨[], m, rfl, hJ, .nil _⟩
  | cons s rest ih =>
      intro m hJ hsteps
      obtain ⟨a, m₁, hrun, hJ₁, hnext⟩ := hstep m s hJ hsteps.1
      obtain ⟨as, m', hrest, hJ', hspec⟩ := ih m₁ hJ₁ (hsteps.2 a m₁ hrun)
      refine ⟨a :: as, m', ?_, hJ', .cons hnext hspec⟩
      rw [runs, hrun, Outcome.bind_done, hrest]
      rfl

end

end

end Base
