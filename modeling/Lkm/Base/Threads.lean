import Lkm.Base.Prog

/-!
# Threads that interleave

Any number of threads run calls over one shared machine; each step is one
primitive of one thread, chosen by the scheduler (`Event`, `next`). The module
proves

* **rely/guarantee soundness** — if every call meets its `Prog.wp` in its
  thread's context, and each thread's guarantee is within what the others rely
  on, then every reachable configuration keeps the invariant and every running
  thread's `wp` (`Compat.reach`), and every step meets its guarantee
  (`Compat.step`);
* **absence of deadlock from a lock order** — `not_deadlock`: when waits only
  go up in rank and whoever holds a mutex is running, some unfinished thread
  is not blocked.
-/

namespace Base

section

variable {σ μ ι φ κ α χ : Type} {ρ : κ → Type} [DecidableEq μ]

/-- The program each thread still has to run (`none`: between calls) and the
shared machine. -/
structure Config (σ μ ι φ : Type) {κ : Type} (ρ : κ → Type) (α : Type) where
  threads : Nat → Option (Prog σ μ ι φ ρ α)
  mach : Mach σ μ

/-- The scheduler's choices: thread `t` enters a call, executes its next
primitive, has its wait interrupted, or gets its question answered. Only a thread
that finds the mutex held waits, so only then can it be interrupted. -/
inductive Event (χ : Type) {κ : Type} (ρ : κ → Type) where
  | start (t : Nat) (c : χ)
  | step (t : Nat)
  | interrupt (t : Nat)
  | answer (t : Nat) (a : (q : κ) → ρ q)

namespace Config

/-- Thread `t` goes on with `p`, on machine `m`. -/
def goto (c : Config σ μ ι φ ρ α) (t : Nat) (p : Option (Prog σ μ ι φ ρ α)) (m : Mach σ μ) :
    Config σ μ ι φ ρ α :=
  { threads := Function.update c.threads t p, mach := m }

omit [DecidableEq μ] in
@[simp] theorem goto_mach (c : Config σ μ ι φ ρ α) (t : Nat) (p : Option (Prog σ μ ι φ ρ α))
    (m : Mach σ μ) : (c.goto t p m).mach = m := rfl

omit [DecidableEq μ] in
@[simp] theorem goto_self (c : Config σ μ ι φ ρ α) (t : Nat) (p : Option (Prog σ μ ι φ ρ α))
    (m : Mach σ μ) : (c.goto t p m).threads t = p := by
  simp [goto]

omit [DecidableEq μ] in
theorem goto_ne {c : Config σ μ ι φ ρ α} {t u : Nat} {p : Option (Prog σ μ ι φ ρ α)}
    {m : Mach σ μ} (h : u ≠ t) : (c.goto t p m).threads u = c.threads u := by
  simp [goto, h]

/-- Execute one event, if it is enabled. -/
def next (prog : χ → Prog σ μ ι φ ρ α) (c : Config σ μ ι φ ρ α) :
    Event χ ρ → Option (Config σ μ ι φ ρ α)
  | .start t call =>
      match c.threads t with
      | none => some (c.goto t (some (prog call)) c.mach)
      | some _ => none
  | .step t =>
      match c.threads t with
      | some (.ret _) => some (c.goto t none c.mach)
      | some (.get k) => some (c.goto t (some (k c.mach.mem)) c.mach)
      | some (.act f k) => some (c.goto t (some k) (c.mach.upd f))
      | some (.lock _ x k) =>
          if c.mach.owner x = none then some (c.goto t (some (k false)) (c.mach.acquire t x))
          else none
      | some (.unlock x k) => some (c.goto t (some k) (c.mach.release x))
      | _ => none
  | .interrupt t =>
      match c.threads t with
      | some (.lock _ x k) =>
          if c.mach.owner x = none then none else some (c.goto t (some (k true)) c.mach)
      | _ => none
  | .answer t a =>
      match c.threads t with
      | some (.ask q k) => some (c.goto t (some (k (a q))) c.mach)
      | _ => none

/-- Only calls in `calls` are entered, and only waits in `intr` interrupted. -/
def Permits (calls : χ → Prop) (intr : ι → Prop) (c : Config σ μ ι φ ρ α) : Event χ ρ → Prop
  | .start _ call => calls call
  | .interrupt t => ∀ i x k, c.threads t = some (.lock i x k) → intr i
  | _ => True

/-- The configurations that a permitted run reaches. -/
inductive Reach (prog : χ → Prog σ μ ι φ ρ α) (calls : χ → Prop) (intr : ι → Prop)
    (init : Mach σ μ → Prop) : Config σ μ ι φ ρ α → Prop
  | init {m} : init m → Reach prog calls intr init ⟨fun _ => none, m⟩
  | step {c c'} (e : Event χ ρ) : Reach prog calls intr init c → c.Permits calls intr e →
      c.next prog e = some c' → Reach prog calls intr init c'

/-- Execute a schedule. -/
def exec (prog : χ → Prog σ μ ι φ ρ α) :
    List (Event χ ρ) → Config σ μ ι φ ρ α → Option (Config σ μ ι φ ρ α)
  | [], c => some c
  | e :: es, c => (c.next prog e).bind fun c' => exec prog es c'

/-- A schedule of permitted calls and interruptions leads to a reachable
configuration. -/
theorem Reach.exec_permitted {prog : χ → Prog σ μ ι φ ρ α} {calls : χ → Prop} {intr : ι → Prop}
    {init : Mach σ μ → Prop} (es : List (Event χ ρ)) {c c' : Config σ μ ι φ ρ α}
    (hes : ∀ e ∈ es, ∀ c : Config σ μ ι φ ρ α, c.Permits calls intr e)
    (hc : Reach prog calls intr init c) (h : exec prog es c = some c') :
    Reach prog calls intr init c' := by
  induction es generalizing c with
  | nil => cases h; exact hc
  | cons e es ih =>
      obtain ⟨c₁, h₁, h₂⟩ := Option.bind_eq_some_iff.mp h
      apply ih (fun e' he' => hes e' (List.mem_cons_of_mem _ he')) _ h₂
      exact .step e hc (hes e List.mem_cons_self c) h₁

/-- A schedule of permitted calls, in a run where any wait may be interrupted,
leads to a reachable configuration. -/
theorem Reach.exec {prog : χ → Prog σ μ ι φ ρ α} {calls : χ → Prop} {init : Mach σ μ → Prop}
    (es : List (Event χ ρ)) {c c' : Config σ μ ι φ ρ α}
    (hcalls : ∀ t call, Event.start t call ∈ es → calls call)
    (hc : Reach prog calls (fun _ => True) init c) (h : exec prog es c = some c') :
    Reach prog calls (fun _ => True) init c' := by
  apply Reach.exec_permitted es _ hc h
  intro e he c
  cases e with
  | start t call => exact hcalls t call he
  | step t => trivial
  | interrupt t => exact fun _ _ _ _ => trivial
  | answer t a => trivial

/-- So does one without interruptions, in any run. -/
theorem Reach.exec_quiet {prog : χ → Prog σ μ ι φ ρ α} {calls : χ → Prop} {intr : ι → Prop}
    {init : Mach σ μ → Prop} (es : List (Event χ ρ)) {c c' : Config σ μ ι φ ρ α}
    (hcalls : ∀ t call, Event.start t call ∈ es → calls call) (hquiet : ∀ t, Event.interrupt t ∉ es)
    (hc : Reach prog calls intr init c) (h : Config.exec prog es c = some c') :
    Reach prog calls intr init c' := by
  apply Reach.exec_permitted es _ hc h
  intro e he c
  cases e with
  | start t call => exact hcalls t call he
  | step t => trivial
  | interrupt t => exact absurd he (hquiet t)
  | answer t a => trivial

/-- An interruption finds its mutex held. -/
theorem next_interrupt {prog : χ → Prog σ μ ι φ ρ α} {c c' : Config σ μ ι φ ρ α} {t : Nat} {i : ι}
    {x : μ} {k : Bool → Prog σ μ ι φ ρ α} (h : c.next prog (.interrupt t) = some c')
    (ht : c.threads t = some (.lock i x k)) : c.mach.owner x ≠ none := by
  intro hfree
  simp [next, ht, hfree] at h

/-- Waits that always find their mutex free are not interrupted, whether they may be or not. -/
theorem Reach.narrow {prog : χ → Prog σ μ ι φ ρ α} {calls : χ → Prop} {intr intr' : ι → Prop}
    {init : Mach σ μ → Prop}
    (hfree : ∀ c t i x k, Reach prog calls intr' init c → c.threads t = some (.lock i x k) → intr i →
      ¬ intr' i → c.mach.owner x = none)
    {c : Config σ μ ι φ ρ α} (hc : Reach prog calls intr init c) :
    Reach prog calls intr' init c := by
  induction hc with
  | init hm => exact .init hm
  | @step c c' e hc hp hn ih =>
      refine .step e ih ?_ hn
      cases e with
      | start t call => exact hp
      | step t => trivial
      | answer t a => trivial
      | interrupt t =>
          intro i x k ht
          by_contra hi
          exact next_interrupt hn ht (hfree c t i x k ih ht (hp i x k ht) hi)

/-- Thread `t` can go on from `c` until it returns `a`, with machine `m'`, while the others wait. -/
def Finishes (prog : χ → Prog σ μ ι φ ρ α) (calls : χ → Prop) (intr : ι → Prop)
    (init : Mach σ μ → Prop) (t : Nat) (a : α) (m' : Mach σ μ) (c : Config σ μ ι φ ρ α) : Prop :=
  ∃ c', Reach prog calls intr init c' ∧ c'.threads t = some (.ret a) ∧ c'.mach = m' ∧
    ∀ u, u ≠ t → c'.threads u = c.threads u

/-- A call that runs to its end when it is alone can do so in a run. -/
theorem Reach.alone {prog : χ → Prog σ μ ι φ ρ α} {calls : χ → Prop} {intr : ι → Prop}
    {init : Mach σ μ → Prop} {w : World ι ρ} (hw : ∀ i, w.interrupted i = false) {t : Nat}
    {p : Prog σ μ ι φ ρ α} {c : Config σ μ ι φ ρ α} (hc : Reach prog calls intr init c)
    (ht : c.threads t = some p) {a : α} {m' : Mach σ μ} (hrun : p.run w t c.mach = .done a m') :
    Finishes prog calls intr init t a m' c := by
  have hgo : ∀ {c : Config σ μ ι φ ρ α} {q : Option (Prog σ μ ι φ ρ α)} {m : Mach σ μ},
      Finishes prog calls intr init t a m' (c.goto t q m) → Finishes prog calls intr init t a m' c := by
    rintro c q m ⟨c', hc', hret, hmach, hothers⟩
    exact ⟨c', hc', hret, hmach, fun u hu => (hothers u hu).trans (goto_ne hu)⟩
  -- each primitive of the program is one event of thread `t`
  induction p generalizing c with
  | ret a' =>
      cases hrun
      exact ⟨c, hc, ht, rfl, fun _ _ => rfl⟩
  | get k ih =>
      have hnext : c.next prog (.step t) = some (c.goto t (some (k c.mach.mem)) c.mach) := by
        simp only [next, ht]
      exact hgo (ih _ (.step (.step t) hc trivial hnext) (c.goto_self t _ _) hrun)
  | act f k ih =>
      have hnext : c.next prog (.step t) = some (c.goto t (some k) (c.mach.upd f)) := by
        simp only [next, ht]
      exact hgo (ih (.step (.step t) hc trivial hnext) (c.goto_self t _ _) hrun)
  | lock i x k ih =>
      simp only [Prog.run, hw i, Bool.false_eq_true, if_false] at hrun
      by_cases hfree : c.mach.owner x = none
      · rw [if_pos hfree] at hrun
        have hnext : c.next prog (.step t) = some (c.goto t (some (k false)) (c.mach.acquire t x)) := by
          simp only [next, ht, if_pos hfree]
        exact hgo (ih _ (.step (.step t) hc trivial hnext) (c.goto_self t _ _) hrun)
      · rw [if_neg hfree] at hrun
        cases hrun
  | unlock x k ih =>
      have hnext : c.next prog (.step t) = some (c.goto t (some k) (c.mach.release x)) := by
        simp only [next, ht]
      exact hgo (ih (.step (.step t) hc trivial hnext) (c.goto_self t _ _) hrun)
  | ask q k ih =>
      have hnext : c.next prog (.answer t w.answer) = some (c.goto t (some (k (w.answer q))) c.mach) := by
        simp only [next, ht]
      exact hgo (ih _ (.step (.answer t w.answer) hc trivial hnext) (c.goto_self t _ _) hrun)
  | fail e => cases hrun

/-- Thread `t` waits for a mutex that somebody holds. -/
def Blocked (c : Config σ μ ι φ ρ α) (t : Nat) : Prop :=
  ∃ i x k, c.threads t = some (.lock i x k) ∧ c.mach.owner x ≠ none

/-- Some thread waits, and every thread that is inside a call is blocked. -/
def Deadlock (c : Config σ μ ι φ ρ α) : Prop :=
  (∃ t, c.Blocked t) ∧ ∀ t, c.threads t ≠ none → c.Blocked t

end Config

/-! ## Rely/guarantee soundness -/

/-- Contexts of the threads that fit together: `J` is the shared invariant,
`K t` what holds of thread `t` between its calls. -/
structure Compat (C : Nat → Ctx σ μ ι φ ρ) (J : Mach σ μ → Prop)
    (K : Nat → Mach σ μ → Prop) : Prop where
  tid : ∀ t, (C t).tid = t
  inv : ∀ t m, (C t).inv m ↔ J m
  refl : ∀ t m, J m → (C t).rely m m
  trans : ∀ t m₁ m₂ m₃, (C t).rely m₁ m₂ → (C t).rely m₂ m₃ → (C t).rely m₁ m₃
  others : ∀ t u m m', t ≠ u → J m → J m' → (C t).guar m m' → (C u).rely m m'
  answer : ∀ t q a, (C t).mayAnswer q a
  stable : ∀ t m m', K t m → (C t).rely m m' → K t m'

namespace Compat

variable {C : Nat → Ctx σ μ ι φ ρ} {J : Mach σ μ → Prop} {K : Nat → Mach σ μ → Prop}

/-- What a thread still has to show is not disturbed by the others. -/
theorem wp_stable (hC : Compat C J K) {t : Nat} {p : Prog σ μ ι φ ρ α}
    {Q : α → Mach σ μ → Prop} (hQ : ∀ a m m', Q a m → (C t).rely m m' → Q a m')
    {m m' : Mach σ μ} (hr : (C t).rely m m') (h : p.wp (C t) Q m) : p.wp (C t) Q m' := by
  cases p with
  | ret a => exact hQ a m m' h hr
  | get k => exact fun m₂ h₂ => h m₂ (hC.trans t _ _ _ hr h₂)
  | act f k => exact fun m₂ h₂ => h m₂ (hC.trans t _ _ _ hr h₂)
  | lock i x k => exact fun m₂ h₂ => h m₂ (hC.trans t _ _ _ hr h₂)
  | unlock x k => exact fun m₂ h₂ => h m₂ (hC.trans t _ _ _ hr h₂)
  | ask q k => exact fun m₂ h₂ => h m₂ (hC.trans t _ _ _ hr h₂)
  | fail e => exact fun m₂ h₂ => h m₂ (hC.trans t _ _ _ hr h₂)

/-- What is known of every configuration: the invariant, and for each thread
the rest of its proof. -/
structure Good (C : Nat → Ctx σ μ ι φ ρ) (J : Mach σ μ → Prop)
    (K : Nat → Mach σ μ → Prop) (c : Config σ μ ι φ ρ α) : Prop where
  inv : J c.mach
  idle : ∀ t, c.threads t = none → K t c.mach
  running : ∀ t p, c.threads t = some p → p.wp (C t) (fun _ => K t) c.mach

/-- The same, with a postcondition `Q t a` for calls of thread `t` that return `a`. -/
structure GoodWith (C : Nat → Ctx σ μ ι φ ρ) (J : Mach σ μ → Prop)
    (K : Nat → Mach σ μ → Prop) (Q : Nat → α → Mach σ μ → Prop)
    (c : Config σ μ ι φ ρ α) : Prop where
  inv : J c.mach
  idle : ∀ t, c.threads t = none → K t c.mach
  running : ∀ t p, c.threads t = some p → p.wp (C t) (Q t) c.mach

/-- The postcondition is not disturbed by the others, and is enough between calls. -/
structure Post (C : Nat → Ctx σ μ ι φ ρ) (K : Nat → Mach σ μ → Prop)
    (Q : Nat → α → Mach σ μ → Prop) : Prop where
  stable : ∀ t a m m', Q t a m → (C t).rely m m' → Q t a m'
  idle : ∀ t a m, Q t a m → K t m

omit [DecidableEq μ] in
theorem post_idle (hC : Compat C J K) : Post C K (fun t (_ : α) => K t) :=
  ⟨fun t _ m m' h hr => hC.stable t m m' h hr, fun _ _ _ h => h⟩

variable {Q : Nat → α → Mach σ μ → Prop}

/-- Moving one thread: the others are left as they were. -/
theorem GoodWith.goto (hC : Compat C J K) (hQ : Post C K Q) {c : Config σ μ ι φ ρ α}
    (h : GoodWith C J K Q c) {t : Nat} {p : Option (Prog σ μ ι φ ρ α)} {m : Mach σ μ} (hJ : J m)
    (hothers : ∀ u, u ≠ t → (C u).rely c.mach m)
    (hidle : p = none → K t m)
    (hrun : ∀ q, p = some q → q.wp (C t) (Q t) m) : GoodWith C J K Q (c.goto t p m) := by
  refine ⟨hJ, fun u hu => ?_, fun u q hu => ?_⟩
  · by_cases hut : u = t
    · subst hut
      rw [Config.goto_self] at hu
      exact hidle hu
    · rw [Config.goto_ne hut] at hu
      exact hC.stable u _ _ (h.idle u hu) (hothers u hut)
  · by_cases hut : u = t
    · subst hut
      rw [Config.goto_self] at hu
      exact hrun q hu
    · rw [Config.goto_ne hut] at hu
      exact hC.wp_stable (hQ.stable u) (hothers u hut) (h.running u q hu)

/-- A step of thread `t` that leaves the machine alone. -/
theorem GoodWith.quiet (hC : Compat C J K) (hQ : Post C K Q) {c : Config σ μ ι φ ρ α}
    (h : GoodWith C J K Q c) (t : Nat) (p : Option (Prog σ μ ι φ ρ α)) (hidle : p = none → K t c.mach)
    (hrun : ∀ q, p = some q → q.wp (C t) (Q t) c.mach) :
    GoodWith C J K Q (c.goto t p c.mach) ∧
      ((c.goto t p c.mach).mach = c.mach ∨ ∃ t', (C t').guar c.mach (c.goto t p c.mach).mach) :=
  ⟨h.goto hC hQ h.inv (fun u _ => hC.refl u _ h.inv) hidle hrun, .inl rfl⟩

/-- A step of thread `t` that changes the machine, within the thread's guarantee. -/
theorem GoodWith.move (hC : Compat C J K) (hQ : Post C K Q) {c : Config σ μ ι φ ρ α}
    (h : GoodWith C J K Q c) (t : Nat) (k : Prog σ μ ι φ ρ α) (m : Mach σ μ)
    (hallow : (C t).Allows c.mach m) (hk : k.wp (C t) (Q t) m) :
    GoodWith C J K Q (c.goto t (some k) m) ∧
      ((c.goto t (some k) m).mach = c.mach ∨
        ∃ t', (C t').guar c.mach (c.goto t (some k) m).mach) := by
  have hJ : J m := (hC.inv t m).mp hallow.1
  refine ⟨?_, .inr ⟨t, hallow.2⟩⟩
  apply h.goto hC hQ hJ
  · intro u hu
    exact hC.others t u _ _ (Ne.symm hu) h.inv hJ hallow.2
  · intro hnone
    cases hnone
  · intro q hq
    cases hq
    exact hk

/-- The step rule: a permitted step from a good configuration leads to a good
one, and changes the machine only as its thread's guarantee says. -/
theorem stepWith (hC : Compat C J K) (hQ : Post C K Q) {prog : χ → Prog σ μ ι φ ρ α} {calls : χ → Prop}
    {intr : ι → Prop} (hintr : ∀ t i, intr i → (C t).mayInterrupt i)
    (hcalls : ∀ t call m, calls call → J m → K t m →
      (prog call).wp (C t) (Q t) m)
    {c c' : Config σ μ ι φ ρ α} (h : GoodWith C J K Q c) {e : Event χ ρ}
    (hp : c.Permits calls intr e) (hn : c.next prog e = some c') :
    GoodWith C J K Q c' ∧ (c'.mach = c.mach ∨ ∃ t, (C t).guar c.mach c'.mach) := by
  have hstay : ∀ u, (C u).rely c.mach c.mach := fun u => hC.refl u _ h.inv
  cases e with
  | start t call =>
      simp only [Config.next] at hn
      cases ht : c.threads t with
      | some p => simp [ht] at hn
      | none =>
          simp only [ht, Option.some.injEq] at hn
          subst hn
          refine h.quiet hC hQ t _ (by simp) fun q hq => ?_
          cases hq
          exact hcalls t call _ hp h.inv (h.idle t ht)
  | step t =>
      simp only [Config.next] at hn
      cases ht : c.threads t with
      | none => simp [ht] at hn
      | some p =>
          have hwp := h.running t p ht
          cases p with
          | ret a =>
              simp only [ht, Option.some.injEq] at hn
              subst hn
              exact h.quiet hC hQ t none (fun _ => hQ.idle t a _ hwp) (by simp)
          | get k =>
              simp only [ht, Option.some.injEq] at hn
              subst hn
              refine h.quiet hC hQ t _ (by simp) fun q hq => ?_
              cases hq
              exact hwp _ (hstay t)
          | act f k =>
              simp only [ht, Option.some.injEq] at hn
              subst hn
              exact h.move hC hQ t k _ (hwp _ (hstay t)).1 (hwp _ (hstay t)).2
          | lock i x k =>
              simp only [ht] at hn
              split at hn
              · rename_i hx
                cases hn
                obtain ⟨hallow, hk⟩ := (hwp _ (hstay t)).2.1 hx
                rw [hC.tid t] at hallow hk
                exact h.move hC hQ t _ _ hallow hk
              · cases hn
          | unlock x k =>
              simp only [ht, Option.some.injEq] at hn
              subst hn
              exact h.move hC hQ t k _ (hwp _ (hstay t)).2.1 (hwp _ (hstay t)).2.2
          | ask q k => simp [ht] at hn
          | fail e => simp [ht] at hn
  | interrupt t =>
      simp only [Config.next] at hn
      cases ht : c.threads t with
      | none => simp [ht] at hn
      | some p =>
          have hwp := h.running t p ht
          cases p with
          | lock i x k =>
              simp only [ht] at hn
              split at hn
              · cases hn
              · cases hn
                refine h.quiet hC hQ t _ (by simp) fun q hq => ?_
                cases hq
                exact (hwp _ (hstay t)).2.2 (hintr t i (hp i x k ht))
          | ret a => simp [ht] at hn
          | get k => simp [ht] at hn
          | act f k => simp [ht] at hn
          | unlock x k => simp [ht] at hn
          | ask q k => simp [ht] at hn
          | fail e => simp [ht] at hn
  | answer t a =>
      simp only [Config.next] at hn
      cases ht : c.threads t with
      | none => simp [ht] at hn
      | some p =>
          have hwp := h.running t p ht
          cases p with
          | ask q k =>
              simp only [ht, Option.some.injEq] at hn
              subst hn
              refine h.quiet hC hQ t _ (by simp) fun q' hq => ?_
              cases hq
              exact hwp _ (hstay t) (a q) (hC.answer t q (a q))
          | ret a => simp [ht] at hn
          | get k => simp [ht] at hn
          | act f k => simp [ht] at hn
          | lock i x k => simp [ht] at hn
          | unlock x k => simp [ht] at hn
          | fail e => simp [ht] at hn

/-- The run rule: every reachable configuration is good. -/
theorem reachWith (hC : Compat C J K) (hQ : Post C K Q) {prog : χ → Prog σ μ ι φ ρ α}
    {calls : χ → Prop} {intr : ι → Prop} {init : Mach σ μ → Prop}
    (hintr : ∀ t i, intr i → (C t).mayInterrupt i)
    (hcalls : ∀ t call m, calls call → J m → K t m → (prog call).wp (C t) (Q t) m)
    (hinit : ∀ m, init m → J m ∧ ∀ t, K t m) {c : Config σ μ ι φ ρ α}
    (hc : Config.Reach prog calls intr init c) : GoodWith C J K Q c := by
  induction hc with
  | init hm => exact ⟨(hinit _ hm).1, fun t _ => (hinit _ hm).2 t, by simp⟩
  | step e _ hp hn ih => exact (hC.stepWith hQ hintr hcalls ih hp hn).1

/-- The step rule, for calls that are specified by what holds between them. -/
theorem step (hC : Compat C J K) {prog : χ → Prog σ μ ι φ ρ α} {calls : χ → Prop}
    {intr : ι → Prop} (hintr : ∀ t i, intr i → (C t).mayInterrupt i)
    (hcalls : ∀ t call m, calls call → J m → K t m →
      (prog call).wp (C t) (fun _ => K t) m)
    {c c' : Config σ μ ι φ ρ α} (h : Good C J K c) {e : Event χ ρ}
    (hp : c.Permits calls intr e) (hn : c.next prog e = some c') :
    Good C J K c' ∧ (c'.mach = c.mach ∨ ∃ t, (C t).guar c.mach c'.mach) := by
  obtain ⟨hgood, hguar⟩ := hC.stepWith hC.post_idle hintr hcalls
    ⟨h.inv, h.idle, h.running⟩ hp hn
  exact ⟨⟨hgood.inv, hgood.idle, hgood.running⟩, hguar⟩

theorem reach (hC : Compat C J K) {prog : χ → Prog σ μ ι φ ρ α} {calls : χ → Prop}
    {intr : ι → Prop} {init : Mach σ μ → Prop} (hintr : ∀ t i, intr i → (C t).mayInterrupt i)
    (hcalls : ∀ t call m, calls call → J m → K t m →
      (prog call).wp (C t) (fun _ => K t) m)
    (hinit : ∀ m, init m → J m ∧ ∀ t, K t m) {c : Config σ μ ι φ ρ α}
    (hc : Config.Reach prog calls intr init c) : Good C J K c := by
  have hgood := hC.reachWith hC.post_idle hintr hcalls hinit hc
  exact ⟨hgood.inv, hgood.idle, hgood.running⟩

end Compat

/-! ## Lock order -/

omit [DecidableEq μ] in
/-- A lock order excludes deadlock. Follow the chain of holders from a blocked
thread: the mutexes waited for go up in rank, so it ends at a thread that is
not blocked. -/
theorem not_deadlock {c : Config σ μ ι φ ρ α} (rank : μ → Nat) (top : Nat)
    (htop : ∀ x, rank x < top)
    (horder : ∀ t i x k, c.threads t = some (.lock i x k) →
      ∀ y, c.mach.owner y = some t → rank y < rank x)
    (hholder : ∀ y t, c.mach.owner y = some t → c.threads t ≠ none) : ¬ c.Deadlock := by
  rintro ⟨⟨t, ht⟩, hall⟩
  have hchain : ∀ n t i x k, top - rank x = n → c.threads t = some (.lock i x k) →
      c.mach.owner x ≠ none → False := by
    intro n
    induction n using Nat.strongRecOn with
    | ind n ih =>
        intro t i x k hn ht hx
        obtain ⟨u, hu⟩ := Option.ne_none_iff_exists'.mp hx
        obtain ⟨j, y, k', hu', hy⟩ := hall u (hholder x u hu)
        have hlt := horder u j y k' hu' x hu
        have hbound := htop y
        exact ih (top - rank y) (by omega) u j y k' rfl hu' hy
  obtain ⟨i, x, k, hk, hx⟩ := ht
  exact hchain _ t i x k rfl hk hx

end

end Base
