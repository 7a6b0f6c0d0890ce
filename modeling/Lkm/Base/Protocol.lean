import Lkm.Base.Threads

/-!
# Protocols between threads

A protocol says what all threads keep (`inv`) and what a step of one thread
leaves to each of the others (`safe u m m'`: thread `u` may go on from `m'` with
what it knew of `m`). The contexts of `Lkm.Base.Prog` are derived from it, and
they always fit together. In them code is verified by triples:

* `Stable` — an assertion that the others cannot make false;
* `Triple` — entered with `A`, the code returns with `Q`, and each of its steps
  keeps the invariant and is safe for every other thread. There is one rule for
  each primitive;
* `Protocol.reach` — if every call keeps the assertion `K t` of its thread, the
  invariant holds in every reachable configuration, and every step is safe for
  all threads but the one that takes it; `Protocol.returns` — so does the
  postcondition of every call that is about to return.
-/

namespace Base

section

variable {σ μ ι φ κ α β χ : Type} {ρ : κ → Type} [DecidableEq μ]

structure Protocol (σ μ : Type) where
  inv : Mach σ μ → Prop
  safe : Nat → Mach σ μ → Mach σ μ → Prop
  refl : ∀ t m, safe t m m
  trans : ∀ t m₁ m₂ m₃, safe t m₁ m₂ → safe t m₂ m₃ → safe t m₁ m₃

namespace Protocol

/-- The context of thread `t`. -/
def ctx (R : Protocol σ μ) (t : Nat) : Ctx σ μ ι φ ρ where
  tid := t
  rely := fun m m' => R.safe t m m' ∧ (R.inv m → R.inv m')
  inv := R.inv
  guar := fun m m' => ∀ u, u ≠ t → R.safe u m m'
  mayInterrupt := fun _ => True
  mayAnswer := fun _ _ => True
  mayFault := fun _ _ => True
  onLock := fun _ _ _ => True
  onUnlock := fun _ _ => True

/-- Thread `t` may go from `m` to `m'`, to have `B` there. -/
structure Step (R : Protocol σ μ) (t : Nat) (m m' : Mach σ μ) (B : Mach σ μ → Prop) : Prop where
  inv : R.inv m'
  safe : ∀ u, u ≠ t → R.safe u m m'
  post : B m'

/-- The other threads cannot make `A` false. -/
def Stable (R : Protocol σ μ) (t : Nat) (A : Mach σ μ → Prop) : Prop :=
  ∀ m m', R.safe t m m' → A m → A m'

omit [DecidableEq μ] in
theorem Stable.and {R : Protocol σ μ} {t : Nat} {A B : Mach σ μ → Prop} (hA : R.Stable t A)
    (hB : R.Stable t B) : R.Stable t fun m => A m ∧ B m := by
  intro m m' hs h
  exact ⟨hA m m' hs h.1, hB m m' hs h.2⟩

/-- See the head of the module. Irreducible, so that unification does not look into
the program. -/
@[irreducible] def Triple (R : Protocol σ μ) (t : Nat) (A : Mach σ μ → Prop)
    (p : Prog σ μ ι φ ρ α) (Q : α → Mach σ μ → Prop) : Prop :=
  ∀ m, R.inv m → A m → p.wp (R.ctx t) (fun a m' => R.inv m' ∧ Q a m') m

section Rules

variable {R : Protocol σ μ} {t : Nat} {A B : Mach σ μ → Prop} {Q : α → Mach σ μ → Prop}

theorem triple_ret (a : α) (h : ∀ m, A m → Q a m) :
    R.Triple t A (.ret a : Prog σ μ ι φ ρ α) Q := by
  unfold Triple
  intro m hinv hA
  exact ⟨hinv, h m hA⟩

theorem triple_bind {p : Prog σ μ ι φ ρ α} {f : α → Prog σ μ ι φ ρ β} {S : β → Mach σ μ → Prop}
    (hp : R.Triple t A p Q) (hf : ∀ a, R.Triple t (Q a) (f a) S) : R.Triple t A (p >>= f) S := by
  unfold Triple at hp hf ⊢
  intro m hinv hA
  apply Prog.wp_seq (hp m hinv hA)
  intro a m' hm'
  exact hf a m' hm'.1 hm'.2

/-- The consequence rule. -/
theorem triple_mono {Q' : α → Mach σ μ → Prop} {p : Prog σ μ ι φ ρ α} (hA : ∀ m, A m → B m)
    (hQ : ∀ a m, Q a m → Q' a m) (h : R.Triple t B p Q) : R.Triple t A p Q' := by
  unfold Triple at h ⊢
  intro m hinv hm
  exact Prog.wp_mono (fun a m' hm' => ⟨hm'.1, hQ a m' hm'.2⟩) (h m hinv (hA m hm))

/-- A fact in front of the assertion may be assumed. -/
theorem triple_fact {F : Prop} {p : Prog σ μ ι φ ρ α} (h : F → R.Triple t A p Q) :
    R.Triple t (fun m => F ∧ A m) p Q := by
  unfold Triple at h ⊢
  intro m hinv hm
  exact h hm.1 m hinv hm.2

theorem triple_exists {γ : Type} {A : γ → Mach σ μ → Prop} {p : Prog σ μ ι φ ρ α}
    (h : ∀ x, R.Triple t (A x) p Q) : R.Triple t (fun m => ∃ x, A x m) p Q := by
  unfold Triple at h ⊢
  intro m hinv hm
  obtain ⟨x, hx⟩ := hm
  exact h x m hinv hx

/-- What is known of the state that was read may be kept in a new assertion. -/
theorem triple_get {k : σ → Prog σ μ ι φ ρ α} (hA : R.Stable t A)
    (h : ∀ m, R.inv m → A m → ∃ B, B m ∧ R.Triple t B (k m.mem) Q) :
    R.Triple t A (.get k) Q := by
  unfold Triple at h ⊢
  intro m hinv hm m' hrely
  obtain ⟨B, hB, hk⟩ := h m' (hrely.2 hinv) (hA m m' hrely.1 hm)
  exact hk m' (hrely.2 hinv) hB

theorem triple_act {f : σ → σ} {k : Prog σ μ ι φ ρ α} (hA : R.Stable t A)
    (hf : ∀ m, R.inv m → A m → R.Step t m (m.upd f) B) (hk : R.Triple t B k Q) :
    R.Triple t A (.act f k) Q := by
  unfold Triple at hk ⊢
  intro m hinv hm m' hrely
  have hstep := hf m' (hrely.2 hinv) (hA m m' hrely.1 hm)
  exact ⟨⟨hstep.inv, hstep.safe⟩, hk _ hstep.inv hstep.post⟩

theorem triple_lock {i : ι} {x : μ} {k : Bool → Prog σ μ ι φ ρ α} (hA : R.Stable t A)
    (hx : ∀ m, R.inv m → A m → m.owner x = none → R.Step t m (m.acquire t x) B)
    (htaken : R.Triple t B (k false) Q) (hintr : R.Triple t A (k true) Q) :
    R.Triple t A (.lock i x k) Q := by
  unfold Triple at htaken hintr ⊢
  intro m hinv hm m' hrely
  have hinv' := hrely.2 hinv
  have hm' := hA m m' hrely.1 hm
  refine ⟨trivial, ?_, ?_⟩
  · intro hfree
    have hstep := hx m' hinv' hm' hfree
    exact ⟨⟨hstep.inv, hstep.safe⟩, htaken _ hstep.inv hstep.post⟩
  · intro _
    exact hintr m' hinv' hm'

theorem triple_unlock {x : μ} {k : Prog σ μ ι φ ρ α} (hA : R.Stable t A)
    (hx : ∀ m, R.inv m → A m → R.Step t m (m.release x) B) (hk : R.Triple t B k Q) :
    R.Triple t A (.unlock x k) Q := by
  unfold Triple at hk ⊢
  intro m hinv hm m' hrely
  have hstep := hx m' (hrely.2 hinv) (hA m m' hrely.1 hm)
  exact ⟨trivial, ⟨hstep.inv, hstep.safe⟩, hk _ hstep.inv hstep.post⟩

theorem triple_ask {q : κ} {k : ρ q → Prog σ μ ι φ ρ α} (hA : R.Stable t A)
    (h : ∀ a, R.Triple t A (k a) Q) : R.Triple t A (.ask q k) Q := by
  unfold Triple at h ⊢
  intro m hinv hm m' hrely a _
  exact h a m' (hrely.2 hinv) (hA m m' hrely.1 hm)

theorem triple_fail {e : φ} : R.Triple t A (.fail e : Prog σ μ ι φ ρ α) Q := by
  unfold Triple
  intro m _ _ m' _
  trivial

end Rules

/-! ## Threads -/

section Threads

variable {R : Protocol σ μ} {K : Nat → Mach σ μ → Prop}

omit [DecidableEq μ] in
/-- The contexts of a protocol fit together. -/
theorem compat (hK : ∀ t, R.Stable t (K t)) :
    Compat (fun t => R.ctx (ι := ι) (φ := φ) (ρ := ρ) t) R.inv
      (fun t m => R.inv m ∧ K t m) where
  tid := fun _ => rfl
  inv := fun _ _ => Iff.rfl
  refl := fun t m _ => ⟨R.refl t m, fun h => h⟩
  trans := fun t _ _ _ h₁ h₂ => ⟨R.trans t _ _ _ h₁.1 h₂.1, fun h => h₂.2 (h₁.2 h)⟩
  others := fun _ u _ _ hne _ hinv hg => ⟨hg u (Ne.symm hne), fun _ => hinv⟩
  answer := fun _ _ _ => trivial
  stable := fun t m m' h hr => ⟨hr.2 h.1, hK t m m' hr.1 h.2⟩

variable {prog : χ → Prog σ μ ι φ ρ α} {calls : χ → Prop} {intr : ι → Prop}
  {init : Mach σ μ → Prop}

/-- The run rule. -/
theorem reach (hK : ∀ t, R.Stable t (K t))
    (hcalls : ∀ t call, calls call → R.Triple t (K t) (prog call) fun _ => K t)
    (hinit : ∀ m, init m → R.inv m ∧ ∀ t, K t m) {c : Config σ μ ι φ ρ α}
    (hc : Config.Reach prog calls intr init c) :
    R.inv c.mach ∧ ∀ e c', c.Permits calls intr e → c.next prog e = some c' →
      c'.mach = c.mach ∨ ∃ t, ∀ u, u ≠ t → R.safe u c.mach c'.mach := by
  unfold Triple at hcalls
  have hwp : ∀ t call m, calls call → R.inv m → R.inv m ∧ K t m →
      (prog call).wp (R.ctx t) (fun _ m' => R.inv m' ∧ K t m') m :=
    fun t call m hcall hinv hm => hcalls t call hcall m hinv hm.2
  have hgood := (compat hK).reach (fun _ _ _ => trivial) hwp
    (fun m hm => ⟨(hinit m hm).1, fun t => ⟨(hinit m hm).1, (hinit m hm).2 t⟩⟩) hc
  refine ⟨hgood.inv, ?_⟩
  intro e c' hp hn
  exact ((compat hK).step (fun _ _ _ => trivial) hwp hgood hp hn).2

/-- What calls return: a postcondition that the others cannot make false holds of
every call that is about to return. -/
theorem returns (hK : ∀ t, R.Stable t (K t)) {Q : Nat → α → Mach σ μ → Prop}
    (hQ : ∀ t a, R.Stable t (Q t a)) (hQK : ∀ t a m, Q t a m → K t m)
    (hcalls : ∀ t call, calls call → R.Triple t (K t) (prog call) (Q t))
    (hinit : ∀ m, init m → R.inv m ∧ ∀ t, K t m) {c : Config σ μ ι φ ρ α}
    (hc : Config.Reach prog calls intr init c) :
    R.inv c.mach ∧ ∀ t a, c.threads t = some (.ret a) → Q t a c.mach := by
  unfold Triple at hcalls
  have hpost : Compat.Post (fun t => R.ctx (ι := ι) (φ := φ) (ρ := ρ) t)
      (fun t m => R.inv m ∧ K t m) (fun t a m => R.inv m ∧ Q t a m) :=
    ⟨fun t a m m' h hr => ⟨hr.2 h.1, hQ t a m m' hr.1 h.2⟩,
      fun t a m h => ⟨h.1, hQK t a m h.2⟩⟩
  have hgood := (compat hK).reachWith hpost (fun _ _ _ => trivial)
    (fun t call m hcall hinv hm => hcalls t call hcall m hinv hm.2)
    (fun m hm => ⟨(hinit m hm).1, fun t => ⟨(hinit m hm).1, (hinit m hm).2 t⟩⟩) hc
  refine ⟨hgood.inv, ?_⟩
  intro t a ht
  exact (hgood.running t _ ht).2

/-- What every safe step says of two successive machines holds between any two
machines of a run. -/
theorem exec (hK : ∀ t, R.Stable t (K t))
    (hcalls : ∀ t call, calls call → R.Triple t (K t) (prog call) fun _ => K t)
    (hinit : ∀ m, init m → R.inv m ∧ ∀ t, K t m) {r : Mach σ μ → Mach σ μ → Prop}
    (hrefl : ∀ m, r m m) (htrans : ∀ m₁ m₂ m₃, r m₁ m₂ → r m₂ m₃ → r m₁ m₃)
    (hsafe : ∀ u m m', R.safe u m m' → r m m') (es : List (Event χ ρ)) {c c' : Config σ μ ι φ ρ α}
    (hes : ∀ t call, Event.start t call ∈ es → calls call)
    (hc : Config.Reach prog calls (fun _ => True) init c) (h : c.exec prog es = some c') :
    r c.mach c'.mach := by
  induction es generalizing c with
  | nil =>
      cases h
      exact hrefl _
  | cons e es ih =>
      obtain ⟨c₁, h₁, h₂⟩ := Option.bind_eq_some_iff.mp h
      have hp : c.Permits calls (fun _ => True) e := by
        cases e with
        | start t call => exact hes t call List.mem_cons_self
        | step t => trivial
        | interrupt t => exact fun _ _ _ _ => trivial
        | answer t a => trivial
      have hrest : r c₁.mach c'.mach :=
        ih (fun t call hm => hes t call (List.mem_cons_of_mem _ hm)) (.step e hc hp h₁) h₂
      rcases (reach hK hcalls hinit hc).2 e c₁ hp h₁ with hsame | ⟨t, ht⟩
      · rwa [hsame] at hrest
      · exact htrans _ _ _ (hsafe (t + 1) _ _ (ht (t + 1) (by omega))) hrest

end Threads

/-! ## Invariants of the memory

The protocol in which threads agree on nothing but an invariant of the memory. Its triples need
no assertions: what has to be shown of a program is that its updates keep the invariant. -/

/-- Every step keeps `I`. -/
def ofInv (I : σ → Prop) : Protocol σ μ where
  inv := fun m => I m.mem
  safe := fun _ _ _ => True
  refl := fun _ _ => trivial
  trans := fun _ _ _ _ _ _ => trivial

/-- The updates in a program keep `I`. -/
def Maintains (I : σ → Prop) : Prog σ μ ι φ ρ α → Prop
  | .ret _ | .fail _ => True
  | .get k => ∀ s, Maintains I (k s)
  | .act f k => (∀ s, I s → I (f s)) ∧ Maintains I k
  | .lock _ _ k => ∀ b, Maintains I (k b)
  | .unlock _ k => Maintains I k
  | .ask _ k => ∀ a, Maintains I (k a)

variable {I : σ → Prop}

omit [DecidableEq μ] in
theorem Maintains.bind {p : Prog σ μ ι φ ρ α} {f : α → Prog σ μ ι φ ρ β} (hp : Maintains I p)
    (hf : ∀ a, Maintains I (f a)) : Maintains I (p >>= f) := by
  induction p with
  | ret a => exact hf a
  | get k ih => exact fun s => ih s (hp s)
  | act g k ih => exact ⟨hp.1, ih hp.2⟩
  | lock i x k ih => exact fun b => ih b (hp b)
  | unlock x k ih => exact ih hp
  | ask q k ih => exact fun a => ih a (hp a)
  | fail e => trivial

section

omit [DecidableEq μ]

theorem maintains_ret (a : α) : Maintains I (.ret a : Prog σ μ ι φ ρ α) := trivial

theorem maintains_fail (e : φ) : Maintains I (.fail e : Prog σ μ ι φ ρ α) := trivial

theorem maintains_get {k : σ → Prog σ μ ι φ ρ α} (hk : ∀ s, Maintains I (k s)) :
    Maintains I (.get k) := hk

theorem maintains_act {f : σ → σ} {k : Prog σ μ ι φ ρ α} (hf : ∀ s, I s → I (f s))
    (hk : Maintains I k) : Maintains I (.act f k) := ⟨hf, hk⟩

theorem maintains_lock {i : ι} {x : μ} {k : Bool → Prog σ μ ι φ ρ α} (hk : ∀ b, Maintains I (k b)) :
    Maintains I (.lock i x k) := hk

theorem maintains_unlock {x : μ} {k : Prog σ μ ι φ ρ α} (hk : Maintains I k) :
    Maintains I (.unlock x k) := hk

end

theorem Maintains.triple {p : Prog σ μ ι φ ρ α} (hp : Maintains I p) (t : Nat) :
    (ofInv I).Triple t (fun _ => True) p fun _ _ => True := by
  have htrue : (ofInv I : Protocol σ μ).Stable t fun _ => True := fun _ _ _ _ => trivial
  induction p with
  | ret a => exact triple_ret a fun _ _ => trivial
  | get k ih => exact triple_get htrue fun m _ _ => ⟨fun _ => True, trivial, ih m.mem (hp m.mem)⟩
  | act f k ih =>
      apply triple_act htrue _ (ih hp.2)
      exact fun m hinv _ => ⟨hp.1 m.mem hinv, fun _ _ => trivial, trivial⟩
  | lock i x k ih =>
      apply triple_lock htrue _ (ih false (hp false)) (ih true (hp true))
      exact fun m hinv _ _ => ⟨hinv, fun _ _ => trivial, trivial⟩
  | unlock x k ih =>
      apply triple_unlock htrue _ (ih hp)
      exact fun m hinv _ => ⟨hinv, fun _ _ => trivial, trivial⟩
  | ask q k ih => exact triple_ask htrue fun a => ih a (hp a)
  | fail e => exact triple_fail

-- as for `Triple`, unification is not to look into the program
attribute [irreducible] Maintains

/-- What every program maintains holds in every run. -/
theorem maintained {prog : χ → Prog σ μ ι φ ρ α} {calls : χ → Prop} {intr : ι → Prop}
    {init : Mach σ μ → Prop} (hcalls : ∀ call, calls call → Maintains I (prog call))
    (hinit : ∀ m, init m → I m.mem) {c : Config σ μ ι φ ρ α}
    (hc : Config.Reach prog calls intr init c) : I c.mach.mem :=
  (reach (R := ofInv I) (fun _ _ _ _ _ => trivial) (fun t call hcall => (hcalls call hcall).triple t)
    (fun m hm => ⟨hinit m hm, fun _ => trivial⟩) hc).1

end Protocol

end

end Base
