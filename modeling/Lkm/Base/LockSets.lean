import Lkm.Base.Threads

/-!
# Lock sets

Which mutexes does a piece of code hold, at each point? `LockSafe D p H Q` says of the
program `p`, entered with the mutexes in `H` held: it keeps to the policy `D` and returns
`a` holding `Q a`; whichever of the waits that `D` lets be interrupted are, and whatever
the shared memory contains. The policy says in which order mutexes are taken, what may be
held together, what is held at a wait, and which mutexes are unlocked only by the thread
that holds them. With one rule for each primitive, a function's lock set is read off its
code. From it follow

* **alone** — `LockSafe.run`: a call that runs alone never waits forever;
* **together** — `LockSafe.reach`: any number of threads keep to the policy, return with
  nothing held, and do not deadlock.
-/

namespace Base

section

variable {σ μ ι φ κ α β χ : Type} {ρ : κ → Type} [DecidableEq μ]

/-- A set of mutexes. -/
abbrev LockSet (μ : Type) := μ → Bool

namespace LockSet

def empty : LockSet μ := fun _ => false

def add (H : LockSet μ) (x : μ) : LockSet μ := Function.update H x true

def remove (H : LockSet μ) (x : μ) : LockSet μ := Function.update H x false

/-- Taking and dropping a mutex that was not held. -/
theorem remove_add {H : LockSet μ} {x : μ} (h : H x = false) : (H.add x).remove x = H := by
  unfold add remove
  rw [Function.update_idem, ← h, Function.update_eq_self]

/-- Dropping a mutex that was not held. -/
theorem remove_of_not {H : LockSet μ} {x : μ} (h : H x = false) : H.remove x = H := by
  unfold remove
  rw [← h, Function.update_eq_self]

end LockSet

/-- How the mutexes are to be used. -/
structure LockPolicy (μ ι : Type) where
  /-- Waits go up in this order. -/
  rank : μ → Nat
  /-- The waits that may be interrupted. -/
  intr : ι → Prop
  /-- The mutexes that a thread may unlock without holding them. -/
  loose : μ → Prop
  /-- What a thread may hold together. -/
  nest : LockSet μ → Prop
  /-- What a thread may wait for, and hold while it does. -/
  wait : ι → μ → LockSet μ → Prop

/-- Thread `t` holds the mutexes in `H` and no others; a loose one may have been taken
from it. -/
structure Holds (loose : μ → Prop) (t : Nat) (H : LockSet μ) (m : Mach σ μ) : Prop where
  only : ∀ x, m.owner x = some t → H x = true
  firm : ∀ x, ¬ loose x → H x = true → m.owner x = some t

/-- From `m` to `m'` thread `t` gains no mutex, and loses none but a loose one. -/
structure Spares (loose : μ → Prop) (t : Nat) (m m' : Mach σ μ) : Prop where
  gains : ∀ x, m'.owner x = some t → m.owner x = some t
  keeps : ∀ x, ¬ loose x → m.owner x = some t → m'.owner x = some t

section Holds

variable {loose : μ → Prop} {t u : Nat} {H : LockSet μ} {m m' : Mach σ μ}

omit [DecidableEq μ] in
theorem Spares.refl (loose : μ → Prop) (t : Nat) (m : Mach σ μ) : Spares loose t m m :=
  ⟨fun _ h => h, fun _ _ h => h⟩

omit [DecidableEq μ] in
theorem Spares.trans {m'' : Mach σ μ} (h₁ : Spares loose t m m') (h₂ : Spares loose t m' m'') :
    Spares loose t m m'' :=
  ⟨fun x h => h₁.gains x (h₂.gains x h), fun x hx h => h₂.keeps x hx (h₁.keeps x hx h)⟩

/-- Taking a free mutex. -/
theorem Spares.acquire {x : μ} (hx : m.owner x = none) (hu : u ≠ t) :
    Spares loose u m (m.acquire t x) := by
  constructor
  · intro y hy
    by_cases hyx : y = x
    · subst hyx
      simp [Ne.symm hu] at hy
    · simpa [hyx] using hy
  · intro y _ hy
    have hyx : y ≠ x := by
      rintro rfl
      rw [hx] at hy
      cases hy
    simpa [hyx] using hy

/-- Dropping a mutex that is loose, or one's own. -/
theorem Spares.release {x : μ} (hx : loose x ∨ m.owner x = some t) (hu : u ≠ t) :
    Spares loose u m (m.release x) := by
  constructor
  · intro y hy
    by_cases hyx : y = x
    · subst hyx
      simp at hy
    · simpa [hyx] using hy
  · intro y hfirm hy
    have hyx : y ≠ x := by
      rintro rfl
      rcases hx with hloose | hown
      · exact hfirm hloose
      · exact hu (Option.some.inj (hy.symm.trans hown))
    simpa [hyx] using hy

omit [DecidableEq μ] in
theorem Holds.congr (h : Holds loose t H m) (hs : Spares loose t m m') : Holds loose t H m' :=
  ⟨fun x hx => h.only x (hs.gains x hx), fun x hfirm hx => hs.keeps x hfirm (h.firm x hfirm hx)⟩

theorem Holds.acquire (h : Holds loose t H m) (x : μ) : Holds loose t (H.add x) (m.acquire t x) := by
  constructor
  · intro y hy
    by_cases hyx : y = x
    · simp [LockSet.add, hyx]
    · simpa [LockSet.add, hyx] using h.only y (by simpa [hyx] using hy)
  · intro y hfirm hy
    by_cases hyx : y = x
    · simp [hyx]
    · simpa [hyx] using h.firm y hfirm (by simpa [LockSet.add, hyx] using hy)

theorem Holds.release (h : Holds loose t H m) (x : μ) : Holds loose t (H.remove x) (m.release x) := by
  constructor
  · intro y hy
    by_cases hyx : y = x
    · subst hyx
      simp at hy
    · simpa [LockSet.remove, hyx] using h.only y (by simpa [hyx] using hy)
  · intro y hfirm hy
    by_cases hyx : y = x
    · subst hyx
      simp [LockSet.remove] at hy
    · simpa [hyx] using h.firm y hfirm (by simpa [LockSet.remove, hyx] using hy)

omit [DecidableEq μ] in
/-- What may be unlocked is loose, or one's own. -/
theorem Holds.owner (h : Holds loose t H m) {x : μ} (hx : loose x ∨ H x = true) :
    loose x ∨ m.owner x = some t := by
  by_cases hloose : loose x
  · exact .inl hloose
  · exact .inr (h.firm x hloose (hx.resolve_left hloose))

end Holds

/-- A property of machines that the steps of thread `t` do not break, as long as it keeps to
the policy. -/
structure Closed (D : LockPolicy μ ι) (t : Nat) (J : Mach σ μ → Prop) : Prop where
  upd : ∀ m f, J m → J (m.upd f)
  acquire : ∀ m x H, J m → m.owner x = none → Holds D.loose t H m → D.nest (H.add x) →
    J (m.acquire t x)
  release : ∀ m x H, J m → Holds D.loose t H m → D.loose x ∨ m.owner x = some t →
    D.nest (H.remove x) → J (m.release x)

/-- The context in which the use of locks is checked. -/
def lockCtx (D : LockPolicy μ ι) (J : Mach σ μ → Prop) (t : Nat) : Ctx σ μ ι φ ρ where
  tid := t
  rely := fun m m' => Spares D.loose t m m' ∧ (J m → J m')
  inv := J
  guar := fun m m' => ∀ u, u ≠ t → Spares D.loose u m m'
  mayInterrupt := D.intr
  mayAnswer := fun _ _ => True
  mayFault := fun _ _ => True
  onLock := fun i x m => (∀ y, m.owner y = some t → D.rank y < D.rank x) ∧
    ∃ H, Holds D.loose t H m ∧ D.wait i x H
  onUnlock := fun x m => D.loose x ∨ m.owner x = some t

/-- See the head of the module. Irreducible, so that unification does not look
into the program. -/
@[irreducible] def LockSafe (D : LockPolicy μ ι) (p : Prog σ μ ι φ ρ α) (H : LockSet μ)
    (Q : α → LockSet μ) : Prop :=
  ∀ t J m, Closed D t J → J m → Holds D.loose t H m →
    p.wp (lockCtx D J t) (fun a m' => J m' ∧ Holds D.loose t (Q a) m') m

namespace LockSafe

variable {D : LockPolicy μ ι} {H : LockSet μ}

/-! ## Rules -/

theorem ret {Q : α → LockSet μ} (a : α) (h : Q a = H) :
    LockSafe (σ := σ) (φ := φ) (ρ := ρ) D (.ret a) H Q := by
  unfold LockSafe
  intro t J m _ hJ hH
  exact ⟨hJ, h ▸ hH⟩

theorem bind {p : Prog σ μ ι φ ρ α} {f : α → Prog σ μ ι φ ρ β} {R : α → LockSet μ}
    {Q : β → LockSet μ} (hp : LockSafe D p H R) (hf : ∀ a, LockSafe D (f a) (R a) Q) :
    LockSafe D (p >>= f) H Q := by
  unfold LockSafe at hp hf ⊢
  intro t J m hC hJ hH
  exact Prog.wp_seq (hp t J m hC hJ hH) fun a m' hm' => hf a t J m' hC hm'.1 hm'.2

theorem get {k : σ → Prog σ μ ι φ ρ α} {Q : α → LockSet μ} (h : ∀ s, LockSafe D (k s) H Q) :
    LockSafe D (.get k) H Q := by
  unfold LockSafe at h ⊢
  intro t J m hC hJ hH m' hr
  exact h m'.mem t J m' hC (hr.2 hJ) (hH.congr hr.1)

theorem act {f : σ → σ} {k : Prog σ μ ι φ ρ α} {Q : α → LockSet μ} (h : LockSafe D k H Q) :
    LockSafe D (.act f k) H Q := by
  unfold LockSafe at h ⊢
  intro t J m hC hJ hH m' hr
  have hJ' := hC.upd m' f (hr.2 hJ)
  have hH' := hH.congr hr.1
  exact ⟨⟨hJ', fun u _ => ⟨fun _ h => h, fun _ _ h => h⟩⟩, h t J _ hC hJ' ⟨hH'.only, hH'.firm⟩⟩

/-- A wait goes up in the order. -/
theorem lock {i : ι} {x : μ} {k : Bool → Prog σ μ ι φ ρ α} {Q : α → LockSet μ}
    (hrank : ∀ y, H y = true → D.rank y < D.rank x) (hwait : D.wait i x H) (hnest : D.nest (H.add x))
    (htaken : LockSafe D (k false) (H.add x) Q) (hintr : D.intr i → LockSafe D (k true) H Q) :
    LockSafe D (.lock i x k) H Q := by
  unfold LockSafe at htaken hintr ⊢
  intro t J m hC hJ hH m' hr
  have hH' := hH.congr hr.1
  refine ⟨⟨fun y hy => hrank y (hH'.only y hy), H, hH', hwait⟩, fun hx => ?_, fun hi => ?_⟩
  · have hJ' := hC.acquire m' x H (hr.2 hJ) hx hH' hnest
    exact ⟨⟨hJ', fun u hu => Spares.acquire hx hu⟩, htaken t J _ hC hJ' (hH'.acquire x)⟩
  · exact hintr hi t J m' hC (hr.2 hJ) hH'

theorem unlock {x : μ} {k : Prog σ μ ι φ ρ α} {Q : α → LockSet μ} (hx : D.loose x ∨ H x = true)
    (hnest : D.nest (H.remove x)) (h : LockSafe D k (H.remove x) Q) :
    LockSafe D (.unlock x k) H Q := by
  unfold LockSafe at h ⊢
  intro t J m hC hJ hH m' hr
  have hH' := hH.congr hr.1
  have hown := hH'.owner hx
  have hJ' := hC.release m' x H (hr.2 hJ) hH' hown hnest
  exact ⟨hown, ⟨hJ', fun u hu => Spares.release hown hu⟩, h t J _ hC hJ' (hH'.release x)⟩

theorem ask {q : κ} {k : ρ q → Prog σ μ ι φ ρ α} {Q : α → LockSet μ}
    (h : ∀ a, LockSafe D (k a) H Q) : LockSafe D (.ask q k) H Q := by
  unfold LockSafe at h ⊢
  intro t J m hC hJ hH m' hr a _
  exact h a t J m' hC (hr.2 hJ) (hH.congr hr.1)

theorem fail {e : φ} {Q : α → LockSet μ} : LockSafe (σ := σ) (ρ := ρ) D (.fail e) H Q := by
  unfold LockSafe
  intro t J m _ _ _ m' _
  trivial

/-! ## A call alone -/

/-- Only thread `t` holds anything. -/
def Alone (t : Nat) (m : Mach σ μ) : Prop := ∀ x u, m.owner x = some u → u = t

theorem alone_closed (t : Nat) : Closed D t (Alone (σ := σ) (μ := μ) t) where
  upd := fun m f h => h
  acquire := by
    intro m x _ h _ _ _ y u hu
    by_cases hy : y = x
    · subst hy
      simpa using hu.symm
    · exact h y u (by simpa [hy] using hu)
  release := by
    intro m x _ h _ _ _ y u hu
    by_cases hy : y = x
    · subst hy
      simp at hu
    · exact h y u (by simpa [hy] using hu)

omit [DecidableEq μ] in
theorem holds_empty {loose : μ → Prop} {t : Nat} {m : Mach σ μ} (hfree : ∀ x, m.owner x = none) :
    Holds loose t .empty m := by
  constructor
  · intro x hx
    rw [hfree x] at hx
    cases hx
  · intro x _ hx
    cases hx

/-- A lock-safe call that runs alone does not hang, and leaves every mutex
free. -/
theorem run {p : Prog σ μ ι φ ρ α} (h : LockSafe D p .empty fun _ => .empty)
    {w : World ι ρ} (hw : ∀ i, w.interrupted i = true → D.intr i) {t : Nat} {m : Mach σ μ}
    (hfree : ∀ x, m.owner x = none) :
    (p.run w t m).Meets (fun _ m' => ∀ x, m'.owner x = none) (fun _ => False)
      (fun _ _ => True) := by
  unfold LockSafe at h
  have halone : Alone t m := by
    intro x u hu
    rw [hfree x] at hu
    cases hu
  have hrun := Prog.wp_run (C := lockCtx D (Alone t) t)
    (fun m' _ => ⟨Spares.refl _ _ _, fun hJ => hJ⟩) (w := w) ⟨hw, fun _ => trivial⟩ halone
    (h t (Alone t) m (alone_closed t) halone (holds_empty hfree))
  refine hrun.2.mono (fun a m' hm' x => ?_) (fun m' hm' => ?_) (fun _ _ _ => trivial)
  · cases hx : m'.owner x with
    | none => rfl
    | some u =>
        have hu := hm'.1 x u hx
        subst hu
        cases hm'.2.only x hx
  · -- what a call alone waits for it holds itself, but waits go up
    obtain ⟨halone', i, x, ⟨hrank, -⟩, hx⟩ := hm'
    obtain ⟨u, hu⟩ := Option.ne_none_iff_exists'.mp hx
    rw [halone' x u hu] at hu
    exact absurd (hrank x hu) (Nat.lt_irrefl _)

/-! ## Threads -/

/-- Every thread holds together what it may. -/
def Nested (D : LockPolicy μ ι) (m : Mach σ μ) : Prop := ∀ u, ∃ H, Holds D.loose u H m ∧ D.nest H

theorem nested_closed (D : LockPolicy μ ι) (t : Nat) : Closed D t (Nested (σ := σ) D) where
  upd := by
    intro m f h u
    obtain ⟨H, hH, hnest⟩ := h u
    exact ⟨H, ⟨hH.only, hH.firm⟩, hnest⟩
  acquire := by
    intro m x H h hx hH hnest u
    by_cases hu : u = t
    · subst hu
      exact ⟨_, hH.acquire x, hnest⟩
    · obtain ⟨H', hH', hnest'⟩ := h u
      exact ⟨H', hH'.congr (Spares.acquire hx hu), hnest'⟩
  release := by
    intro m x H h hH hown hnest u
    by_cases hu : u = t
    · subst hu
      exact ⟨_, hH.release x, hnest⟩
    · obtain ⟨H', hH', hnest'⟩ := h u
      exact ⟨H', hH'.congr (Spares.release hown hu), hnest'⟩

omit [DecidableEq μ] in
/-- The lock contexts of all threads fit together. -/
theorem compat (D : LockPolicy μ ι) :
    Compat (fun t => lockCtx (φ := φ) (ρ := ρ) D (Nested (σ := σ) D) t) (Nested D)
      (fun t m => Nested D m ∧ Holds D.loose t LockSet.empty m) where
  tid := fun _ => rfl
  inv := fun _ _ => Iff.rfl
  refl := fun _ _ _ => ⟨Spares.refl _ _ _, fun h => h⟩
  trans := fun _ _ _ _ h₁ h₂ => ⟨h₁.1.trans h₂.1, fun h => h₂.2 (h₁.2 h)⟩
  others := fun _ u _ _ hne _ hJ' hg => ⟨hg u (Ne.symm hne), fun _ => hJ'⟩
  answer := fun _ _ _ => trivial
  stable := fun _ _ _ hK hr => ⟨hr.2 hK.1, hK.2.congr hr.1⟩

/-- What the policy gives at every point of a run. -/
structure Disciplined (D : LockPolicy μ ι) (c : Config σ μ ι φ ρ α) : Prop where
  unlock : ∀ t x k, c.threads t = some (.unlock x k) → D.loose x ∨ c.mach.owner x = some t
  idle : ∀ t, c.threads t = none ∨ (∃ a, c.threads t = some (.ret a)) →
    ∀ x, c.mach.owner x ≠ some t
  order : ∀ t i x k, c.threads t = some (.lock i x k) →
    ∀ y, c.mach.owner y = some t → D.rank y < D.rank x
  wait : ∀ t i x k, c.threads t = some (.lock i x k) → ∃ H, Holds D.loose t H c.mach ∧ D.wait i x H
  nested : Nested D c.mach

/-- Any number of threads that run lock-safe calls keep to the policy. -/
theorem reach {prog : χ → Prog σ μ ι φ ρ α} {calls : χ → Prop} {init : Mach σ μ → Prop}
    (hcalls : ∀ c, calls c → LockSafe D (prog c) .empty fun _ => .empty)
    (hinit : ∀ m, init m → ∀ x, m.owner x = none) (hempty : D.nest .empty)
    {c : Config σ μ ι φ ρ α} (hc : Config.Reach prog calls D.intr init c) : Disciplined D c := by
  have hgood := (compat (σ := σ) (φ := φ) (ρ := ρ) D).reach
    (fun _ _ hi => hi) (fun t call m (hcall : calls call) hJ hK => by
      have h := hcalls call hcall
      unfold LockSafe at h
      exact h t (Nested D) m (nested_closed D t) hJ hK.2)
    (fun m hm => by
      have hnested : Nested D m := fun u => ⟨.empty, holds_empty (hinit m hm), hempty⟩
      exact ⟨hnested, fun t => ⟨hnested, holds_empty (hinit m hm)⟩⟩) hc
  have hstay : ∀ t, (lockCtx (φ := φ) (ρ := ρ) D (Nested (σ := σ) D) t).rely c.mach c.mach :=
    fun t => ⟨Spares.refl _ _ _, fun h => h⟩
  refine ⟨?_, ?_, ?_, ?_, hgood.inv⟩
  · intro t x k ht
    exact (hgood.running t _ ht _ (hstay t)).1
  · intro t ht x hx
    have hK : Holds D.loose t LockSet.empty c.mach := by
      rcases ht with ht | ⟨a, ht⟩
      · exact (hgood.idle t ht).2
      · exact (hgood.running t _ ht).2
    cases hK.only x hx
  · intro t i x k ht
    exact (hgood.running t _ ht _ (hstay t)).1.1
  · intro t i x k ht
    exact (hgood.running t _ ht _ (hstay t)).1.2

omit [DecidableEq μ] in
/-- Threads that keep to the policy do not deadlock. -/
theorem Disciplined.not_deadlock {c : Config σ μ ι φ ρ α} (h : Disciplined D c) (top : Nat)
    (htop : ∀ x, D.rank x < top) : ¬ c.Deadlock := by
  apply Base.not_deadlock D.rank top htop h.order
  intro y t hy hnone
  exact h.idle t (.inl hnone) y hy

end LockSafe

end

end Base
