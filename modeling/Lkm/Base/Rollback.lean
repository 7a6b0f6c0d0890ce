import Mathlib.Order.BooleanAlgebra.Set
import Mathlib.Data.List.Nodup

/-!
# Bringing a list up, or none of it

`bringUp` brings the members of a list up one after the other, and when one of them fails
takes those before it down again, the last one first. `Layers` says what `up` and `down` do
to the set of members that are up, where the members of `stuck` do not come down; then all
of them are up in the end or none but those that are stuck, whichever of them failed
(`bringUp_ok`, `bringUp_error`), and taking them down, in any order, leaves those that are
stuck (`tearDown_all`).
-/

namespace Base

section Rollback

variable {σ ι ε : Type} (up : ι → σ → Except ε Unit × σ) (down : ι → σ → σ)

/-- Take the members of a list down, one after the other. -/
def tearDown (xs : List ι) (s : σ) : σ := xs.foldl (fun s x => down x s) s

/-- Bring the members of a list up. `done` are those that are up, the last one in front. -/
def bringUp (done : List ι) : List ι → σ → Except ε Unit × σ
  | [], s => (.ok (), s)
  | x :: xs, s =>
      match up x s with
      | (.ok (), s') => bringUp (x :: done) xs s'
      | (.error e, s') => (.error e, tearDown down done s')

/-- `Up S s`: in the state `s` the members of `S` are up. -/
structure Layers (A stuck : Set ι) (Up : Set ι → σ → Prop) : Prop where
  ok : ∀ S x s s', x ∈ A → x ∉ S → Up S s → up x s = (.ok (), s') → Up (insert x S) s'
  error : ∀ S x s s' e, x ∈ A → x ∉ S → Up S s → up x s = (.error e, s') → Up S s'
  free : ∀ S x s, x ∈ S → x ∉ stuck → Up S s → Up (S \ {x}) (down x s)
  kept : ∀ S x s, x ∈ S → x ∈ stuck → Up S s → Up S (down x s)

/-- The members of a list. -/
def members (xs : List ι) : Set ι := {x | x ∈ xs}

theorem mem_members {x : ι} {xs : List ι} : x ∈ members xs ↔ x ∈ xs := Iff.rfl

theorem members_nil : members ([] : List ι) = ∅ := by
  ext x
  simp [mem_members]

theorem members_cons (x : ι) (xs : List ι) : members (x :: xs) = insert x (members xs) := by
  ext y
  simp [mem_members]

variable {up down} {A stuck : Set ι} {Up : Set ι → σ → Prop}

theorem tearDown_up (h : Layers up down A stuck Up) {xs : List ι} {S : Set ι} {s : σ}
    (hnodup : xs.Nodup) (hmem : members xs ⊆ S) (hup : Up S s) :
    Up (S \ (members xs \ stuck)) (tearDown down xs s) := by
  induction xs generalizing S s with
  | nil =>
      rw [members_nil, Set.empty_sdiff, Set.sdiff_empty]
      exact hup
  | cons x xs ih =>
      obtain ⟨hx, hnodup⟩ := List.nodup_cons.mp hnodup
      have hxS : x ∈ S := hmem List.mem_cons_self
      have hxs : members xs ⊆ S := fun y hy => hmem (List.mem_cons_of_mem x hy)
      by_cases hstuck : x ∈ stuck
      · rw [members_cons, Set.insert_sdiff_of_mem _ hstuck]
        exact ih hnodup hxs (h.kept S x s hxS hstuck hup)
      · have hrest : members xs ⊆ S \ {x} := by
          intro y hy
          refine ⟨hxs hy, ?_⟩
          rintro rfl
          exact hx hy
        have hdown := ih hnodup hrest (h.free S x s hxS hstuck hup)
        rw [Set.sdiff_sdiff, Set.singleton_union, ← Set.insert_sdiff_of_notMem _ hstuck,
          ← members_cons] at hdown
        exact hdown

/-- Taking all of them down leaves those that are stuck. -/
theorem tearDown_all (h : Layers up down A stuck Up) {xs : List ι} {s : σ} (hnodup : xs.Nodup)
    (hup : Up (members xs) s) : Up (members xs ∩ stuck) (tearDown down xs s) := by
  have hdown := tearDown_up h hnodup (Set.Subset.refl _) hup
  rwa [Set.sdiff_sdiff_right_self] at hdown

/-- What is up after the list has been walked through, behind `done`. -/
theorem bringUp_up (h : Layers up down A stuck Up) {done xs : List ι} {s s' : σ} {r : Except ε Unit}
    (hA : members xs ⊆ A) (hdone : done.Nodup) (hnodup : xs.Nodup) (hdisj : ∀ x ∈ xs, x ∉ done)
    (hup : Up (members done) s) (hrun : bringUp up down done xs s = (r, s')) :
    (r = .ok () → Up (members done ∪ members xs) s') ∧
      ∀ e, r = .error e → ∃ before x after, xs = before ++ x :: after ∧
        Up ((members done ∪ members before) ∩ stuck) s' := by
  induction xs generalizing done s with
  | nil =>
      obtain ⟨rfl, rfl⟩ := Prod.mk.inj hrun
      rw [members_nil, Set.union_empty]
      exact ⟨fun _ => hup, fun e he => nomatch he⟩
  | cons x xs ih =>
      obtain ⟨hx, hnodup⟩ := List.nodup_cons.mp hnodup
      have hnew : x ∉ done := hdisj x List.mem_cons_self
      rw [bringUp] at hrun
      cases hstep : up x s with
      | mk r₁ s₁ =>
          rw [hstep] at hrun
          cases r₁ with
          | ok u =>
              have hup' := h.ok _ x s s₁ (hA List.mem_cons_self) hnew hup hstep
              rw [← members_cons] at hup'
              have hdisj' : ∀ y ∈ xs, y ∉ x :: done := by
                intro y hy hmem
                rcases List.mem_cons.mp hmem with rfl | hmem
                · exact hx hy
                · exact hdisj y (List.mem_cons_of_mem x hy) hmem
              have hrest := ih (fun y hy => hA (List.mem_cons_of_mem x hy))
                (List.nodup_cons.mpr ⟨hnew, hdone⟩) hnodup hdisj' hup' hrun
              have hsame : ∀ ys, members (x :: done) ∪ members ys = members done ∪ members (x :: ys) := by
                intro ys
                rw [members_cons, members_cons, Set.insert_union, Set.union_insert]
              refine ⟨fun hok => hsame xs ▸ hrest.1 hok, ?_⟩
              intro e he
              obtain ⟨before, y, after, rfl, hend⟩ := hrest.2 e he
              rw [hsame] at hend
              exact ⟨x :: before, y, after, rfl, hend⟩
          | error e =>
              obtain ⟨rfl, rfl⟩ := Prod.mk.inj hrun
              have hup' := h.error _ x s s₁ e (hA List.mem_cons_self) hnew hup hstep
              refine ⟨fun hok => (nomatch hok), fun _ _ => ⟨[], x, xs, rfl, ?_⟩⟩
              rw [members_nil, Set.union_empty]
              exact tearDown_all h hdone hup'

section

variable (h : Layers up down A stuck Up) {xs : List ι} {s s' : σ} (hA : members xs ⊆ A)
  (hnodup : xs.Nodup) (hup : Up ∅ s)

include h hA hnodup hup

/-- All of them are up. -/
theorem bringUp_ok (hrun : bringUp up down [] xs s = (.ok (), s')) : Up (members xs) s' := by
  have hend := (bringUp_up h hA List.nodup_nil hnodup (fun _ _ => List.not_mem_nil)
    (members_nil ▸ hup) hrun).1 rfl
  rwa [members_nil, Set.empty_union] at hend

/-- None of them is, but for those in front of the one that failed that are stuck. -/
theorem bringUp_error {e : ε} (hrun : bringUp up down [] xs s = (.error e, s')) :
    ∃ before x after, xs = before ++ x :: after ∧ Up (members before ∩ stuck) s' := by
  obtain ⟨before, x, after, hxs, hend⟩ := (bringUp_up h hA List.nodup_nil hnodup
    (fun _ _ => List.not_mem_nil) (members_nil ▸ hup) hrun).2 e rfl
  rw [members_nil, Set.empty_union] at hend
  exact ⟨before, x, after, hxs, hend⟩

end

/-- When the list comes up: each member can be brought up on top of those before it. -/
theorem bringUp_ok_iff (h : Layers up down A stuck Up) {Can : Set ι → ι → Prop}
    (hcan : ∀ S x s, x ∈ A → x ∉ S → Up S s → ((up x s).1 = .ok () ↔ Can S x)) {done xs : List ι}
    {s : σ} (hA : members xs ⊆ A) (hnodup : xs.Nodup) (hdisj : ∀ x ∈ xs, x ∉ done)
    (hup : Up (members done) s) :
    (bringUp up down done xs s).1 = .ok () ↔
      ∀ before x after, xs = before ++ x :: after → Can (members done ∪ members before) x := by
  induction xs generalizing done s with
  | nil =>
      refine iff_of_true rfl ?_
      intro before x after hxs
      cases before <;> cases hxs
  | cons x xs ih =>
      obtain ⟨hx, hnodup⟩ := List.nodup_cons.mp hnodup
      have hnew : x ∉ done := hdisj x List.mem_cons_self
      have hfirst := hcan _ x s (hA List.mem_cons_self) hnew hup
      have hdisj' : ∀ y ∈ xs, y ∉ x :: done := by
        intro y hy hmem
        rcases List.mem_cons.mp hmem with rfl | hmem
        · exact hx hy
        · exact hdisj y (List.mem_cons_of_mem x hy) hmem
      -- the first member, and the ones behind it
      have hsplit : (∀ before y after, x :: xs = before ++ y :: after →
          Can (members done ∪ members before) y) ↔ Can (members done) x ∧
            ∀ before y after, xs = before ++ y :: after →
              Can (members (x :: done) ∪ members before) y := by
        have hsame : ∀ before, members (x :: done) ∪ members before =
            members done ∪ members (x :: before) := by
          intro before
          rw [members_cons, members_cons, Set.insert_union, Set.union_insert]
        constructor
        · intro hall
          refine ⟨?_, ?_⟩
          · have hcan := hall [] x xs rfl
            rwa [members_nil, Set.union_empty] at hcan
          · rintro before y after rfl
            rw [hsame]
            exact hall (x :: before) y after rfl
        · rintro ⟨hcan, hall⟩ before y after hxs
          cases before with
          | nil =>
              obtain ⟨rfl, -⟩ := List.cons.inj hxs
              rwa [members_nil, Set.union_empty]
          | cons z before =>
              obtain ⟨rfl, rfl⟩ := List.cons.inj hxs
              rw [← hsame]
              exact hall before y after rfl
      rw [hsplit, ← hfirst, bringUp]
      cases hstep : up x s with
      | mk r s₁ =>
          cases r with
          | ok u =>
              have hup' := h.ok _ x s s₁ (hA List.mem_cons_self) hnew hup hstep
              rw [← members_cons] at hup'
              have hrest := ih (fun y hy => hA (List.mem_cons_of_mem x hy)) hnodup hdisj' hup'
              exact hrest.trans (iff_and_self.mpr fun _ => rfl)
          | error e =>
              exact iff_of_false (fun hok => nomatch hok) fun hok => nomatch hok.1

end Rollback

end Base
