import Mathlib.Data.List.Nodup
import Mathlib.Data.List.Perm.Basic
import Lkm.Rcu.Driver

/-!
# RCU reclamation is safe

Two facts carry the proof.

* **A ledger** — every object is in exactly one place (`State.places`): published in
  `g_pfoo` or in the list, private to an updater, taken out and held by its updater,
  with a callback, or freed. So nothing is freed twice, and what has a place other
  than `freed` may be dereferenced.
* **Guards** — an object that a reader refers to is published, or was taken out of
  its pointer after the reader's section began; then whoever is going to free it
  still waits for that section (`Guarded`).
-/

namespace Lkm.Rcu

open Base

/-! ## The ledger -/

def Link.foos : Link → List Nat
  | .foo p => [p]
  | _ => []

/-- The object that the updater still has to publish. -/
def Updater.fresh : Updater → List Nat
  | .allocated new | .fetched new _ | .copied new _ | .filled new _ => [new]
  | _ => []

/-- The object that it has replaced. -/
def Updater.retired : Updater → List Nat
  | .published _ old | .printed _ old => [old]
  | _ => []

def UpdaterList.fresh : UpdaterList → List Nat
  | .allocated _ q | .copied _ q | .filled _ q => [q]
  | _ => []

def UpdaterList.retired : UpdaterList → List Nat
  | .replaced p _ | .printed p _ | .syncing p _ | .synced p => [p]
  | _ => []

namespace State

/-- The objects that are not freed, where they are. -/
def live (s : State) : List Nat :=
  s.callbacks.map Callback.foo ++ s.updater.fresh ++ s.updater.retired ++ s.updaterList.fresh ++
    s.updaterList.retired ++ [s.gPfoo] ++ s.gRcuList.foos

def places (s : State) : List Nat := s.freed ++ s.live

/-- The object was replaced, and its grace period, or the `kfree` at its end, is still
to come. -/
def Awaits (s : State) (p : Nat) : Prop :=
  p ∈ s.callbacks.map Callback.foo ∨ p ∈ s.updater.retired ∨ p ∈ s.updaterList.retired

end State

/-- Every object is in one place. -/
structure Ledger (s : State) : Prop where
  nodup : s.places.Nodup
  known : ∀ p ∈ s.places, p ∈ s.allocated
  replaced : ∀ p ∈ s.replaced, p ∈ s.freed ∨ s.Awaits p

namespace Ledger

variable {s s' : State}

/-- Objects change places. -/
theorem move (h : Ledger s) (hplaces : s'.places.Perm s.places) (halloc : s'.allocated = s.allocated)
    (hreplaced : ∀ p ∈ s'.replaced, p ∈ s'.freed ∨ s'.Awaits p) : Ledger s' := by
  refine ⟨hplaces.nodup_iff.mpr h.nodup, ?_, hreplaced⟩
  intro p hp
  rw [halloc]
  exact h.known p (hplaces.mem_iff.mp hp)

/-- A new object gets a place. -/
theorem add (h : Ledger s) {p : Nat} (hfresh : p ∉ s.allocated)
    (hplaces : s'.places.Perm (p :: s.places)) (halloc : s'.allocated = p :: s.allocated)
    (hreplaced : ∀ p ∈ s'.replaced, p ∈ s'.freed ∨ s'.Awaits p) : Ledger s' := by
  have hnew : p ∉ s.places := fun hp => hfresh (h.known p hp)
  refine ⟨hplaces.nodup_iff.mpr (List.nodup_cons.mpr ⟨hnew, h.nodup⟩), ?_, hreplaced⟩
  intro q hq
  rw [halloc]
  rcases List.mem_cons.mp (hplaces.mem_iff.mp hq) with rfl | hq'
  · exact List.mem_cons_self
  · exact List.mem_cons_of_mem _ (h.known q hq')

end Ledger

/-! ## Guards -/

/-- The reader is going to dereference `p`. -/
def Reader.Refers (p : Nat) : Reader → Prop
  | .holds q | .listAt q | .listSeen q => q = p
  | _ => False

/-- The reader is going to follow the list from `p`. -/
def Reader.Walks (p : Nat) : Reader → Prop
  | .listAt q | .listSeen q => q = p
  | _ => False

theorem Reader.Walks.refers {p : Nat} {r : Reader} (h : r.Walks p) : r.Refers p := by
  cases r <;> first | exact h | exact h.elim

theorem Reader.Refers.inside {p : Nat} {r : Reader} (h : r.Refers p) : r ≠ .outside := by
  rintro rfl
  exact h

/-- The updater waits for the section of thread `t` before it frees `p`; it has not
called `synchronize_rcu` yet, or is in it. -/
def UpdaterList.Spares (t p : Nat) : UpdaterList → Prop
  | .replaced q _ | .printed q _ => q = p
  | .syncing q w => q = p ∧ t ∈ w
  | _ => False

def Callback.Spares (t p : Nat) (cb : Callback) : Prop :=
  cb.foo = p ∧ ∃ w, cb.phase = .waiting w ∧ t ∈ w

/-- Nothing frees `p` before the section of thread `t` ends. -/
def Guarded (s : State) (t p : Nat) : Prop :=
  p = s.gPfoo ∨ s.gRcuList = .foo p ∨ p ∈ s.updater.retired ∨ s.updaterList.Spares t p ∨
    ∃ cb ∈ s.callbacks, cb.Spares t p

/-- What the pointer updater remembers of `g_pfoo`. -/
def Updater.Knows (g : Nat) : Updater → Prop
  | .fetched _ old | .copied _ old | .filled _ old => old = g
  | .published new _ => new = g
  | _ => True

/-- What the list updater remembers of the list: the first object, and that a copy of
it ends the list. -/
def UpdaterList.Knows (s : State) : UpdaterList → Prop
  | .first p | .allocated p _ => ∃ q, p = some q ∧ s.gRcuList = .foo q
  | .copied p q | .filled p q => s.gRcuList = .foo p ∧ (s.heap q).next = .head
  | .replaced _ q => s.gRcuList = .foo q
  | _ => True

structure Inv (s : State) : Prop where
  ledger : Ledger s
  updater : s.updater.Knows s.gPfoo
  updaterList : s.updaterList.Knows s
  list : ∃ q, s.gRcuList = .foo q ∧ (s.heap q).next = .head
  sections : ∀ t, s.readers t ≠ .outside → t ∈ s.sections
  guarded : ∀ t p, (s.readers t).Refers p → Guarded s t p
  ends : ∀ t p, (s.readers t).Walks p → (s.heap p).next = .head

theorem UpdaterList.Knows.congr {s s' : State} {u : UpdaterList} (h : u.Knows s)
    (hlist : s'.gRcuList = s.gRcuList) (hheap : ∀ q ∈ u.fresh, (s'.heap q).next = (s.heap q).next) :
    u.Knows s' := by
  cases u with
  | first p =>
      unfold UpdaterList.Knows
      rw [hlist]
      exact h
  | allocated p q =>
      unfold UpdaterList.Knows
      rw [hlist]
      exact h
  | copied p q =>
      refine ⟨by rw [hlist]; exact h.1, ?_⟩
      rw [hheap q (by simp [UpdaterList.fresh])]
      exact h.2
  | filled p q =>
      refine ⟨by rw [hlist]; exact h.1, ?_⟩
      rw [hheap q (by simp [UpdaterList.fresh])]
      exact h.2
  | replaced p q => exact hlist.trans h
  | idle => trivial
  | printed p q => trivial
  | syncing p w => trivial
  | synced p => trivial

theorem UpdaterList.Spares.mem_retired {t p : Nat} {u : UpdaterList} (h : u.Spares t p) :
    p ∈ u.retired := by
  cases u <;> simp_all [UpdaterList.Spares, UpdaterList.retired]

/-- The places in which a guarded object can be. -/
theorem Guarded.cases {s : State} {t p : Nat} (h : Guarded s t p) :
    p ∈ s.callbacks.map Callback.foo ∨ p ∈ s.updater.retired ∨ p ∈ s.updaterList.retired ∨
      p ∈ [s.gPfoo] ∨ p ∈ s.gRcuList.foos := by
  rcases h with hp | hp | hp | hp | ⟨cb, hcb, hp⟩
  · simp [hp]
  · simp [hp, Link.foos]
  · simp [hp]
  · simp [hp.mem_retired]
  · left
    rw [← hp.1]
    exact List.mem_map_of_mem hcb

theorem Guarded.live {s : State} {t p : Nat} (h : Guarded s t p) : p ∈ s.live := by
  have hcases := h.cases
  simp only [State.live, List.mem_append]
  tauto

namespace Ledger

variable {s : State} (h : Ledger s)

include h

theorem not_freed {p : Nat} (hp : p ∈ s.live) : p ∉ s.freed := by
  intro hfreed
  exact (List.nodup_append.mp h.nodup).2.2 p hfreed p hp rfl

/-- What a reader refers to is not private to an updater. -/
theorem not_fresh {t p : Nat} (hp : Guarded s t p) : p ∉ s.updater.fresh ∧ p ∉ s.updaterList.fresh := by
  have hnodup := h.nodup
  simp only [State.places, State.live, List.nodup_append] at hnodup
  have hcases := hp.cases
  grind

end Ledger

/-! ## Steps of the readers -/

namespace Inv

variable {s s' : State}

/-- A reader goes on inside its section. -/
theorem goto (h : Inv s) {t : Nat} {r : Reader} (hin : t ∈ s.sections)
    (hrefers : ∀ p, r.Refers p → Guarded s t p)
    (hwalks : ∀ p, r.Walks p → (s.heap p).next = .head) : Inv (s.goto t r) where
  ledger := ⟨h.ledger.nodup, h.ledger.known, h.ledger.replaced⟩
  updater := h.updater
  updaterList := h.updaterList
  list := h.list
  sections := by
    intro u hu
    by_cases hut : u = t
    · subst hut
      exact hin
    · exact h.sections u (by simpa [State.goto, hut] using hu)
  guarded := by
    intro u p hu
    by_cases hut : u = t
    · subst hut
      exact hrefers p (by simpa [State.goto] using hu)
    · exact h.guarded u p (by simpa [State.goto, hut] using hu)
  ends := by
    intro u p hu
    by_cases hut : u = t
    · subst hut
      exact hwalks p (by simpa [State.goto] using hu)
    · exact h.ends u p (by simpa [State.goto, hut] using hu)

theorem readLock (h : Inv s) (t : Nat) {r : Reader} (hr : ∀ p, ¬ r.Refers p) :
    Inv (s.readLock t r) where
  ledger := ⟨h.ledger.nodup, h.ledger.known, h.ledger.replaced⟩
  updater := h.updater
  updaterList := h.updaterList
  list := h.list
  sections := by
    intro u hu
    by_cases hut : u = t
    · subst hut
      exact List.mem_cons_self
    · exact List.mem_cons_of_mem _ (h.sections u (by simpa [State.readLock, hut] using hu))
  guarded := by
    intro u p hu
    by_cases hut : u = t
    · subst hut
      exact absurd (by simpa [State.readLock] using hu) (hr p)
    · exact h.guarded u p (by simpa [State.readLock, hut] using hu)
  ends := by
    intro u p hu
    by_cases hut : u = t
    · subst hut
      have hwalks : r.Walks p := by simpa [State.readLock] using hu
      exact absurd hwalks.refers (hr p)
    · exact h.ends u p (by simpa [State.readLock, hut] using hu)

end Inv

theorem UpdaterList.close_fresh (t : Nat) (u : UpdaterList) : (u.close t).fresh = u.fresh := by
  cases u <;> rfl

theorem UpdaterList.close_retired (t : Nat) (u : UpdaterList) : (u.close t).retired = u.retired := by
  cases u <;> rfl

theorem UpdaterList.Knows.close {s : State} {u : UpdaterList} (h : u.Knows s) (t : Nat) :
    (u.close t).Knows s := by
  cases u <;> exact h

theorem callbacks_close (t : Nat) (cbs : List Callback) :
    (cbs.map (Callback.close t)).map Callback.foo = cbs.map Callback.foo := by
  rw [List.map_map]
  rfl

theorem UpdaterList.Spares.close {t u p : Nat} {ul : UpdaterList} (h : ul.Spares u p) (hut : u ≠ t) :
    (ul.close t).Spares u p := by
  cases ul with
  | syncing q w =>
      refine ⟨h.1, ?_⟩
      simpa [hut] using h.2
  | replaced p q => exact h
  | printed p q => exact h
  | idle => exact h
  | first p => exact h
  | allocated p q => exact h
  | copied p q => exact h
  | filled p q => exact h
  | synced p => exact h

theorem Callback.Spares.close {t u p : Nat} {cb : Callback} (h : cb.Spares u p) (hut : u ≠ t) :
    (cb.close t).Spares u p := by
  obtain ⟨hfoo, w, hphase, hw⟩ := h
  refine ⟨hfoo, w.filter (· ≠ t), ?_, ?_⟩
  · simp [Callback.close, hphase, Phase.close]
  · simpa [hut] using hw

/-- The end of a section of another thread does not take a guard away. -/
theorem Guarded.readUnlock {s : State} {t u p : Nat} (h : Guarded s u p) (hut : u ≠ t) :
    Guarded (s.readUnlock t) u p := by
  rcases h with hp | hp | hp | hp | ⟨cb, hcb, hp⟩
  · exact .inl hp
  · exact .inr (.inl hp)
  · exact .inr (.inr (.inl hp))
  · exact .inr (.inr (.inr (.inl (hp.close hut))))
  · exact .inr (.inr (.inr (.inr ⟨cb.close t, List.mem_map_of_mem hcb, hp.close hut⟩)))

namespace Inv

variable {s s' : State}

theorem readUnlock (h : Inv s) (t : Nat) : Inv (s.readUnlock t) where
  ledger := by
    have hplaces : (s.readUnlock t).places = s.places := by
      simp only [State.places, State.live, State.readUnlock, callbacks_close, UpdaterList.close_fresh,
        UpdaterList.close_retired]
    refine h.ledger.move (by rw [hplaces]) rfl ?_
    intro p hp
    have hawaits := h.ledger.replaced p hp
    simpa only [State.Awaits, State.readUnlock, callbacks_close, UpdaterList.close_retired] using hawaits
  updater := h.updater
  updaterList := h.updaterList.close t
  list := h.list
  sections := by
    intro u hu
    by_cases hut : u = t
    · subst hut
      simp [State.readUnlock] at hu
    · have hin := h.sections u (by simpa [State.readUnlock, hut] using hu)
      simpa [State.readUnlock, hut] using hin
  guarded := by
    intro u p hu
    by_cases hut : u = t
    · subst hut
      simp [State.readUnlock, Reader.Refers] at hu
    · exact (h.guarded u p (by simpa [State.readUnlock, hut] using hu)).readUnlock hut
  ends := by
    intro u p hu
    by_cases hut : u = t
    · subst hut
      simp [State.readUnlock, Reader.Walks] at hu
    · exact h.ends u p (by simpa [State.readUnlock, hut] using hu)

theorem rcuReader (h : Inv s) {t : Nat} (hs : s.rcuReader t = some s') : Inv s' := by
  unfold State.rcuReader at hs
  cases hr : s.readers t with
  | outside =>
      simp only [hr, Option.some.injEq] at hs
      subst hs
      exact h.readLock t (by simp [Reader.Refers])
  | entered =>
      simp only [hr, Option.some.injEq] at hs
      subst hs
      have hin : t ∈ s.sections := h.sections t (by simp [hr])
      apply h.goto hin
      · intro p hp
        exact .inl (by simpa [Reader.Refers] using hp.symm)
      · intro p hp
        exact hp.elim
  | holds p =>
      simp only [hr, Option.some.injEq] at hs
      subst hs
      exact h.goto (h.sections t (by simp [hr])) (by simp [Reader.Refers]) (by simp [Reader.Walks])
  | printed =>
      simp only [hr, Option.some.injEq] at hs
      subst hs
      exact h.readUnlock t
  | listEntered => simp [hr] at hs
  | listAt p => simp [hr] at hs
  | listSeen p => simp [hr] at hs
  | listEnd => simp [hr] at hs

theorem rcuReaderList (h : Inv s) {t : Nat} (hs : s.rcuReaderList t = some s') : Inv s' := by
  obtain ⟨first, hlist, hend⟩ := h.list
  unfold State.rcuReaderList at hs
  cases hr : s.readers t with
  | outside =>
      simp only [hr, Option.some.injEq] at hs
      subst hs
      exact h.readLock t (by simp [Reader.Refers])
  | listEntered =>
      simp only [hr, hlist, State.follow, Option.some.injEq] at hs
      subst hs
      have hin : t ∈ s.sections := h.sections t (by simp [hr])
      apply h.goto hin
      · intro p hp
        have hfirst : first = p := hp
        exact .inr (.inl (by rw [hlist, hfirst]))
      · intro p hp
        have hfirst : first = p := hp
        rw [← hfirst]
        exact hend
  | listAt p =>
      simp only [hr, Option.some.injEq] at hs
      subst hs
      have hin : t ∈ s.sections := h.sections t (by simp [hr])
      apply h.goto hin
      · intro q hq
        exact h.guarded t q (by rw [hr]; exact hq)
      · intro q hq
        exact h.ends t q (by rw [hr]; exact hq)
  | listSeen p =>
      have hnext : (s.heap p).next = .head := h.ends t p (by rw [hr]; rfl)
      simp only [hr, hnext, State.follow, Option.some.injEq] at hs
      subst hs
      exact h.goto (h.sections t (by simp [hr])) (by simp [Reader.Refers]) (by simp [Reader.Walks])
  | listEnd =>
      simp only [hr, Option.some.injEq] at hs
      subst hs
      exact h.readUnlock t
  | entered => simp [hr] at hs
  | holds p => simp [hr] at hs
  | printed => simp [hr] at hs

/-! ## Steps of the updaters -/

/-- The readers stay where they are: it is enough that guards are kept, and that no
object that a reader refers to gets another successor. -/
theorem update (h : Inv s) (hreaders : s'.readers = s.readers) (hsections : s'.sections = s.sections)
    (hledger : Ledger s') (hupdater : s'.updater.Knows s'.gPfoo)
    (hupdaterList : s'.updaterList.Knows s')
    (hlist : ∃ q, s'.gRcuList = .foo q ∧ (s'.heap q).next = .head)
    (hguarded : ∀ t p, t ∈ s.sections → Guarded s t p → Guarded s' t p)
    (hheap : ∀ t p, Guarded s t p → (s'.heap p).next = (s.heap p).next) : Inv s' where
  ledger := hledger
  updater := hupdater
  updaterList := hupdaterList
  list := hlist
  sections := by
    intro t ht
    rw [hreaders] at ht
    rw [hsections]
    exact h.sections t ht
  guarded := by
    intro t p hp
    rw [hreaders] at hp
    exact hguarded t p (h.sections t hp.inside) (h.guarded t p hp)
  ends := by
    intro t p hp
    rw [hreaders] at hp
    rw [hheap t p (h.guarded t p hp.refers)]
    exact h.ends t p hp

/-- A step of the pointer updater: the heap changes only in an object that no one
else has. -/
theorem updatePointer (h : Inv s) (hreaders : s'.readers = s.readers)
    (hsections : s'.sections = s.sections) (hrcuList : s'.gRcuList = s.gRcuList)
    (hul : s'.updaterList = s.updaterList) (hledger : Ledger s')
    (hupdater : s'.updater.Knows s'.gPfoo)
    (hguarded : ∀ t p, t ∈ s.sections → Guarded s t p → Guarded s' t p)
    (hheap : ∀ p, p ∈ s.updater.fresh ∨ p ∉ s.allocated ∨ (s'.heap p).next = (s.heap p).next) :
    Inv s' := by
  have hnodup := h.ledger.nodup
  have hknown := h.ledger.known
  simp only [State.places, State.live, List.nodup_append] at hnodup hknown
  obtain ⟨first, hfirst, hend⟩ := h.list
  apply h.update hreaders hsections hledger hupdater
  · rw [hul]
    apply h.updaterList.congr hrcuList
    intro q hq
    have hsame := hheap q
    grind
  · have hin : first ∈ s.gRcuList.foos := by simp [hfirst, Link.foos]
    have hsame := hheap first
    refine ⟨first, by rw [hrcuList, hfirst], ?_⟩
    grind
  · exact hguarded
  · intro t p hp
    have hfresh := h.ledger.not_fresh hp
    have hcases := hp.cases
    have hsame := hheap p
    grind

/-- A step of the pointer updater in which no object changes its place. -/
theorem updatePrivate (h : Inv s) {u : Updater} {heap : Nat → Foo} (hfresh : u.fresh = s.updater.fresh)
    (hretired : u.retired = s.updater.retired) (hknows : u.Knows s.gPfoo)
    (hheap : ∀ p, p ∈ s.updater.fresh ∨ (heap p).next = (s.heap p).next) :
    Inv { s with heap := heap, updater := u } := by
  apply h.updatePointer (by rfl) (by rfl) (by rfl) (by rfl)
  · apply h.ledger.move ?_ (by rfl)
    · intro p hp
      simpa only [State.Awaits, hretired] using h.ledger.replaced p hp
    · simp only [State.places, State.live, hfresh, hretired, List.Perm.refl]
  · exact hknows
  · intro t p _ hp
    simpa only [Guarded, hretired] using hp
  · exact fun p => (hheap p).imp id .inr

/-- The pointer updater writes to the object that it still has to publish. -/
theorem storePrivate (h : Inv s) {u : Updater} {new : Nat} (foo : Foo) (hnew : new ∈ s.updater.fresh)
    (hfresh : u.fresh = s.updater.fresh) (hretired : u.retired = s.updater.retired)
    (hknows : u.Knows s.gPfoo) : Inv { s.store new foo with updater := u } := by
  apply h.updatePrivate hfresh hretired hknows
  intro p
  by_cases hpn : p = new
  · exact .inl (hpn ▸ hnew)
  · exact .inr (by simp [State.store, hpn])

theorem allocate (h : Inv s) {fresh : Nat} (hu : s.updater = .idle) (hfresh : fresh ∉ s.allocated) :
    Inv { s.kzalloc fresh with updater := .allocated fresh } := by
  apply h.updatePointer (by rfl) (by rfl) (by rfl) (by rfl)
  · apply h.ledger.add hfresh ?_ (by rfl)
    · intro p hp
      simpa [State.Awaits, State.kzalloc, Updater.retired, hu] using h.ledger.replaced p hp
    · rw [List.perm_iff_count]
      intro a
      simp only [State.places, State.live, State.kzalloc, hu, Updater.fresh, Updater.retired,
        List.count_append, List.count_cons, List.count_nil]
      omega
  · trivial
  · intro t p _ hp
    simpa [Guarded, State.kzalloc, Updater.retired, hu] using hp
  · intro p
    by_cases hpf : p = fresh
    · exact .inr (.inl (hpf ▸ hfresh))
    · exact .inr (.inr (by simp [State.kzalloc, hpf]))

/-- `rcu_assign_pointer`: what was in `g_pfoo` is now the updater's. -/
theorem publish (h : Inv s) {new old : Nat} (hu : s.updater = .filled new old) :
    Inv { s with gPfoo := new, replaced := s.gPfoo :: s.replaced, updater := .published new old } := by
  have hold : old = s.gPfoo := by simpa [hu, Updater.Knows] using h.updater
  apply h.updatePointer (by rfl) (by rfl) (by rfl) (by rfl)
  · apply h.ledger.move ?_ (by rfl)
    · intro p hp
      rcases List.mem_cons.mp hp with rfl | hp
      · exact .inr (.inr (.inl (by simp [Updater.retired, hold])))
      · have hawaits := h.ledger.replaced p hp
        simp only [State.Awaits, hu, Updater.retired, List.not_mem_nil, false_or] at hawaits ⊢
        grind
    · rw [List.perm_iff_count]
      intro a
      simp only [State.places, State.live, hu, hold, Updater.fresh, Updater.retired,
        List.count_append, List.count_cons, List.count_nil]
      omega
  · rfl
  · intro t p _ hp
    rcases hp with hp | hp | hp | hp | hp
    · exact .inr (.inr (.inl (by simp [Updater.retired, hold, hp])))
    · exact .inr (.inl hp)
    · simp [hu, Updater.retired] at hp
    · exact .inr (.inr (.inr (.inl hp)))
    · exact .inr (.inr (.inr (.inr hp)))
  · exact fun p => .inr (.inr rfl)

/-- `call_rcu`. -/
theorem callRcu (h : Inv s) {new old : Nat} (hu : s.updater = .printed new old) :
    Inv { s with
      callbacks := s.callbacks ++ [⟨old, .waiting s.sections⟩]
      updater := .idle
      value := s.value + 1 } := by
  apply h.updatePointer (by rfl) (by rfl) (by rfl) (by rfl)
  · apply h.ledger.move ?_ (by rfl)
    · intro p hp
      have hawaits := h.ledger.replaced p hp
      simp only [State.Awaits, hu, Updater.retired, List.map_append, List.map_cons, List.map_nil,
        List.mem_append, List.mem_singleton, List.not_mem_nil] at hawaits ⊢
      grind
    · rw [List.perm_iff_count]
      intro a
      simp only [State.places, State.live, hu, Updater.fresh, Updater.retired, List.map_append,
        List.map_cons, List.map_nil, List.count_append, List.count_cons, List.count_nil]
      omega
  · trivial
  · intro t p hin hp
    rcases hp with hp | hp | hp | hp | ⟨cb, hcb, hp⟩
    · exact .inl hp
    · exact .inr (.inl hp)
    · -- the callback waits for every section that is open now
      have hold : p = old := by simpa [hu, Updater.retired] using hp
      refine .inr (.inr (.inr (.inr ⟨⟨old, .waiting s.sections⟩, ?_, ?_⟩)))
      · exact List.mem_append_right _ (List.mem_singleton_self _)
      · exact ⟨hold.symm, s.sections, rfl, hin⟩
    · exact .inr (.inr (.inr (.inl hp)))
    · exact .inr (.inr (.inr (.inr ⟨cb, List.mem_append_left _ hcb, hp⟩)))
  · exact fun p => .inr (.inr rfl)

theorem rcuUpdater (h : Inv s) {fresh : Nat} (hs : s.rcuUpdater fresh = some s') : Inv s' := by
  have hknows := h.updater
  unfold State.rcuUpdater at hs
  cases hu : s.updater with
  | idle =>
      simp only [hu] at hs
      split at hs
      · cases hs
      · rename_i hfresh
        cases hs
        exact h.allocate hu hfresh
  | allocated new =>
      simp only [hu, Option.some.injEq] at hs
      subst hs
      exact h.updatePrivate (by rw [hu]; rfl) (by rw [hu]; rfl) rfl fun p => .inr rfl
  | fetched new old =>
      simp only [hu, Option.some.injEq] at hs
      subst hs
      have hold : old = s.gPfoo := by simpa [hu, Updater.Knows] using hknows
      exact h.storePrivate _ (by simp [hu, Updater.fresh]) (by rw [hu]; rfl) (by rw [hu]; rfl) hold
  | copied new old =>
      simp only [hu, Option.some.injEq] at hs
      subst hs
      have hold : old = s.gPfoo := by simpa [hu, Updater.Knows] using hknows
      exact h.storePrivate _ (by simp [hu, Updater.fresh]) (by rw [hu]; rfl) (by rw [hu]; rfl) hold
  | filled new old =>
      simp only [hu, Option.some.injEq] at hs
      subst hs
      exact h.publish hu
  | published new old =>
      simp only [hu, Option.some.injEq] at hs
      subst hs
      exact h.updatePrivate (by rw [hu]; rfl) (by rw [hu]; rfl) trivial fun p => .inr rfl
  | printed new old =>
      simp only [hu, Option.some.injEq] at hs
      subst hs
      exact h.callRcu hu

/-- The pointer updater's knowledge is not touched by the list updater. -/
theorem updateList (h : Inv s) (hreaders : s'.readers = s.readers)
    (hsections : s'.sections = s.sections) (hpfoo : s'.gPfoo = s.gPfoo)
    (hupd : s'.updater = s.updater) (hledger : Ledger s') (hupdaterList : s'.updaterList.Knows s')
    (hlist : ∃ q, s'.gRcuList = .foo q ∧ (s'.heap q).next = .head)
    (hguarded : ∀ t p, t ∈ s.sections → Guarded s t p → Guarded s' t p)
    (hheap : ∀ p, p ∈ s.updaterList.fresh ∨ p ∉ s.allocated ∨ (s'.heap p).next = (s.heap p).next) :
    Inv s' := by
  have hknown := h.ledger.known
  simp only [State.places, State.live, State.live] at hknown
  apply h.update hreaders hsections hledger
  · rw [hupd, hpfoo]
    exact h.updater
  · exact hupdaterList
  · exact hlist
  · exact hguarded
  · intro t p hp
    have hfresh := h.ledger.not_fresh hp
    have hcases := hp.cases
    have hsame := hheap p
    grind

/-- A step of the list updater in which no object changes its place. -/
theorem updateListPrivate (h : Inv s) {u : UpdaterList} {heap : Nat → Foo}
    (hfresh : u.fresh = s.updaterList.fresh) (hretired : u.retired = s.updaterList.retired)
    (hspares : ∀ t p, t ∈ s.sections → s.updaterList.Spares t p → u.Spares t p)
    (hknows : u.Knows { s with heap := heap, updaterList := u })
    (hheap : ∀ p, p ∈ s.updaterList.fresh ∨ (heap p).next = (s.heap p).next) :
    Inv { s with heap := heap, updaterList := u } := by
  have hnodup := h.ledger.nodup
  simp only [State.places, State.live, List.nodup_append] at hnodup
  obtain ⟨first, hfirst, hend⟩ := h.list
  apply h.updateList (by rfl) (by rfl) (by rfl) (by rfl)
  · apply h.ledger.move ?_ (by rfl)
    · intro p hp
      simpa only [State.Awaits, hretired] using h.ledger.replaced p hp
    · simp only [State.places, State.live, hfresh, hretired, List.Perm.refl]
  · exact hknows
  · have hin : first ∈ s.gRcuList.foos := by simp [hfirst, Link.foos]
    have hsame := hheap first
    refine ⟨first, hfirst, ?_⟩
    grind
  · intro t p hin hp
    rcases hp with hp | hp | hp | hp | hp
    · exact .inl hp
    · exact .inr (.inl hp)
    · exact .inr (.inr (.inl hp))
    · exact .inr (.inr (.inr (.inl (hspares t p hin hp))))
    · exact .inr (.inr (.inr (.inr hp)))
  · exact fun p => (hheap p).imp id .inr

/-- The list updater writes to its copy. -/
theorem storeListPrivate (h : Inv s) {u : UpdaterList} {q : Nat} (foo : Foo)
    (hq : q ∈ s.updaterList.fresh) (hfresh : u.fresh = s.updaterList.fresh)
    (hretired : u.retired = s.updaterList.retired)
    (hspares : ∀ t p, t ∈ s.sections → s.updaterList.Spares t p → u.Spares t p)
    (hknows : u.Knows { s.store q foo with updaterList := u }) :
    Inv { s.store q foo with updaterList := u } := by
  apply h.updateListPrivate hfresh hretired hspares hknows
  intro x
  by_cases hxq : x = q
  · exact .inl (hxq ▸ hq)
  · exact .inr (by simp [State.store, hxq])

theorem allocateList (h : Inv s) {p : Option Nat} {fresh : Nat} (hu : s.updaterList = .first p)
    (hfresh : fresh ∉ s.allocated) :
    Inv { s.kzalloc fresh with updaterList := .allocated p fresh } := by
  have hknows := h.updaterList
  rw [hu] at hknows
  obtain ⟨first, hfirst, hend⟩ := h.list
  have hin : first ∈ s.places := by simp [State.places, State.live, hfirst, Link.foos]
  have hne : first ≠ fresh := fun heq => hfresh (heq ▸ h.ledger.known first hin)
  apply h.updateList (by rfl) (by rfl) (by rfl) (by rfl)
  · apply h.ledger.add hfresh ?_ (by rfl)
    · intro q hq
      simpa [State.Awaits, State.kzalloc, UpdaterList.retired, hu] using h.ledger.replaced q hq
    · rw [List.perm_iff_count]
      intro a
      simp only [State.places, State.live, State.kzalloc, hu, UpdaterList.fresh, UpdaterList.retired,
        List.count_append, List.count_cons, List.count_nil]
      omega
  · exact hknows
  · exact ⟨first, hfirst, by simp [State.kzalloc, hne, hend]⟩
  · intro t q _ hq
    simpa [Guarded, State.kzalloc, UpdaterList.Spares, hu] using hq
  · intro q
    by_cases hqf : q = fresh
    · exact .inr (.inl (hqf ▸ hfresh))
    · exact .inr (.inr (by simp [State.kzalloc, hqf]))

/-- `list_replace_rcu`: the first object of the list is now the updater's. -/
theorem listReplaceRcu (h : Inv s) {p q : Nat} (hu : s.updaterList = .filled p q) :
    Inv { s.store q { s.heap q with next := (s.heap p).next } with
      gRcuList := .foo q
      replaced := p :: s.replaced
      updaterList := .replaced p q } := by
  have hknows := h.updaterList
  rw [hu] at hknows
  have hp : s.gRcuList = .foo p := hknows.1
  have hend : (s.heap p).next = .head := by
    obtain ⟨first, hfirst, hend⟩ := h.list
    rw [hp] at hfirst
    rwa [Link.foo.inj hfirst]
  apply h.updateList (by rfl) (by rfl) (by rfl) (by rfl)
  · apply h.ledger.move ?_ (by rfl)
    · intro x hx
      rcases List.mem_cons.mp hx with rfl | hx
      · exact .inr (.inr (.inr (by simp [UpdaterList.retired])))
      · have hawaits := h.ledger.replaced x hx
        simp only [State.Awaits, State.store, hu, UpdaterList.retired, List.not_mem_nil] at hawaits ⊢
        grind
    · rw [List.perm_iff_count]
      intro a
      simp only [State.places, State.live, State.store, hu, hp, Link.foos, UpdaterList.fresh,
        UpdaterList.retired, List.count_append, List.count_cons, List.count_nil]
      omega
  · rfl
  · exact ⟨q, rfl, by simp [State.store, hend]⟩
  · intro t x _ hx
    rcases hx with hx | hx | hx | hx | hx
    · exact .inl hx
    · have hxp : x = p := by
        rw [hp] at hx
        exact (Link.foo.inj hx).symm
      exact .inr (.inr (.inr (.inl hxp.symm)))
    · exact .inr (.inr (.inl hx))
    · simp [hu, UpdaterList.Spares] at hx
    · exact .inr (.inr (.inr (.inr hx)))
  · intro x
    by_cases hxq : x = q
    · exact .inl (by simp [hu, UpdaterList.fresh, hxq])
    · exact .inr (.inr (by simp [State.store, hxq]))

/-- The `kfree` behind `synchronize_rcu`. -/
theorem kfreeSynced (h : Inv s) {p : Nat} (hu : s.updaterList = .synced p) :
    Inv { s.kfree p with updaterList := .idle, valueList := s.valueList + 1 } := by
  apply h.updateList (by rfl) (by rfl) (by rfl) (by rfl)
  · apply h.ledger.move ?_ (by rfl)
    · intro x hx
      have hawaits := h.ledger.replaced x hx
      simp only [State.Awaits, State.kfree, hu, UpdaterList.retired, List.mem_append,
        List.mem_singleton, List.not_mem_nil] at hawaits ⊢
      grind
    · rw [List.perm_iff_count]
      intro a
      simp only [State.places, State.live, State.kfree, hu, UpdaterList.fresh, UpdaterList.retired,
        List.count_append, List.count_cons, List.count_nil]
      omega
  · trivial
  · exact h.list
  · intro t x _ hx
    rcases hx with hx | hx | hx | hx | hx
    · exact .inl hx
    · exact .inr (.inl hx)
    · exact .inr (.inr (.inl hx))
    · simp [hu, UpdaterList.Spares] at hx
    · exact .inr (.inr (.inr (.inr hx)))
  · exact fun x => .inr (.inr rfl)

theorem rcuUpdaterList (h : Inv s) {fresh : Nat} (hs : s.rcuUpdaterList fresh = some s') : Inv s' := by
  have hknows := h.updaterList
  obtain ⟨first, hfirst, hend⟩ := h.list
  unfold State.rcuUpdaterList at hs
  cases hu : s.updaterList with
  | idle =>
      simp only [hu] at hs
      split at hs
      · cases hs
      · rename_i hlist
        rw [hfirst] at hlist
        cases hlist
      · rename_i p hlist
        cases hs
        apply h.updateListPrivate (u := .first (some p)) (by rw [hu]; rfl) (by rw [hu]; rfl)
        · simp [hu, UpdaterList.Spares]
        · exact ⟨p, rfl, hlist⟩
        · exact fun p => .inr rfl
  | first p =>
      simp only [hu] at hs
      split at hs
      · cases hs
      · rename_i hfresh
        cases hs
        exact h.allocateList hu hfresh
  | allocated p q =>
      rw [hu] at hknows
      obtain ⟨p₀, rfl, hp₀⟩ := hknows
      have hp : p₀ = first := by
        rw [hfirst] at hp₀
        exact (Link.foo.inj hp₀).symm
      simp only [hu, Option.some.injEq] at hs
      subst hs
      apply h.storeListPrivate _ (by simp [hu, UpdaterList.fresh]) (by rw [hu]; rfl) (by rw [hu]; rfl)
      · simp [hu, UpdaterList.Spares]
      · exact ⟨hp₀, by simp [State.store, hp, hend]⟩
  | copied p q =>
      rw [hu] at hknows
      simp only [hu, Option.some.injEq] at hs
      subst hs
      apply h.storeListPrivate _ (by simp [hu, UpdaterList.fresh]) (by rw [hu]; rfl) (by rw [hu]; rfl)
      · simp [hu, UpdaterList.Spares]
      · exact ⟨hknows.1, by simpa [State.store] using hknows.2⟩
  | filled p q =>
      simp only [hu, Option.some.injEq] at hs
      subst hs
      exact h.listReplaceRcu hu
  | replaced p q =>
      simp only [hu, Option.some.injEq] at hs
      subst hs
      apply h.updateListPrivate (u := .printed p q) (by rw [hu]; rfl) (by rw [hu]; rfl)
      · intro t x _ hx
        rwa [hu] at hx
      · trivial
      · exact fun x => .inr rfl
  | printed p q =>
      simp only [hu, Option.some.injEq] at hs
      subst hs
      apply h.updateListPrivate (u := .syncing p s.sections) (by rw [hu]; rfl) (by rw [hu]; rfl)
      · -- `synchronize_rcu` waits for every section that is open now
        intro t x hin hx
        rw [hu] at hx
        exact ⟨hx, hin⟩
      · trivial
      · exact fun x => .inr rfl
  | syncing p w =>
      simp only [hu] at hs
      split at hs
      · rename_i hw
        cases hs
        apply h.updateListPrivate (u := .synced p) (by rw [hu]; rfl) (by rw [hu]; rfl)
        · intro t x _ hx
          simp [hu, UpdaterList.Spares, hw] at hx
        · trivial
        · exact fun x => .inr rfl
      · cases hs
  | synced p =>
      simp only [hu, Option.some.injEq] at hs
      subst hs
      exact h.kfreeSynced hu

/-! ## The callbacks -/

/-- A step of a callback: no other callback changes. -/
theorem updateCallbacks (h : Inv s) (hreaders : s'.readers = s.readers)
    (hsections : s'.sections = s.sections) (hpfoo : s'.gPfoo = s.gPfoo)
    (hrcuList : s'.gRcuList = s.gRcuList) (hupd : s'.updater = s.updater)
    (hul : s'.updaterList = s.updaterList) (hheap : s'.heap = s.heap) (hledger : Ledger s')
    (hspares : ∀ cb ∈ s.callbacks, ∀ t p, cb.Spares t p → cb ∈ s'.callbacks) : Inv s' := by
  apply h.update hreaders hsections hledger
  · rw [hupd, hpfoo]
    exact h.updater
  · rw [hul]
    apply h.updaterList.congr hrcuList
    intro q _
    rw [hheap]
  · rw [hrcuList, hheap]
    exact h.list
  · intro t p _ hp
    unfold Guarded
    rw [hpfoo, hrcuList, hupd, hul]
    rcases hp with hp | hp | hp | hp | ⟨cb, hcb, hp⟩
    · exact .inl hp
    · exact .inr (.inl hp)
    · exact .inr (.inr (.inl hp))
    · exact .inr (.inr (.inr (.inl hp)))
    · exact .inr (.inr (.inr (.inr ⟨cb, hspares cb hcb t p hp, hp⟩)))
  · intro t p _
    rw [hheap]

/-- A callback is called: no section is left that it waited for. -/
theorem callCallback (h : Inv s) {i : Nat} {cb : Callback} (hcb : s.callbacks[i]? = some cb)
    (hphase : cb.phase = .waiting []) :
    Inv { s with callbacks := s.callbacks.set i { cb with phase := .called } } := by
  obtain ⟨hi, hget⟩ := List.getElem?_eq_some_iff.mp hcb
  have hfoos : (s.callbacks.set i { cb with phase := .called }).map Callback.foo =
      s.callbacks.map Callback.foo := by
    rw [List.map_set]
    apply List.ext_getElem?
    intro j
    rw [List.getElem?_set]
    split
    · rename_i hij
      subst hij
      simp [hi, hget]
    · rfl
  apply h.updateCallbacks (by rfl) (by rfl) (by rfl) (by rfl) (by rfl) (by rfl) (by rfl)
  · apply h.ledger.move ?_ (by rfl)
    · intro p hp
      simpa only [State.Awaits, hfoos] using h.ledger.replaced p hp
    · simp only [State.places, State.live, hfoos, List.Perm.refl]
  · intro cb' hcb' t p hp
    obtain ⟨j, hj⟩ := List.mem_iff_getElem?.mp hcb'
    apply List.mem_iff_getElem?.mpr
    refine ⟨j, ?_⟩
    rw [List.getElem?_set_ne ?_, hj]
    rintro rfl
    have heq : cb = cb' := Option.some.inj (hcb.symm.trans hj)
    obtain ⟨-, w, hw, hmem⟩ := hp
    rw [← heq, hphase] at hw
    cases hw
    cases hmem

/-- It frees its object. -/
theorem reclaim (h : Inv s) {i : Nat} {cb : Callback} (hcb : s.callbacks[i]? = some cb)
    (hphase : cb.phase = .called) :
    Inv { s.kfree cb.foo with callbacks := s.callbacks.eraseIdx i } := by
  obtain ⟨hi, hget⟩ := List.getElem?_eq_some_iff.mp hcb
  have hperm : (cb.foo :: (s.callbacks.eraseIdx i).map Callback.foo).Perm
      (s.callbacks.map Callback.foo) := by
    rw [← List.map_cons, ← hget]
    exact (List.getElem_cons_eraseIdx_perm hi).map _
  apply h.updateCallbacks (by rfl) (by rfl) (by rfl) (by rfl) (by rfl) (by rfl) (by rfl)
  · apply h.ledger.move ?_ (by rfl)
    · intro p hp
      have hawaits := h.ledger.replaced p hp
      have hmem := hperm.mem_iff (a := p)
      simp only [State.Awaits, State.kfree, List.mem_append,
        List.mem_cons] at hawaits hmem ⊢
      grind
    · rw [List.perm_iff_count] at hperm ⊢
      intro a
      have hcount := hperm a
      simp only [State.places, State.live, State.kfree, List.count_append, List.count_cons,
        List.count_nil] at hcount ⊢
      omega
  · intro cb' hcb' t p hp
    obtain ⟨j, hj⟩ := List.mem_iff_getElem?.mp hcb'
    apply List.mem_eraseIdx_iff_getElem?.mpr
    refine ⟨j, ?_, hj⟩
    rintro rfl
    have heq : cb = cb' := Option.some.inj (hcb.symm.trans hj)
    obtain ⟨-, w, hw, -⟩ := hp
    rw [← heq, hphase] at hw
    cases hw

theorem rcuReclaimer (h : Inv s) {i : Nat} (hs : s.rcuReclaimer i = some s') : Inv s' := by
  unfold State.rcuReclaimer at hs
  cases hcb : s.callbacks[i]? with
  | none => simp [hcb] at hs
  | some cb =>
      simp only [hcb] at hs
      split at hs
      · rename_i hphase
        cases hs
        exact h.callCallback hcb hphase
      · cases hs
      · rename_i hphase
        cases hs
        exact h.reclaim hcb hphase

/-! ## Runs -/

theorem start : Inv State.start where
  ledger := ⟨by decide, by decide, nofun⟩
  updater := trivial
  updaterList := trivial
  list := ⟨1, rfl, rfl⟩
  sections := by
    intro t ht
    exact absurd rfl ht
  guarded := by
    intro t p hp
    exact hp.elim
  ends := by
    intro t p hp
    exact hp.elim

/-- The step lemma. -/
theorem next (h : Inv s) {e : Event} (hs : s.next e = some s') : Inv s' := by
  cases e with
  | reader t => exact h.rcuReader hs
  | readerList t => exact h.rcuReaderList hs
  | updater fresh => exact h.rcuUpdater hs
  | updaterList fresh => exact h.rcuUpdaterList hs
  | reclaimer i => exact h.rcuReclaimer hs

/-- The run lemma. -/
theorem of_reachable (h : rcu.Reachable s) : Inv s := by
  apply TSys.Reach.invariant ?_ ?_ h
  · rintro s rfl
    exact start
  · intro s e s' hinv _ hs
    exact hinv.next hs

/-- A step dereferences only objects that are not freed. -/
theorem derefs (h : Inv s) {e : Event} {p : Nat} (hp : p ∈ s.derefs e) : p ∈ s.live := by
  cases e with
  | reader t =>
      simp only [State.derefs] at hp
      split at hp
      · rename_i q hr
        rw [List.mem_singleton.mp hp]
        exact (h.guarded t q (by rw [hr]; rfl)).live
      · cases hp
  | readerList t =>
      simp only [State.derefs] at hp
      split at hp
      · rename_i q hr
        rw [List.mem_singleton.mp hp]
        exact (h.guarded t q (by rw [hr]; rfl)).live
      · rename_i q hr
        rw [List.mem_singleton.mp hp]
        exact (h.guarded t q (by rw [hr]; rfl)).live
      · cases hp
  | updater fresh =>
      have hknows := h.updater
      simp only [State.derefs] at hp
      split at hp
      · rename_i new old hu
        rcases List.mem_pair.mp hp with rfl | rfl
        · simp [State.live]
        · simp [State.live, hu, Updater.fresh]
      · rename_i new old hu
        simp [State.live, hu, Updater.fresh, List.mem_singleton.mp hp]
      · rename_i new old hu
        have hnew : new = s.gPfoo := by simpa [hu, Updater.Knows] using hknows
        simp [State.live, List.mem_singleton.mp hp, hnew]
      · rename_i new old hu
        simp [State.live, hu, Updater.retired, List.mem_singleton.mp hp]
      · cases hp
  | updaterList fresh =>
      have hknows := h.updaterList
      simp only [State.derefs] at hp
      split at hp
      · rename_i p₀ q hu
        have hlist : s.gRcuList = .foo p₀ := by simpa [hu, UpdaterList.Knows] using hknows
        rcases List.mem_pair.mp hp with rfl | rfl
        · simp [State.live, hlist, Link.foos]
        · simp [State.live, hu, UpdaterList.fresh]
      · rename_i p₀ q hu
        rw [hu] at hknows
        rcases List.mem_pair.mp hp with rfl | rfl
        · simp [State.live, hknows.1, Link.foos]
        · simp [State.live, hu, UpdaterList.fresh]
      · rename_i p₀ q hu
        simp [State.live, hu, UpdaterList.fresh, List.mem_singleton.mp hp]
      · rename_i p₀ q hu
        have hlist : s.gRcuList = .foo q := by simpa [hu, UpdaterList.Knows] using hknows
        simp [State.live, List.mem_singleton.mp hp, hlist, Link.foos]
      · cases hp
  | reclaimer i =>
      simp only [State.derefs] at hp
      split at hp
      · rename_i q hcb
        have hmem : q ∈ s.callbacks.map Callback.foo :=
          List.mem_map_of_mem (f := Callback.foo) (List.mem_of_getElem? hcb)
        rw [List.mem_singleton.mp hp]
        simp only [State.live, List.mem_append]
        tauto
      · cases hp

end Inv

/-- In every state that the threads reach: no step, of a reader or of anybody else,
dereferences a freed object; no object has been freed twice; `g_pfoo` and the list's
head point to objects that are not freed; and a replaced object has been freed once,
or is not freed and its grace period is still awaited. -/
theorem reclamation_safe (s : State) (h : rcu.Reachable s) :
    (∀ e, ∀ p ∈ s.derefs e, p ∉ s.freed) ∧ s.freed.Nodup ∧ s.gPfoo ∉ s.freed ∧
      (∃ q, s.gRcuList = .foo q ∧ q ∉ s.freed) ∧
      ∀ p ∈ s.replaced, s.freed.count p = 1 ∨ (p ∉ s.freed ∧ s.Awaits p) := by
  have hinv := Inv.of_reachable h
  have hfreed : s.freed.Nodup := (List.nodup_append.mp hinv.ledger.nodup).1
  obtain ⟨q, hq, -⟩ := hinv.list
  refine ⟨?_, hfreed, ?_, ⟨q, hq, ?_⟩, ?_⟩
  · intro e p hp
    exact hinv.ledger.not_freed (hinv.derefs hp)
  · exact hinv.ledger.not_freed (by simp [State.live])
  · exact hinv.ledger.not_freed (by simp [State.live, hq, Link.foos])
  · intro p hp
    by_cases hpf : p ∈ s.freed
    · exact .inl (List.count_eq_one_of_mem hfreed hpf)
    · exact .inr ⟨hpf, (hinv.ledger.replaced p hp).resolve_left hpf⟩

/-- A reader takes object 0 before it is replaced by object 2, and prints it after
`call_rcu`; then the callback frees it. -/
def replaceUnderReader : List Event :=
  [.reader 0, .reader 0] ++ List.replicate 7 (.updater 2) ++
    [.reader 0, .reader 0, .reclaimer 0, .reclaimer 0]

theorem reclamation_safe_under_reader :
    ∃ s, rcu.Reachable s ∧ s.replaced = [0] ∧ s.freed = [0] ∧ s.gPfoo = 2 ∧ s.gPfoo ∉ s.freed := by
  obtain ⟨s, hrun, hreplaced, hfreed, hpfoo⟩ : ∃ s, rcu.run replaceUnderReader State.start = some s ∧
      s.replaced = [0] ∧ s.freed = [0] ∧ s.gPfoo = 2 := ⟨_, rfl, rfl, rfl, rfl⟩
  have hreach : rcu.Reachable s := TSys.Reachable.run (.init rfl) hrun
  obtain ⟨-, -, hunfreed, -⟩ := reclamation_safe s hreach
  exact ⟨s, hreach, hreplaced, hfreed, hpfoo, hunfreed⟩

end Lkm.Rcu
