import Lkm.Rcu.Reclamation

/-!
# What the readers print

A reader fetches a pointer and prints `p->a` some time later, when an updater may long have
replaced the object. The system is run here with a record of the prints. An object is
filled before it is published and not written afterwards (`guarded_heap`), so a print shows the
value that was current when its pointer was fetched; and since the updaters publish growing
values (`Values.next`), a pointer fetched later never shows an older one.
-/

namespace Lkm.Rcu

open Base

/-- What the readers share with the updaters: `g_pfoo`, or the element of `g_rcu_list`. -/
inductive Shared where
  | pointer
  | list
deriving DecidableEq

def Link.target : Link → Nat
  | .foo p => p
  | _ => 0

namespace State

def published (s : State) : Shared → Nat
  | .pointer => s.gPfoo
  | .list => s.gRcuList.target

/-- The value that is published. -/
def current (s : State) (K : Shared) : Int := (s.heap (s.published K)).a

/-- The step in which a reader fetches a pointer. -/
def fetches (s : State) : Event → Option (Nat × Shared)
  | .reader t => if s.readers t = .entered then some (t, .pointer) else none
  | .readerList t => if s.readers t = .listEntered then some (t, .list) else none
  | _ => none

/-- The step in which a reader prints, and what it prints. -/
def prints (s : State) : Event → Option (Nat × Shared × Int)
  | .reader t =>
      match s.readers t with
      | .holds p => some (t, .pointer, (s.heap p).a)
      | _ => none
  | .readerList t =>
      match s.readers t with
      | .listAt p => some (t, .list, (s.heap p).a)
      | _ => none
  | _ => none

end State

/-- A line that a reader printed: the value, the one that was current when it fetched the
pointer, and the number of lines that there were at that time. -/
structure Line where
  thread : Nat
  shared : Shared
  value : Int
  seen : Int
  before : Nat
deriving DecidableEq

/-- A state with all that was printed on the way to it. `seen` and `before` are noted when
a reader fetches its pointer. -/
structure Trace where
  state : State
  seen : Nat → Int
  before : Nat → Nat
  log : List Line

namespace Trace

def fetch (L : Trace) : Option (Nat × Shared) → Trace
  | none => L
  | some (t, K) =>
      { L with
        seen := Function.update L.seen t (L.state.current K)
        before := Function.update L.before t L.log.length }

def print (L : Trace) : Option (Nat × Shared × Int) → Trace
  | none => L
  | some (t, K, v) => { L with log := L.log ++ [⟨t, K, v, L.seen t, L.before t⟩] }

def next (L : Trace) (e : Event) : Option Trace :=
  (L.state.next e).map fun s =>
    { (L.fetch (L.state.fetches e)).print (L.state.prints e) with state := s }

def start : Trace := ⟨State.start, fun _ => 0, fun _ => 0, []⟩

end Trace

def traced : TSys Trace Event where
  init := fun L => L = Trace.start
  next := Trace.next

/-! ## Published objects stay as they are -/

variable {s s' : State} {e : Event}

/-- The pointer's updater writes only to the object that it is going to publish. -/
theorem rcuUpdater_heap {fresh p : Nat} (hs : s.rcuUpdater fresh = some s') (halloc : p ∈ s.allocated)
    (hfresh : p ∉ s.updater.fresh) : s'.heap p = s.heap p := by
  cases hu : s.updater with
  | idle =>
      simp only [State.rcuUpdater, hu, Option.ite_none_left_eq_some] at hs
      obtain ⟨hnew, hs⟩ := hs
      cases hs
      exact Function.update_of_ne (ne_of_mem_of_not_mem halloc hnew) _ _
  | fetched new old | copied new old =>
      simp only [State.rcuUpdater, hu] at hs
      cases hs
      exact Function.update_of_ne (by simpa [hu, Updater.fresh] using hfresh) _ _
  | allocated new | filled new old | published new old | printed new old =>
      simp only [State.rcuUpdater, hu] at hs
      cases hs
      rfl

/-- And so does the list's. -/
theorem rcuUpdaterList_heap {fresh p : Nat} (hs : s.rcuUpdaterList fresh = some s')
    (halloc : p ∈ s.allocated) (hfresh : p ∉ s.updaterList.fresh) : s'.heap p = s.heap p := by
  cases hu : s.updaterList with
  | idle =>
      simp only [State.rcuUpdaterList, hu] at hs
      split at hs <;> cases hs <;> rfl
  | first p =>
      simp only [State.rcuUpdaterList, hu, Option.ite_none_left_eq_some] at hs
      obtain ⟨hnew, hs⟩ := hs
      cases hs
      exact Function.update_of_ne (ne_of_mem_of_not_mem halloc hnew) _ _
  | allocated p q =>
      cases p with
      | none =>
          simp only [State.rcuUpdaterList, hu] at hs
          cases hs
      | some p =>
          simp only [State.rcuUpdaterList, hu] at hs
          cases hs
          exact Function.update_of_ne (by simpa [hu, UpdaterList.fresh] using hfresh) _ _
  | copied p q | filled p q =>
      simp only [State.rcuUpdaterList, hu] at hs
      cases hs
      exact Function.update_of_ne (by simpa [hu, UpdaterList.fresh] using hfresh) _ _
  | replaced p q | printed p q | synced p =>
      simp only [State.rcuUpdaterList, hu] at hs
      cases hs
      rfl
  | syncing p w =>
      simp only [State.rcuUpdaterList, hu, Option.ite_none_right_eq_some] at hs
      obtain ⟨-, hs⟩ := hs
      cases hs
      rfl

/-- What readers and callbacks leave to the updaters. -/
structure Leaves (s s' : State) : Prop where
  heap : s'.heap = s.heap
  gPfoo : s'.gPfoo = s.gPfoo
  gRcuList : s'.gRcuList = s.gRcuList
  updater : s'.updater = s.updater
  updaterList : ∃ t, s'.updaterList = s.updaterList ∨ s'.updaterList = s.updaterList.close t
  value : s'.value = s.value
  valueList : s'.valueList = s.valueList

theorem goto_leaves (t : Nat) (r : Reader) : Leaves s (s.goto t r) :=
  ⟨rfl, rfl, rfl, rfl, ⟨t, .inl rfl⟩, rfl, rfl⟩

theorem readUnlock_leaves (t : Nat) : Leaves s (s.readUnlock t) :=
  ⟨rfl, rfl, rfl, rfl, ⟨t, .inr rfl⟩, rfl, rfl⟩

theorem rcuReader_leaves {t : Nat} (hs : s.rcuReader t = some s') : Leaves s s' := by
  simp only [State.rcuReader] at hs
  split at hs
  · cases hs
    exact ⟨rfl, rfl, rfl, rfl, ⟨t, .inl rfl⟩, rfl, rfl⟩
  · cases hs
    exact goto_leaves t _
  · cases hs
    exact goto_leaves t _
  · cases hs
    exact readUnlock_leaves t
  · cases hs

theorem follow_leaves {t : Nat} {l : Link} (hs : s.follow t l = some s') : Leaves s s' := by
  cases l with
  | null => cases hs
  | head | foo p =>
      cases hs
      exact goto_leaves t _

theorem rcuReaderList_leaves {t : Nat} (hs : s.rcuReaderList t = some s') : Leaves s s' := by
  simp only [State.rcuReaderList] at hs
  split at hs
  · cases hs
    exact ⟨rfl, rfl, rfl, rfl, ⟨t, .inl rfl⟩, rfl, rfl⟩
  · exact follow_leaves hs
  · cases hs
    exact goto_leaves t _
  · exact follow_leaves hs
  · cases hs
    exact readUnlock_leaves t
  · cases hs

theorem rcuReclaimer_leaves {i : Nat} (hs : s.rcuReclaimer i = some s') : Leaves s s' := by
  simp only [State.rcuReclaimer] at hs
  split at hs
  · cases hs
  · split at hs
    · cases hs
      exact ⟨rfl, rfl, rfl, rfl, ⟨0, .inl rfl⟩, rfl, rfl⟩
    · cases hs
    · cases hs
      exact ⟨rfl, rfl, rfl, rfl, ⟨0, .inl rfl⟩, rfl, rfl⟩

theorem published_guarded (h : Inv s) (t : Nat) (K : Shared) : Guarded s t (s.published K) := by
  cases K with
  | pointer => exact .inl rfl
  | list =>
      obtain ⟨q, hq, -⟩ := h.list
      right
      left
      simp [State.published, hq, Link.target]

/-- An object that is published is nobody's own. -/
theorem published_shared (h : Inv s) (K : Shared) :
    s.published K ∈ s.allocated ∧ s.published K ∉ s.updater.fresh ∧
      s.published K ∉ s.updaterList.fresh := by
  have hguarded := published_guarded h 0 K
  refine ⟨h.ledger.known _ ?_, h.ledger.not_fresh hguarded⟩
  exact List.mem_append_right _ hguarded.live

/-- What one updater is going to publish is not the other's. -/
theorem fresh_disjoint (h : Inv s) {p : Nat} (hp : p ∈ s.updater.fresh) :
    p ∉ s.updaterList.fresh := by
  have hnodup := h.ledger.nodup
  simp only [State.places, State.live, List.nodup_append] at hnodup
  grind

theorem fresh_allocated (h : Inv s) {p : Nat}
    (hp : p ∈ s.updater.fresh ∨ p ∈ s.updaterList.fresh) : p ∈ s.allocated := by
  apply h.ledger.known
  simp only [State.places, State.live, List.mem_append]
  tauto

/-! ## Published values grow -/

/-- The values that are published in the course of time. -/
def Shared.Possible : Shared → Int → Prop
  | .pointer, v => 0 ≤ v
  | .list, v => v = 0 ∨ 1000 ≤ v

/-- The next value is greater than the current one, until it is the current one. -/
def Updater.Fills (s : State) : Updater → Prop
  | .filled new _ => (s.heap new).a = s.value ∧ s.current .pointer < s.value
  | .published _ _ => s.current .pointer = s.value
  | .printed _ _ => s.current .pointer = s.value
  | _ => s.current .pointer < s.value

def UpdaterList.Fills (s : State) : UpdaterList → Prop
  | .idle => s.current .list < s.valueList
  | .first _ => s.current .list < s.valueList
  | .allocated _ _ => s.current .list < s.valueList
  | .copied _ _ => s.current .list < s.valueList
  | .filled _ q => (s.heap q).a = s.valueList ∧ s.current .list < s.valueList
  | _ => s.current .list = s.valueList

structure Values (s : State) : Prop where
  updater : s.updater.Fills s
  updaterList : s.updaterList.Fills s
  value : 1 ≤ s.value
  valueList : 1000 ≤ s.valueList
  possible : ∀ K : Shared, K.Possible (s.current K)

theorem Updater.Fills.congr {u : Updater} (h : u.Fills s)
    (hheap : ∀ p ∈ u.fresh, s'.heap p = s.heap p) (hcurrent : s'.current .pointer = s.current .pointer)
    (hvalue : s'.value = s.value) : u.Fills s' := by
  cases u with
  | filled new old =>
      simp only [Updater.Fills] at h ⊢
      rw [hheap new (by simp [Updater.fresh]), hcurrent, hvalue]
      exact h
  | idle | allocated new | fetched new old | copied new old | published new old | printed new old =>
      simp only [Updater.Fills] at h ⊢
      rw [hcurrent, hvalue]
      exact h

theorem UpdaterList.Fills.congr {u : UpdaterList} (h : u.Fills s)
    (hheap : ∀ p ∈ u.fresh, s'.heap p = s.heap p) (hcurrent : s'.current .list = s.current .list)
    (hvalue : s'.valueList = s.valueList) : u.Fills s' := by
  cases u with
  | filled p q =>
      simp only [UpdaterList.Fills] at h ⊢
      rw [hheap q (by simp [UpdaterList.fresh]), hcurrent, hvalue]
      exact h
  | idle | first p | allocated p q | copied p q | replaced p q | printed p q | syncing p w | synced p =>
      simp only [UpdaterList.Fills] at h ⊢
      rw [hcurrent, hvalue]
      exact h

theorem UpdaterList.Fills.close {u : UpdaterList} (h : u.Fills s) (t : Nat) :
    (u.close t).Fills s := by
  cases u <;> exact h

theorem Leaves.current (h : Leaves s s') (K : Shared) : s'.current K = s.current K := by
  cases K with
  | pointer => simp only [State.current, State.published, h.heap, h.gPfoo]
  | list => simp only [State.current, State.published, h.heap, h.gRcuList]

theorem Values.leaves (h : Values s) (hl : Leaves s s') : Values s' := by
  refine ⟨?_, ?_, by rw [hl.value]; exact h.value, by rw [hl.valueList]; exact h.valueList, ?_⟩
  · rw [hl.updater]
    exact h.updater.congr (by simp [hl.heap]) (hl.current _) hl.value
  · have hsame : s.updaterList.Fills s' :=
      h.updaterList.congr (by simp [hl.heap]) (hl.current _) hl.valueList
    obtain ⟨t, ht | ht⟩ := hl.updaterList
    · rw [ht]
      exact hsame
    · rw [ht]
      exact hsame.close t
  · intro K
    rw [hl.current K]
    exact h.possible K

/-- A step of `rcu_updater` does not concern the list and its updater. -/
theorem Values.of_rcuUpdater (h : Values s) (hinv : Inv s) {fresh : Nat}
    (hs : s.rcuUpdater fresh = some s') (hul : s'.updaterList = s.updaterList)
    (hlink : s'.gRcuList = s.gRcuList) (hvl : s'.valueList = s.valueList)
    (hvalue : s.value ≤ s'.value) (hu : s'.updater.Fills s')
    (hmono : s.current .pointer ≤ s'.current .pointer) :
    Values s' ∧ ∀ K, s.current K ≤ s'.current K := by
  have hcurrent : s'.current .list = s.current .list := by
    obtain ⟨halloc, hown, -⟩ := published_shared hinv .list
    simp only [State.current, State.published, hlink]
    exact congrArg Foo.a (rcuUpdater_heap hs halloc hown)
  have hfills : s'.updaterList.Fills s' := by
    rw [hul]
    refine h.updaterList.congr ?_ hcurrent hvl
    intro p hp
    exact rcuUpdater_heap hs (fresh_allocated hinv (.inr hp)) fun hp' => fresh_disjoint hinv hp' hp
  refine ⟨⟨hu, hfills, Int.le_trans h.value hvalue, by rw [hvl]; exact h.valueList, ?_⟩, ?_⟩
  · intro K
    cases K with
    | pointer => exact Int.le_trans (h.possible .pointer) hmono
    | list =>
        rw [hcurrent]
        exact h.possible .list
  · intro K
    cases K with
    | pointer => exact hmono
    | list => exact Int.le_of_eq hcurrent.symm

/-- One step of `rcu_updater`: the pointer's value stays, or the next one takes its place. -/
theorem Values.rcuUpdater (h : Values s) (hinv : Inv s) {fresh : Nat}
    (hs : s.rcuUpdater fresh = some s') : Values s' ∧ ∀ K, s.current K ≤ s'.current K := by
  obtain ⟨halloc, hown, -⟩ := published_shared hinv .pointer
  have hcurrent := congrArg Foo.a (rcuUpdater_heap hs halloc hown)
  have hassemble := h.of_rcuUpdater hinv hs
  have hfills := h.updater
  cases hu : s.updater with
  | idle =>
      simp only [State.rcuUpdater, hu, Option.ite_none_left_eq_some] at hs
      obtain ⟨-, hs⟩ := hs
      cases hs
      rw [hu] at hfills
      refine hassemble rfl rfl rfl (Int.le_refl _) ?_ (Int.le_of_eq hcurrent.symm)
      exact Int.lt_of_le_of_lt (Int.le_of_eq hcurrent) hfills
  | allocated new =>
      simp only [State.rcuUpdater, hu] at hs
      cases hs
      rw [hu] at hfills
      exact hassemble rfl rfl rfl (Int.le_refl _) hfills (Int.le_refl _)
  | fetched new old =>
      simp only [State.rcuUpdater, hu] at hs
      cases hs
      rw [hu] at hfills
      refine hassemble rfl rfl rfl (Int.le_refl _) ?_ (Int.le_of_eq hcurrent.symm)
      exact Int.lt_of_le_of_lt (Int.le_of_eq hcurrent) hfills
  | copied new old =>
      simp only [State.rcuUpdater, hu] at hs
      cases hs
      rw [hu] at hfills
      refine hassemble rfl rfl rfl (Int.le_refl _) ⟨?_, ?_⟩ (Int.le_of_eq hcurrent.symm)
      · simp [State.store]
      · exact Int.lt_of_le_of_lt (Int.le_of_eq hcurrent) hfills
  | filled new old =>
      simp only [State.rcuUpdater, hu] at hs
      cases hs
      rw [hu] at hfills
      refine hassemble rfl rfl rfl (Int.le_refl _) hfills.1 ?_
      exact Int.le_of_lt (Int.lt_of_lt_of_le hfills.2 (Int.le_of_eq hfills.1.symm))
  | published new old =>
      simp only [State.rcuUpdater, hu] at hs
      cases hs
      rw [hu] at hfills
      exact hassemble rfl rfl rfl (Int.le_refl _) hfills (Int.le_refl _)
  | printed new old =>
      simp only [State.rcuUpdater, hu] at hs
      cases hs
      rw [hu] at hfills
      refine hassemble rfl rfl rfl (Int.le_add_one (Int.le_refl _)) ?_ (Int.le_refl _)
      have hequal : s.current .pointer = s.value := hfills
      exact Int.lt_add_one_of_le (Int.le_of_eq hequal)

/-- A step of `rcu_updater_list` does not concern the pointer and its updater. -/
theorem Values.of_rcuUpdaterList (h : Values s) (hinv : Inv s) {fresh : Nat}
    (hs : s.rcuUpdaterList fresh = some s') (hu : s'.updater = s.updater)
    (hgPfoo : s'.gPfoo = s.gPfoo) (hv : s'.value = s.value) (hvalue : s.valueList ≤ s'.valueList)
    (hul : s'.updaterList.Fills s')
    (hmono : s'.current .list = s.current .list ∨
      s.current .list < s.valueList ∧ s'.current .list = s.valueList) :
    Values s' ∧ ∀ K, s.current K ≤ s'.current K := by
  have hcurrent : s'.current .pointer = s.current .pointer := by
    obtain ⟨halloc, -, hown⟩ := published_shared hinv .pointer
    simp only [State.current, State.published, hgPfoo]
    exact congrArg Foo.a (rcuUpdaterList_heap hs halloc hown)
  have hfills : s'.updater.Fills s' := by
    rw [hu]
    refine h.updater.congr ?_ hcurrent hv
    intro p hp
    exact rcuUpdaterList_heap hs (fresh_allocated hinv (.inl hp)) (fresh_disjoint hinv hp)
  refine ⟨⟨hfills, hul, by rw [hv]; exact h.value, Int.le_trans h.valueList hvalue, ?_⟩, ?_⟩
  · intro K
    cases K with
    | pointer =>
        rw [hcurrent]
        exact h.possible .pointer
    | list =>
        rcases hmono with hsame | ⟨-, hnew⟩
        · rw [hsame]
          exact h.possible .list
        · right
          rw [hnew]
          exact h.valueList
  · intro K
    cases K with
    | pointer => exact Int.le_of_eq hcurrent.symm
    | list =>
        rcases hmono with hsame | ⟨hless, hnew⟩
        · exact Int.le_of_eq hsame.symm
        · rw [hnew]
          exact Int.le_of_lt hless

/-- One step of `rcu_updater_list`. -/
theorem Values.rcuUpdaterList (h : Values s) (hinv : Inv s) {fresh : Nat}
    (hs : s.rcuUpdaterList fresh = some s') : Values s' ∧ ∀ K, s.current K ≤ s'.current K := by
  obtain ⟨halloc, -, hown⟩ := published_shared hinv .list
  have hcurrent := congrArg Foo.a (rcuUpdaterList_heap hs halloc hown)
  have hassemble := h.of_rcuUpdaterList hinv hs
  have hfills := h.updaterList
  cases hu : s.updaterList with
  | idle =>
      simp only [State.rcuUpdaterList, hu] at hs
      rw [hu] at hfills
      split at hs
      · cases hs
      · cases hs
        exact hassemble rfl rfl rfl (Int.le_refl _) hfills (.inl rfl)
      · cases hs
        exact hassemble rfl rfl rfl (Int.le_refl _) hfills (.inl rfl)
  | first p =>
      simp only [State.rcuUpdaterList, hu, Option.ite_none_left_eq_some] at hs
      obtain ⟨-, hs⟩ := hs
      cases hs
      rw [hu] at hfills
      refine hassemble rfl rfl rfl (Int.le_refl _) ?_ (.inl hcurrent)
      exact Int.lt_of_le_of_lt (Int.le_of_eq hcurrent) hfills
  | allocated p q =>
      cases p with
      | none =>
          simp only [State.rcuUpdaterList, hu] at hs
          cases hs
      | some p =>
          simp only [State.rcuUpdaterList, hu] at hs
          cases hs
          rw [hu] at hfills
          refine hassemble rfl rfl rfl (Int.le_refl _) ?_ (.inl hcurrent)
          exact Int.lt_of_le_of_lt (Int.le_of_eq hcurrent) hfills
  | copied p q =>
      simp only [State.rcuUpdaterList, hu] at hs
      cases hs
      rw [hu] at hfills
      refine hassemble rfl rfl rfl (Int.le_refl _) ⟨?_, ?_⟩ (.inl hcurrent)
      · simp [State.store]
      · exact Int.lt_of_le_of_lt (Int.le_of_eq hcurrent) hfills
  | filled p q =>
      simp only [State.rcuUpdaterList, hu] at hs
      cases hs
      rw [hu] at hfills
      have hnew : (Function.update s.heap q { s.heap q with next := (s.heap p).next } q).a =
          s.valueList := by simpa using hfills.1
      exact hassemble rfl rfl rfl (Int.le_refl _) hnew (.inr ⟨hfills.2, hnew⟩)
  | replaced p q =>
      simp only [State.rcuUpdaterList, hu] at hs
      cases hs
      rw [hu] at hfills
      exact hassemble rfl rfl rfl (Int.le_refl _) hfills (.inl rfl)
  | printed p q =>
      simp only [State.rcuUpdaterList, hu] at hs
      cases hs
      rw [hu] at hfills
      exact hassemble rfl rfl rfl (Int.le_refl _) hfills (.inl rfl)
  | syncing p w =>
      simp only [State.rcuUpdaterList, hu, Option.ite_none_right_eq_some] at hs
      obtain ⟨-, hs⟩ := hs
      cases hs
      rw [hu] at hfills
      exact hassemble rfl rfl rfl (Int.le_refl _) hfills (.inl rfl)
  | synced p =>
      simp only [State.rcuUpdaterList, hu] at hs
      cases hs
      rw [hu] at hfills
      refine hassemble rfl rfl rfl (Int.le_add_one (Int.le_refl _)) ?_ (.inl rfl)
      have hequal : s.current .list = s.valueList := hfills
      exact Int.lt_add_one_of_le (Int.le_of_eq hequal)

/-- The step lemma: no step makes the published values older. -/
theorem Values.next (h : Values s) (hinv : Inv s) (hs : s.next e = some s') :
    Values s' ∧ ∀ K, s.current K ≤ s'.current K := by
  have hleaves : Leaves s s' → Values s' ∧ ∀ K, s.current K ≤ s'.current K := by
    intro hl
    exact ⟨h.leaves hl, fun K => Int.le_of_eq (hl.current K).symm⟩
  cases e with
  | reader t => exact hleaves (rcuReader_leaves hs)
  | readerList t => exact hleaves (rcuReaderList_leaves hs)
  | updater fresh => exact h.rcuUpdater hinv hs
  | updaterList fresh => exact h.rcuUpdaterList hinv hs
  | reclaimer i => exact hleaves (rcuReclaimer_leaves hs)

theorem Values.start : Values State.start := by
  refine ⟨?_, ?_, by decide, by decide, ?_⟩
  · show (0 : Int) < 1
    decide
  · show (0 : Int) < 1000
    decide
  intro K
  cases K with
  | pointer => exact Int.le_refl 0
  | list => exact .inl rfl

/-! ## The record of the prints -/

/-- The reader has fetched `p` and is going to print `p->a`. -/
def Reader.Fetched (K : Shared) (p : Nat) (r : Reader) : Prop :=
  (K = .pointer ∧ r = .holds p) ∨ (K = .list ∧ r = .listAt p)

theorem Reader.Fetched.refers {K : Shared} {p : Nat} {r : Reader} (h : r.Fetched K p) :
    r.Refers p := by
  rcases h with ⟨-, rfl⟩ | ⟨-, rfl⟩ <;> rfl

/-- The value `v` may be printed by whoever fetched its pointer when there were `n` lines:
it was published, and it is not older than what was printed before. -/
structure Shows (L : Trace) (K : Shared) (v : Int) (n : Nat) : Prop where
  published : v ≤ L.state.current K
  possible : K.Possible v
  before : n ≤ L.log.length
  newer : ∀ j r, j < n → L.log[j]? = some r → r.shared = K → r.value ≤ v

structure Recorded (L : Trace) : Prop where
  inv : Inv L.state
  values : Values L.state
  fetched : ∀ t K p, (L.state.readers t).Fetched K p →
    (L.state.heap p).a = L.seen t ∧ Shows L K (L.seen t) (L.before t)
  log : ∀ r ∈ L.log, r.value = r.seen ∧ Shows L r.shared r.value r.before

/-- Later values and more lines do not change what may be printed. -/
theorem Shows.later {L L' : Trace} {K : Shared} {v : Int} {n : Nat} (h : Shows L K v n)
    (hcurrent : L.state.current K ≤ L'.state.current K) (hlog : L.log <+: L'.log) :
    Shows L' K v n := by
  refine ⟨Int.le_trans h.published hcurrent, h.possible, Nat.le_trans h.before hlog.length_le, ?_⟩
  intro j r hj hr
  obtain ⟨more, hmore⟩ := hlog
  rw [← hmore, List.getElem?_append_left (Nat.lt_of_lt_of_le hj h.before)] at hr
  exact h.newer j r hj hr

/-- Who fetches a pointer now may print the current value. -/
theorem Recorded.shows_current {L : Trace} (h : Recorded L) (K : Shared) :
    Shows L K (L.state.current K) L.log.length := by
  refine ⟨Int.le_refl _, h.values.possible K, Nat.le_refl _, ?_⟩
  rintro j r - hr rfl
  exact (h.log r (List.mem_of_getElem? hr)).2.published

/-- Updaters and callbacks leave the readers where they are. -/
theorem rcuUpdater_readers {fresh : Nat} (hs : s.rcuUpdater fresh = some s') :
    s'.readers = s.readers := by
  simp only [State.rcuUpdater] at hs
  split at hs
  · split at hs <;> cases hs
    rfl
  all_goals
    cases hs
    rfl

theorem rcuUpdaterList_readers {fresh : Nat} (hs : s.rcuUpdaterList fresh = some s') :
    s'.readers = s.readers := by
  cases hu : s.updaterList with
  | idle =>
      simp only [State.rcuUpdaterList, hu] at hs
      split at hs <;> cases hs <;> rfl
  | first p =>
      simp only [State.rcuUpdaterList, hu, Option.ite_none_left_eq_some] at hs
      cases hs.2
      rfl
  | allocated p q =>
      cases p <;> simp only [State.rcuUpdaterList, hu] at hs <;> cases hs
      rfl
  | syncing p w =>
      simp only [State.rcuUpdaterList, hu, Option.ite_none_right_eq_some] at hs
      cases hs.2
      rfl
  | copied p q | filled p q | replaced p q | printed p q | synced p =>
      simp only [State.rcuUpdaterList, hu] at hs
      cases hs
      rfl

theorem rcuReclaimer_readers {i : Nat} (hs : s.rcuReclaimer i = some s') :
    s'.readers = s.readers := by
  simp only [State.rcuReclaimer] at hs
  split at hs
  · cases hs
  · split at hs <;> cases hs <;> rfl

/-- A reader's step to a place where it has not fetched a pointer. -/
theorem fetched_update {t u : Nat} {r : Reader} {K : Shared} {p : Nat}
    (hr : ∀ K p, ¬ r.Fetched K p) (h : (Function.update s.readers u r t).Fetched K p) :
    t ≠ u ∧ (s.readers t).Fetched K p := by
  by_cases ht : t = u
  · subst ht
    rw [Function.update_self] at h
    exact absurd h (hr K p)
  · rw [Function.update_of_ne ht] at h
    exact ⟨ht, h⟩

/-- A pointer that a reader is going to print was fetched in this step, and is the published
one, or earlier. -/
theorem fetched_cases (hinv : Inv s) (hs : s.next e = some s') {t : Nat} {K : Shared} {p : Nat}
    (h : (s'.readers t).Fetched K p) :
    (s.fetches e = some (t, K) ∧ p = s.published K) ∨
      ((s.readers t).Fetched K p ∧ ∀ K', s.fetches e ≠ some (t, K')) := by
  cases e with
  | updater fresh =>
      rw [rcuUpdater_readers hs] at h
      exact .inr ⟨h, nofun⟩
  | updaterList fresh =>
      rw [rcuUpdaterList_readers hs] at h
      exact .inr ⟨h, nofun⟩
  | reclaimer i =>
      rw [rcuReclaimer_readers hs] at h
      exact .inr ⟨h, nofun⟩
  | reader u =>
      cases hu : s.readers u with
      | entered =>
          simp only [State.next, State.rcuReader, hu] at hs
          cases hs
          by_cases ht : t = u
          · subst ht
            simp only [State.goto, Function.update_self, Reader.Fetched, Reader.holds.injEq,
              reduceCtorEq, and_false, or_false] at h
            obtain ⟨rfl, rfl⟩ := h
            exact .inl ⟨by simp [State.fetches, hu], rfl⟩
          · simp only [State.goto, Function.update_of_ne ht] at h
            refine .inr ⟨h, ?_⟩
            intro K'
            simp [State.fetches, hu, Ne.symm ht]
      | outside | holds p₀ | printed =>
          simp only [State.next, State.rcuReader, hu] at hs
          cases hs
          obtain ⟨-, hold⟩ := fetched_update (by simp [Reader.Fetched]) h
          exact .inr ⟨hold, by simp [State.fetches, hu]⟩
      | listEntered | listAt p₀ | listSeen p₀ | listEnd =>
          simp only [State.next, State.rcuReader, hu] at hs
          cases hs
  | readerList u =>
      cases hu : s.readers u with
      | listEntered =>
          obtain ⟨q, hq, -⟩ := hinv.list
          simp only [State.next, State.rcuReaderList, State.follow, hu, hq] at hs
          cases hs
          by_cases ht : t = u
          · subst ht
            simp only [State.goto, Function.update_self, Reader.Fetched, Reader.listAt.injEq,
              reduceCtorEq, and_false, false_or] at h
            obtain ⟨rfl, rfl⟩ := h
            exact .inl ⟨by simp [State.fetches, hu], by simp [State.published, hq, Link.target]⟩
          · simp only [State.goto, Function.update_of_ne ht] at h
            refine .inr ⟨h, ?_⟩
            intro K'
            simp [State.fetches, hu, Ne.symm ht]
      | listSeen p₀ =>
          -- The element is the last one, so the walk ends.
          have hend : (s.heap p₀).next = .head := hinv.ends u p₀ (by rw [hu]; rfl)
          simp only [State.next, State.rcuReaderList, State.follow, hu, hend] at hs
          cases hs
          obtain ⟨-, hold⟩ := fetched_update (by simp [Reader.Fetched]) h
          exact .inr ⟨hold, by simp [State.fetches, hu]⟩
      | outside | listAt p₀ | listEnd =>
          simp only [State.next, State.rcuReaderList, hu] at hs
          cases hs
          obtain ⟨-, hold⟩ := fetched_update (by simp [Reader.Fetched]) h
          exact .inr ⟨hold, by simp [State.fetches, hu]⟩
      | entered | holds p₀ | printed =>
          simp only [State.next, State.rcuReaderList, hu] at hs
          cases hs

/-- A print shows the object that the reader has fetched. -/
theorem prints_cases {t : Nat} {K : Shared} {v : Int} (h : s.prints e = some (t, K, v)) :
    s.fetches e = none ∧ ∃ p, (s.readers t).Fetched K p ∧ v = (s.heap p).a := by
  cases e with
  | reader u =>
      cases hu : s.readers u with
      | holds p =>
          simp only [State.prints, hu] at h
          cases h
          exact ⟨by simp [State.fetches, hu], p, .inl ⟨rfl, hu⟩, rfl⟩
      | outside | entered | printed | listEntered | listAt p | listSeen p | listEnd =>
          simp only [State.prints, hu] at h
          cases h
  | readerList u =>
      cases hu : s.readers u with
      | listAt p =>
          simp only [State.prints, hu] at h
          cases h
          exact ⟨by simp [State.fetches, hu], p, .inr ⟨rfl, hu⟩, rfl⟩
      | outside | entered | holds p | printed | listEntered | listSeen p | listEnd =>
          simp only [State.prints, hu] at h
          cases h
  | updater fresh | updaterList fresh | reclaimer i => cases h

/-- An object that a reader refers to, or that is published, is not written. -/
theorem guarded_heap (hinv : Inv s) (hs : s.next e = some s') {t p : Nat} (hp : Guarded s t p) :
    s'.heap p = s.heap p := by
  have halloc : p ∈ s.allocated := hinv.ledger.known p (List.mem_append_right _ hp.live)
  obtain ⟨hfresh, hfresh'⟩ := hinv.ledger.not_fresh hp
  cases e with
  | reader t => rw [(rcuReader_leaves hs).heap]
  | readerList t => rw [(rcuReaderList_leaves hs).heap]
  | updater fresh => exact rcuUpdater_heap hs halloc hfresh
  | updaterList fresh => exact rcuUpdaterList_heap hs halloc hfresh'
  | reclaimer i => rw [(rcuReclaimer_leaves hs).heap]

namespace Trace

variable {L : Trace}

theorem fetch_log (f : Option (Nat × Shared)) : (L.fetch f).log = L.log := by
  cases f <;> rfl

theorem print_prefix (v : Option (Nat × Shared × Int)) : L.log <+: (L.print v).log := by
  cases v with
  | none => exact List.prefix_refl _
  | some v => exact List.prefix_append _ _

theorem print_seen (v : Option (Nat × Shared × Int)) : (L.print v).seen = L.seen := by
  cases v <;> rfl

theorem print_before (v : Option (Nat × Shared × Int)) : (L.print v).before = L.before := by
  cases v <;> rfl

/-- The notes of a reader that does not fetch. -/
theorem fetch_other {f : Option (Nat × Shared)} {t : Nat} (h : ∀ K, f ≠ some (t, K)) :
    (L.fetch f).seen t = L.seen t ∧ (L.fetch f).before t = L.before t := by
  cases f with
  | none => exact ⟨rfl, rfl⟩
  | some f =>
      have hne : t ≠ f.1 := by
        rintro rfl
        exact h f.2 rfl
      exact ⟨Function.update_of_ne hne _ _, Function.update_of_ne hne _ _⟩

end Trace

/-- The step lemma. -/
theorem Recorded.next {L L' : Trace} (h : Recorded L) (hs : L.next e = some L') : Recorded L' := by
  obtain ⟨s', hnext, rfl⟩ := Option.map_eq_some_iff.mp hs
  obtain ⟨hvalues, hcurrent⟩ := h.values.next h.inv hnext
  have hlog : L.log <+: ((L.fetch (L.state.fetches e)).print (L.state.prints e)).log := by
    rw [← L.fetch_log (L.state.fetches e)]
    exact Trace.print_prefix _
  refine ⟨h.inv.next hnext, hvalues, ?_, ?_⟩
  · intro t K p hp
    rw [Trace.print_seen, Trace.print_before]
    rcases fetched_cases h.inv hnext hp with ⟨hfetch, rfl⟩ | ⟨hold, hother⟩
    · rw [hfetch]
      have hguarded : Guarded L.state t (L.state.published K) := published_guarded h.inv t K
      refine ⟨?_, ?_⟩
      · simp only [Trace.fetch, Function.update_self]
        exact congrArg Foo.a (guarded_heap h.inv hnext hguarded)
      · simp only [Trace.fetch, Function.update_self]
        rw [hfetch] at hlog
        exact (h.shows_current K).later (hcurrent K) hlog
    · obtain ⟨hseen, hbefore⟩ := L.fetch_other hother
      obtain ⟨hvalue, hshows⟩ := h.fetched t K p hold
      rw [hseen, hbefore]
      refine ⟨?_, hshows.later (hcurrent K) hlog⟩
      rw [guarded_heap h.inv hnext (h.inv.guarded t p hold.refers)]
      exact hvalue
  · intro r hr
    suffices hnew : r.value = r.seen ∧ Shows L r.shared r.value r.before from
      ⟨hnew.1, hnew.2.later (hcurrent r.shared) hlog⟩
    cases hprint : L.state.prints e with
    | none =>
        rw [hprint] at hr
        simp only [Trace.print, Trace.fetch_log] at hr
        exact h.log r hr
    | some line =>
        obtain ⟨t, K, v⟩ := line
        obtain ⟨hfetch, p, hp, rfl⟩ := prints_cases hprint
        rw [hprint, hfetch] at hr
        rcases List.mem_append.mp hr with hold | hnew
        · exact h.log r hold
        · rw [List.mem_singleton.mp hnew]
          obtain ⟨hvalue, hshows⟩ := h.fetched t K p hp
          refine ⟨hvalue, ?_⟩
          rw [hvalue]
          exact hshows

/-- The run lemma. -/
theorem Recorded.of_reachable {L : Trace} (h : traced.Reachable L) : Recorded L := by
  apply TSys.Reach.invariant ?_ ?_ h
  · rintro _ rfl
    refine ⟨Inv.start, Values.start, ?_, by simp [Trace.start]⟩
    rintro t K p (⟨-, hr⟩ | ⟨-, hr⟩) <;> cases hr
  · intro L e L' ih _ hs
    exact ih.next hs

/-- In every run, however far the updaters and the callbacks get between a reader's fetch of
a pointer and its print: the line shows the value that was current at the fetch, one that the
updaters had published; and no line printed before that fetch shows a later one. -/
theorem reads_current (L : Trace) (h : traced.Reachable L) (r : Line) (hr : r ∈ L.log) :
    r.value = r.seen ∧ r.shared.Possible r.value ∧ r.value ≤ L.state.current r.shared ∧
      ∀ j r', j < r.before → L.log[j]? = some r' → r'.shared = r.shared → r'.value ≤ r.value := by
  obtain ⟨hvalue, hshows⟩ := (Recorded.of_reachable h).log r hr
  exact ⟨hvalue, hshows.possible, hshows.published, hshows.newer⟩

/-- Reader 0 fetches object 0, which is then replaced by object 2; reader 1 prints the new
value 1 before reader 0 prints the old value 0. -/
def overtakingReads : List Event :=
  [.reader 0, .reader 0] ++ List.replicate 5 (.updater 2) ++
    [.reader 1, .reader 1, .reader 1, .reader 0]

theorem reads_current_overtaking :
    ∃ L, traced.Reachable L ∧ L.log = [⟨1, .pointer, 1, 1, 0⟩, ⟨0, .pointer, 0, 0, 0⟩] ∧
      (0 : Int) ≤ L.state.current .pointer := by
  obtain ⟨L, hrun, hlog⟩ : ∃ L, traced.run overtakingReads Trace.start = some L ∧
      L.log = [⟨1, .pointer, 1, 1, 0⟩, ⟨0, .pointer, 0, 0, 0⟩] := ⟨_, rfl, rfl⟩
  have hreach : traced.Reachable L := TSys.Reachable.run (.init rfl) hrun
  obtain ⟨-, -, hcurrent, -⟩ := reads_current L hreach ⟨0, .pointer, 0, 0, 0⟩ (by simp [hlog])
  exact ⟨L, hreach, hlog, hcurrent⟩

end Lkm.Rcu
