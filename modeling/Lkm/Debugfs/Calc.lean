import Mathlib.Logic.Function.Basic
import Lkm.Base.Transitions

/-!
# The calculator in debugfs (`debugfs/simple.c`)

Writing a number to `calc/add` adds it to `sum`. `simple_attr_write` calls `my_write_op` with
the mutex of the open file locked, and every `open` of `add` makes a new one: the mutex keeps
the users of one open file apart, and nobody else. `sum += value` is a load and a store.

An event is the start of a `write` with its number, or the next step of a thread that is in
one. `added` has what the statement was executed with so far, all together.
-/

namespace Lkm.Debugfs

open Base

/-- Where a thread is, with the open file that it writes to. -/
inductive Pc where
  | idle
  | entered (file : Nat) (value : UInt64)
  | locked (file : Nat) (value : UInt64)
  | loaded (file : Nat) (value : UInt64) (old : UInt32)
  | stored (file : Nat)

structure State where
  sum : UInt32
  /-- The open files whose mutex is locked. -/
  held : List Nat
  threads : Nat → Pc
  added : UInt32

/-- After `init_module`. -/
def State.start : State where
  sum := 0
  held := []
  threads := fun _ => .idle
  added := 0

/-- The `u32` gets the low half of a `u64`. -/
def low (value : UInt64) : UInt32 := value.toUInt32

namespace State

def goto (s : State) (t : Nat) (pc : Pc) : State :=
  { s with threads := Function.update s.threads t pc }

/-- The load of `my_write_op`'s statement. -/
def load (s : State) (t file : Nat) (value : UInt64) : State := s.goto t (.loaded file value s.sum)

/-- Its store. -/
def store (s : State) (t file : Nat) (value : UInt64) (old : UInt32) : State :=
  { s.goto t (.stored file) with sum := old + low value, added := s.added + low value }

/-- The next step of `simple_attr_write` in thread `t`. -/
def step (s : State) (t : Nat) : Option State :=
  match s.threads t with
  | .idle => none
  | .entered file value =>
      if file ∈ s.held then none
      else some { s.goto t (.locked file value) with held := file :: s.held }
  | .locked file value => some (s.load t file value)
  | .loaded file value old => some (s.store t file value old)
  | .stored file => some { s.goto t .idle with held := s.held.filter (· ≠ file) }

end State

inductive Event where
  | write (t file : Nat) (value : UInt64)
  | step (t : Nat)

def State.next (s : State) : Event → Option State
  | .write t file value =>
      match s.threads t with
      | .idle => some (s.goto t (.entered file value))
      | _ => none
  | .step t => s.step t

def calculator : TSys State Event where
  init := fun s => s = State.start
  next := State.next

/-- `W file value`: somebody may write `value` to the open file. -/
def Event.In (W : Nat → UInt64 → Prop) : Event → Prop
  | .write _ file value => W file value
  | .step _ => True

/-- The states of the runs with such writes. -/
def Reaches (W : Nat → UInt64 → Prop) (s : State) : Prop := calculator.Reach (fun _ e => e.In W) s

/-! ## Mutual exclusion -/

/-- What the thread was asked to write and has not stored yet. -/
def Pc.Asks (file : Nat) (value : UInt64) : Pc → Prop
  | .entered f v => f = file ∧ v = value
  | .locked f v => f = file ∧ v = value
  | .loaded f v _ => f = file ∧ v = value
  | _ => False

/-- The thread has the file's mutex. -/
def Pc.Holds (file : Nat) : Pc → Prop
  | .locked f _ => f = file
  | .loaded f _ _ => f = file
  | .stored f => f = file
  | _ => False

/-- The mutex of a file is with one thread at most, and what a thread has loaded is still
the sum when it stores. -/
structure Inv (W : Nat → UInt64 → Prop) (s : State) : Prop where
  asks : ∀ t file value, (s.threads t).Asks file value → W file value
  held : ∀ t file, (s.threads t).Holds file → file ∈ s.held
  alone : ∀ t u file, (s.threads t).Holds file → (s.threads u).Holds file → t = u
  loaded : ∀ t file value old, s.threads t = .loaded file value old → old = s.sum
  exact : s.sum = s.added

variable {W : Nat → UInt64 → Prop} {s s' : State} {t : Nat}

theorem Inv.start : Inv W State.start :=
  ⟨nofun, nofun, nofun, nofun, rfl⟩

/-- Thread `t` goes on, and gets or leaves a mutex: what is to be shown of `t` alone. -/
theorem Inv.goto (h : Inv W s) {pc : Pc} (held : List Nat)
    (hasks : ∀ file value, pc.Asks file value → W file value)
    (hheld : ∀ file, pc.Holds file → file ∈ held)
    (hothers : ∀ u file, u ≠ t → (s.threads u).Holds file → file ∈ held ∧ ¬ pc.Holds file)
    (hloaded : ∀ file value old, pc = .loaded file value old → old = s.sum) :
    Inv W { s.goto t pc with held := held } := by
  refine ⟨?_, ?_, ?_, ?_, h.exact⟩
  · refine (Function.forall_update_iff s.threads fun _ pc =>
      ∀ file value, pc.Asks file value → W file value).mpr ⟨hasks, ?_⟩
    intro u _
    exact h.asks u
  · refine (Function.forall_update_iff s.threads fun _ pc =>
      ∀ file, pc.Holds file → file ∈ held).mpr ⟨hheld, ?_⟩
    intro u hu file hholds
    exact (hothers u file hu hholds).1
  · intro u v file hu hv
    by_cases hut : u = t
    · by_cases hvt : v = t
      · rw [hut, hvt]
      · subst hut
        simp only [State.goto, Function.update_self, Function.update_of_ne hvt] at hu hv
        exact absurd hu (hothers v file hvt hv).2
    · by_cases hvt : v = t
      · subst hvt
        simp only [State.goto, Function.update_self, Function.update_of_ne hut] at hu hv
        exact absurd hv (hothers u file hut hu).2
      · simp only [State.goto, Function.update_of_ne hut, Function.update_of_ne hvt] at hu hv
        exact h.alone u v file hu hv
  · refine (Function.forall_update_iff s.threads fun _ pc =>
      ∀ file value old, pc = .loaded file value old → old = s.sum).mpr ⟨hloaded, ?_⟩
    intro u _
    exact h.loaded u

/-- A step inside the mutex. -/
theorem Inv.inside (h : Inv W s) {pc : Pc} (file : Nat) (hfile : (s.threads t).Holds file)
    (hasks : ∀ f value, pc.Asks f value → W f value) (hpc : ∀ f, pc.Holds f → f = file)
    (hloaded : ∀ f value old, pc = .loaded f value old → old = s.sum) : Inv W (s.goto t pc) := by
  refine h.goto s.held hasks ?_ ?_ hloaded
  · intro f hf
    rw [hpc f hf]
    exact h.held t file hfile
  · intro u f hu hholds
    refine ⟨h.held u f hholds, ?_⟩
    intro hf
    rw [hpc f hf] at hholds
    exact hu (h.alone u t file hholds hfile)

/-- The store: another thread that has loaded the sum writes to another file, and then both
add nothing. -/
theorem Inv.store (hW : ∀ f g v w, W f v → W g w → f ≠ g → low v = 0 ∧ low w = 0) (h : Inv W s)
    {file : Nat} {value : UInt64} {old : UInt32} (ht : s.threads t = .loaded file value old) :
    Inv W (s.store t file value old) := by
  have hfile : (s.threads t).Holds file := by
    rw [ht]
    rfl
  have hold : old = s.sum := h.loaded t file value old ht
  have hgoto : Inv W (s.goto t (.stored file)) :=
    h.inside file hfile nofun (fun f hf => hf.symm) nofun
  refine ⟨hgoto.asks, hgoto.held, hgoto.alone, ?_, ?_⟩
  · refine (Function.forall_update_iff s.threads fun _ pc => ∀ file' value' old',
      pc = .loaded file' value' old' → old' = old + low value).mpr ⟨nofun, ?_⟩
    intro u hu file' value' old' hloaded
    have hne : file ≠ file' := by
      rintro rfl
      exact hu (h.alone u t file (by rw [hloaded]; rfl) hfile)
    have hzero : low value = 0 :=
      (hW file file' value value' (h.asks t file value (by rw [ht]; exact ⟨rfl, rfl⟩))
        (h.asks u file' value' (by rw [hloaded]; exact ⟨rfl, rfl⟩)) hne).1
    rw [hzero, hold, h.loaded u file' value' old' hloaded, UInt32.add_zero]
  · show old + low value = s.added + low value
    rw [hold, h.exact]

/-- The step lemma. -/
theorem Inv.next (hW : ∀ f g v w, W f v → W g w → f ≠ g → low v = 0 ∧ low w = 0) (h : Inv W s)
    {e : Event} (he : e.In W) (hs : s.next e = some s') : Inv W s' := by
  cases e with
  | write t file value =>
      simp only [State.next] at hs
      split at hs
      · rename_i hidle
        cases hs
        refine h.goto s.held ?_ nofun ?_ nofun
        · rintro _ _ ⟨rfl, rfl⟩
          exact he
        · intro u f _ hholds
          exact ⟨h.held u f hholds, id⟩
      · cases hs
  | step t =>
      simp only [State.next, State.step] at hs
      cases ht : s.threads t with
      | idle =>
          rw [ht] at hs
          cases hs
      | entered file value =>
          simp only [ht, Option.ite_none_left_eq_some] at hs
          obtain ⟨hfree, hs⟩ := hs
          cases hs
          refine h.goto _ ?_ ?_ ?_ nofun
          · rintro _ _ ⟨rfl, rfl⟩
            exact h.asks t _ _ (by rw [ht]; exact ⟨rfl, rfl⟩)
          · rintro _ rfl
            exact List.mem_cons_self
          · intro u f _ hholds
            refine ⟨List.mem_cons_of_mem _ (h.held u f hholds), ?_⟩
            rintro rfl
            exact hfree (h.held u _ hholds)
      | locked file value =>
          simp only [ht] at hs
          cases hs
          refine h.inside file (by rw [ht]; rfl) ?_ (fun f hf => hf.symm) ?_
          · rintro _ _ ⟨rfl, rfl⟩
            exact h.asks t _ _ (by rw [ht]; exact ⟨rfl, rfl⟩)
          · rintro _ _ _ ⟨⟩
            rfl
      | loaded file value old =>
          simp only [ht] at hs
          cases hs
          exact h.store hW ht
      | stored file =>
          simp only [ht] at hs
          cases hs
          have hfile : (s.threads t).Holds file := by
            rw [ht]
            rfl
          refine h.goto _ nofun nofun ?_ nofun
          intro u f hu hholds
          refine ⟨?_, id⟩
          rw [List.mem_filter]
          refine ⟨h.held u f hholds, ?_⟩
          rw [decide_eq_true_eq]
          rintro rfl
          exact hu (h.alone u t _ hholds hfile)

/-! ## Lost updates -/

/-- One thread loads the sum, a second one adds `w` through another file, and the first one
stores: `w` is lost. -/
def overtaken (f g : Nat) (v w : UInt64) : List Event :=
  [.write 0 f v, .step 0, .step 0, .write 1 g w, .step 1, .step 1, .step 1, .step 0]

theorem run_overtaken {f g : Nat} (hfg : f ≠ g) (v w : UInt64) :
    ∃ s, calculator.run (overtaken f g v w) State.start = some s ∧ s.sum = low v ∧
      s.added = low w + low v := by
  simp [overtaken, TSys.run, calculator, State.next, State.step, State.start, State.goto, State.load,
    State.store, Ne.symm hfg]

/-- The first write loses the second one, unless that one adds nothing. -/
theorem low_eq_zero (h : ∀ s, Reaches W s → s.sum = s.added) {f g : Nat} {v w : UInt64} (hf : W f v)
    (hg : W g w) (hfg : f ≠ g) : low w = 0 := by
  obtain ⟨s, hrun, hsum, hadded⟩ := run_overtaken hfg v w
  have hreach : Reaches W s := by
    refine TSys.Reach.run (.init rfl) ?_ hrun
    intro e he _
    simp only [overtaken, List.mem_cons, List.not_mem_nil, or_false] at he
    rcases he with rfl | rfl | rfl | rfl | rfl | rfl | rfl | rfl <;> first | exact hf | exact hg | trivial
  have hlost := h s hreach
  rw [hsum, hadded] at hlost
  grind

/-- In all runs of the writes that may happen, `sum` is at every time what was added: exactly
if any two of them that go through different open files add nothing, modulo `2 ^ 32`. -/
theorem sum_exact_iff (W : Nat → UInt64 → Prop) :
    (∀ s, Reaches W s → s.sum = s.added) ↔
      ∀ f g v w, W f v → W g w → f ≠ g → low v = 0 ∧ low w = 0 := by
  constructor
  · intro h f g v w hf hg hfg
    exact ⟨low_eq_zero h hg hf hfg.symm, low_eq_zero h hf hg hfg⟩
  · intro hW s hs
    have hinv : Inv W s := by
      refine TSys.Reach.invariant ?_ ?_ hs
      · rintro _ rfl
        exact .start
      · intro s e s' ih he hnext
        exact ih.next hW he hnext
    exact hinv.exact

end Lkm.Debugfs
