import Mathlib.Logic.Function.Basic
import Lkm.Base.Transitions

/-!
# The RCU module (`RCU/simple.c`)

Readers and updaters of `g_pfoo` and of `g_rcu_list`, as one transition system: an
event is the next step of one thread, and the threads interleave freely. The state
begins where `rcu_test_init` has published both objects. The sleeps and the bound of
two iterations only remove interleavings, and are left out.

Of RCU the model has what it promises: `call_rcu` and `synchronize_rcu` note the
read-side sections that are open at the call, a section that closes is struck from
all notes, and the callback runs, or the call returns, when nothing is left.
`kzalloc` returns an address that was not in use before; `freed` lists the calls of
`kfree`, and `replaced` the objects that a pointer was moved away from.
-/

namespace Lkm.Rcu

open Base

/-- What `list.next` points to: the list's head, or the `list` of a `struct foo`. -/
inductive Link where
  | null
  | head
  | foo (p : Nat)
deriving DecidableEq

structure Foo where
  a : Int
  next : Link

/-- `kzalloc`. -/
def Foo.zero : Foo := ⟨0, .null⟩

/-- Where a reader is. `rcu_reader` passes `entered`, `holds` and `printed`, with one
turn of its loop; `rcu_reader_list` walks the list. -/
inductive Reader where
  | outside
  | entered
  | holds (p : Nat)
  | printed
  | listEntered
  | listAt (p : Nat)
  | listSeen (p : Nat)
  | listEnd
deriving DecidableEq

/-- Where `rcu_updater` is. -/
inductive Updater where
  | idle
  | allocated (new : Nat)
  | fetched (new old : Nat)
  | copied (new old : Nat)
  | filled (new old : Nat)
  | published (new old : Nat)
  | printed (new old : Nat)

/-- Where `rcu_updater_list` is; `first` has what `list_first_or_null_rcu` returned. -/
inductive UpdaterList where
  | idle
  | first (p : Option Nat)
  | allocated (p : Option Nat) (q : Nat)
  | copied (p q : Nat)
  | filled (p q : Nat)
  | replaced (p q : Nat)
  | printed (p q : Nat)
  | syncing (p : Nat) (waiting : List Nat)
  | synced (p : Nat)

/-- A callback waits for the sections that were open at `call_rcu`, or has printed
and is about to free its object. -/
inductive Phase where
  | waiting (sections : List Nat)
  | called

/-- `rcu_reclaimer`, queued for the object `foo`. -/
structure Callback where
  foo : Nat
  phase : Phase

structure State where
  heap : Nat → Foo
  allocated : List Nat
  freed : List Nat
  replaced : List Nat
  gPfoo : Nat
  /-- `g_rcu_list.next`. -/
  gRcuList : Link
  readers : Nat → Reader
  /-- The threads inside a read-side section. -/
  sections : List Nat
  callbacks : List Callback
  updater : Updater
  value : Int
  updaterList : UpdaterList
  valueList : Int

/-! ## Sections -/

def Phase.close (t : Nat) : Phase → Phase
  | .waiting w => .waiting (w.filter (· ≠ t))
  | .called => .called

def Callback.close (t : Nat) (cb : Callback) : Callback := { cb with phase := cb.phase.close t }

def UpdaterList.close (t : Nat) : UpdaterList → UpdaterList
  | .syncing p w => .syncing p (w.filter (· ≠ t))
  | u => u

namespace State

/-- Thread `t` goes on from `r`. -/
def goto (s : State) (t : Nat) (r : Reader) : State :=
  { s with readers := Function.update s.readers t r }

/-- `rcu_read_lock`. -/
def readLock (s : State) (t : Nat) (r : Reader) : State :=
  { s with readers := Function.update s.readers t r, sections := t :: s.sections }

/-- `rcu_read_unlock`. -/
def readUnlock (s : State) (t : Nat) : State :=
  { s with
    readers := Function.update s.readers t .outside
    sections := s.sections.filter (· ≠ t)
    callbacks := s.callbacks.map (Callback.close t)
    updaterList := s.updaterList.close t }

def kzalloc (s : State) (p : Nat) : State :=
  { s with heap := Function.update s.heap p .zero, allocated := p :: s.allocated }

def kfree (s : State) (p : Nat) : State := { s with freed := s.freed ++ [p] }

/-- `*p = foo`. -/
def store (s : State) (p : Nat) (foo : Foo) : State :=
  { s with heap := Function.update s.heap p foo }

/-! ## Readers -/

/-- One step of `rcu_reader` in thread `t`. -/
def rcuReader (s : State) (t : Nat) : Option State :=
  match s.readers t with
  | .outside => some (s.readLock t .entered)
  | .entered => some (s.goto t (.holds s.gPfoo))
  | .holds _ => some (s.goto t .printed)
  | .printed => some (s.readUnlock t)
  | _ => none

/-- The walk over the list goes to `link`; there is no step through `NULL`. -/
def follow (s : State) (t : Nat) : Link → Option State
  | .null => none
  | .head => some (s.goto t .listEnd)
  | .foo p => some (s.goto t (.listAt p))

/-- One step of `rcu_reader_list` in thread `t`. -/
def rcuReaderList (s : State) (t : Nat) : Option State :=
  match s.readers t with
  | .outside => some (s.readLock t .listEntered)
  | .listEntered => s.follow t s.gRcuList
  | .listAt p => some (s.goto t (.listSeen p))
  | .listSeen p => s.follow t (s.heap p).next
  | .listEnd => some (s.readUnlock t)
  | _ => none

/-! ## Updaters -/

/-- One step of `rcu_updater`; `fresh` is what `kzalloc` returns. -/
def rcuUpdater (s : State) (fresh : Nat) : Option State :=
  match s.updater with
  | .idle =>
      if fresh ∈ s.allocated then none
      else some { s.kzalloc fresh with updater := .allocated fresh }
  | .allocated new => some { s with updater := .fetched new s.gPfoo }
  | .fetched new old => some { s.store new (s.heap s.gPfoo) with updater := .copied new old }
  | .copied new old =>
      some { s.store new { s.heap new with a := s.value } with updater := .filled new old }
  | .filled new old =>
      some { s with gPfoo := new, replaced := s.gPfoo :: s.replaced, updater := .published new old }
  | .published new old => some { s with updater := .printed new old }
  | .printed _ old =>
      some { s with
        callbacks := s.callbacks ++ [⟨old, .waiting s.sections⟩]
        updater := .idle
        value := s.value + 1 }

/-- One step of `rcu_updater_list`. `list_replace_rcu` gives `q` the successor of `p`,
and the head, in front of `p`, gets `q` as its successor. -/
def rcuUpdaterList (s : State) (fresh : Nat) : Option State :=
  match s.updaterList with
  | .idle =>
      match s.gRcuList with
      | .null => none
      | .head => some { s with updaterList := .first none }
      | .foo p => some { s with updaterList := .first (some p) }
  | .first p =>
      if fresh ∈ s.allocated then none
      else some { s.kzalloc fresh with updaterList := .allocated p fresh }
  | .allocated none _ => none
  | .allocated (some p) q => some { s.store q (s.heap p) with updaterList := .copied p q }
  | .copied p q =>
      some { s.store q { s.heap q with a := s.valueList } with updaterList := .filled p q }
  | .filled p q =>
      some { s.store q { s.heap q with next := (s.heap p).next } with
        gRcuList := .foo q
        replaced := p :: s.replaced
        updaterList := .replaced p q }
  | .replaced p q => some { s with updaterList := .printed p q }
  | .printed p _ => some { s with updaterList := .syncing p s.sections }
  | .syncing p w => if w = [] then some { s with updaterList := .synced p } else none
  | .synced p =>
      some { s.kfree p with updaterList := .idle, valueList := s.valueList + 1 }

/-- A step of the callback at position `i`: it is called when its grace period has
ended, and prints; then it frees. -/
def rcuReclaimer (s : State) (i : Nat) : Option State :=
  match s.callbacks[i]? with
  | none => none
  | some cb =>
      match cb.phase with
      | .waiting [] => some { s with callbacks := s.callbacks.set i { cb with phase := .called } }
      | .waiting _ => none
      | .called => some { s.kfree cb.foo with callbacks := s.callbacks.eraseIdx i }

end State

inductive Event where
  | reader (t : Nat)
  | readerList (t : Nat)
  | updater (fresh : Nat)
  | updaterList (fresh : Nat)
  | reclaimer (i : Nat)

def State.next (s : State) : Event → Option State
  | .reader t => s.rcuReader t
  | .readerList t => s.rcuReaderList t
  | .updater fresh => s.rcuUpdater fresh
  | .updaterList fresh => s.rcuUpdaterList fresh
  | .reclaimer i => s.rcuReclaimer i

/-- The objects that a step dereferences. -/
def State.derefs (s : State) : Event → List Nat
  | .reader t =>
      match s.readers t with
      | .holds p => [p]
      | _ => []
  | .readerList t =>
      match s.readers t with
      | .listAt p | .listSeen p => [p]
      | _ => []
  | .updater _ =>
      match s.updater with
      | .fetched new _ => [s.gPfoo, new]
      | .copied new _ | .published new _ => [new]
      | .printed _ old => [old]
      | _ => []
  | .updaterList _ =>
      match s.updaterList with
      | .allocated (some p) q | .filled p q => [p, q]
      | .copied _ q | .replaced _ q => [q]
      | _ => []
  | .reclaimer i =>
      match s.callbacks[i]? with
      | some ⟨p, .waiting []⟩ => [p]
      | _ => []

/-- `rcu_test_init` has published object 0 in `g_pfoo` and object 1 in the list, and no
thread has made a step. -/
def State.start : State where
  heap := Function.update (fun _ => Foo.zero) 1 ⟨0, .head⟩
  allocated := [1, 0]
  freed := []
  replaced := []
  gPfoo := 0
  gRcuList := .foo 1
  readers := fun _ => .outside
  sections := []
  callbacks := []
  updater := .idle
  value := 1
  updaterList := .idle
  valueList := 1000

def rcu : TSys State Event where
  init := fun s => s = State.start
  next := State.next

end Lkm.Rcu
