import Lkm.Base.LockSets
import Lkm.Simplefs.Vfs

/-!
# The driver's three mutexes

The lock order is `simplefs_directory_children_update_lock`, then
`simplefs_inodes_mgmt_lock`, then `simplefs_sb_lock`. Every function keeps to it and
gives back what it took, on every exit, with two exceptions, both after an interrupted
wait for `simplefs_sb_lock`:

* `simplefs_sb_get_a_freeblock` jumps to `end`, where it unlocks the mutex it did not get;
* `simplefs_inode_add` returns without unlocking `simplefs_inodes_mgmt_lock`.

The second one cannot happen. `simplefs_sb_lock` is only taken under one of the other two
mutexes, and `simplefs_inode_add` comes to it with both of them, so it never has to wait
(`add_never_waits_for_sb`). This holds in every run, those included in which the first
exception takes `simplefs_sb_lock` away from its holder.

The first one is real (`lock_discipline_broken`). Where it does not happen, threads that
run together keep the lock discipline (`lock_discipline_of_freeblock_waits`), and calls
that run alone never hang (`outcome_not_hung`).
-/

namespace Lkm.Simplefs

open Base

/-- The position of a mutex in the lock order. -/
def lockRank : Mutex → Nat
  | .directoryChildrenUpdate => 0
  | .inodesMgmt => 1
  | .sb => 2

/-- `simplefs_sb_lock` is held only under one of the other mutexes. -/
def SbUnderOther (H : LockSet Mutex) : Prop :=
  H .sb = true → H .directoryChildrenUpdate = true ∨ H .inodesMgmt = true

/-- `simplefs_inode_add` waits for `simplefs_sb_lock` with both other mutexes. -/
def AddUnderBoth (i : Site) (x : Mutex) (H : LockSet Mutex) : Prop :=
  i = .addSb → x = .sb ∧ H .directoryChildrenUpdate = true ∧ H .inodesMgmt = true

/-- The driver's use of its mutexes, when the waits in `intr` may be interrupted and the
mutexes in `loose` are sometimes unlocked by threads that do not hold them. -/
def policy (intr : Site → Prop) (loose : Mutex → Prop) : LockPolicy Mutex Site where
  rank := lockRank
  intr := intr
  loose := loose
  nest := SbUnderOther
  wait := AddUnderBoth

/-- The waits that may be interrupted without harm to the lock discipline. -/
def SafeWait (i : Site) : Prop := i ≠ .freeblock ∧ i ≠ .addSb

/-- With only those interrupted, mutexes are unlocked by their holders. -/
def safePolicy : LockPolicy Mutex Site := policy SafeWait fun _ => False

/-- Entered with `H` held, the code gives back exactly `H`. -/
def Keeps {α : Type} (D : LockPolicy Mutex Site) (p : Sfs α) (H : LockSet Mutex) : Prop :=
  LockSafe D p H fun _ => H

/-! ## Rules -/

section Rules

variable {α β : Type} {D : LockPolicy Mutex Site} {H : LockSet Mutex}

theorem keeps_pure (a : α) : Keeps D (pure a) H := LockSafe.ret a rfl

theorem keeps_bind {p : Sfs α} {f : α → Sfs β} (hp : Keeps D p H) (hf : ∀ a, Keeps D (f a) H) :
    Keeps D (p >>= f) H := LockSafe.bind hp hf

theorem keeps_stop (e : Fault) : Keeps D (stop e : Sfs α) H := LockSafe.fail

theorem keeps_ite {c : Prop} [Decidable c] {p q : Sfs α} (hp : Keeps D p H) (hq : Keeps D q H) :
    Keeps D (if c then p else q) H := by
  split
  · exact hp
  · exact hq

theorem keeps_readMem : Keeps D readMem H := LockSafe.get fun s => LockSafe.ret s rfl

theorem keeps_update (f : Mem → Mem) : Keeps D (update f) H := LockSafe.act (LockSafe.ret () rfl)

theorem keeps_updateVol (f : Vol → Vol) : Keeps D (updateVol f) H := keeps_update _

theorem keeps_ask (q : Query) : Keeps D (ask q) H := LockSafe.ask fun a => LockSafe.ret a rfl

theorem keeps_sbBread (P : Platform) (b : Nat) : Keeps D (sbBread P b) H :=
  keeps_ite (keeps_bind (keeps_update _) fun _ => keeps_pure true) (keeps_pure false)

theorem keeps_sbBreadOrBug (P : Platform) (b : Nat) : Keeps D (sbBreadOrBug P b) H :=
  keeps_bind (keeps_sbBread P b) fun _ => keeps_ite (keeps_pure ()) (keeps_stop _)

theorem keeps_inBlock (b off len : Nat) : Keeps D (inBlock b off len) H :=
  keeps_ite (keeps_pure ()) (keeps_stop _)

theorem keeps_simplefsInode (p : Path) : Keeps D (simplefsInode p) H := by
  refine keeps_bind keeps_readMem fun m => ?_
  cases m.priv p with
  | none => exact keeps_stop _
  | some i => exact keeps_pure i

theorem keeps_liftFault (x : Except Fault α) : Keeps D (liftFault x) H := by
  cases x with
  | ok a => exact keeps_pure a
  | error e => exact keeps_stop e

end Rules

section Waits

variable {α : Type} {intr : Site → Prop} {loose : Mutex → Prop} {H : LockSet Mutex}

theorem LockSet.add_self (x : Mutex) : (H.add x) x = true := by simp [LockSet.add]

theorem LockSet.remove_self (x : Mutex) : (H.remove x) x = false := by simp [LockSet.remove]

theorem sbUnderOther_of_not (hsb : H .sb = false) : SbUnderOther H := by
  intro h
  rw [hsb] at h
  cases h

/-- The wait for the first mutex, what follows when it was interrupted, and what follows
when it was not. -/
theorem lockSafe_takeFirst {i : Site} {p q : Sfs α} {Q : α → LockSet Mutex} (hi : i ≠ .addSb)
    (hx : i.mutex ≠ .sb) (hp : LockSafe (policy intr loose) p .empty Q)
    (hq : LockSafe (policy intr loose) q (LockSet.empty.add i.mutex) Q) :
    LockSafe (policy intr loose)
      (mutexLockInterruptible i >>= fun b => if b = true then p else q) .empty Q := by
  refine LockSafe.lock ?_ (fun h => absurd h hi) ?_ hq fun _ => hp
  · intro y hy
    cases hy
  · apply sbUnderOther_of_not
    simp [LockSet.add, LockSet.empty, Ne.symm hx]

/-- The same for `simplefs_inodes_mgmt_lock`, with nothing but the first mutex held. -/
theorem lockSafe_takeInodes {i : Site} {p q : Sfs α} {Q : α → LockSet Mutex}
    (hi : i.mutex = .inodesMgmt) (hmgmt : H .inodesMgmt = false) (hsb : H .sb = false)
    (hp : LockSafe (policy intr loose) p H Q)
    (hq : LockSafe (policy intr loose) q (H.add .inodesMgmt) Q) :
    LockSafe (policy intr loose)
      (mutexLockInterruptible i >>= fun b => if b = true then p else q) H Q := by
  refine LockSafe.lock ?_ ?_ ?_ (hi ▸ hq) fun _ => hp
  · intro y hy
    show lockRank y < lockRank i.mutex
    rw [hi]
    cases y with
    | sb => rw [hsb] at hy; cases hy
    | directoryChildrenUpdate => decide
    | inodesMgmt => rw [hmgmt] at hy; cases hy
  · rintro rfl
    cases hi
  · intro _
    rw [hi]
    exact .inr (LockSet.add_self _)

/-- The same for `simplefs_sb_lock`, under one of the others. -/
theorem lockSafe_takeSb {i : Site} {p q : Sfs α} {Q : α → LockSet Mutex} (hi : i.mutex = .sb)
    (hsb : H .sb = false) (hother : H .directoryChildrenUpdate = true ∨ H .inodesMgmt = true)
    (hwait : AddUnderBoth i .sb H) (hp : intr i → LockSafe (policy intr loose) p H Q)
    (hq : LockSafe (policy intr loose) q (H.add .sb) Q) :
    LockSafe (policy intr loose)
      (mutexLockInterruptible i >>= fun b => if b = true then p else q) H Q := by
  refine LockSafe.lock ?_ (hi ▸ hwait) ?_ (hi ▸ hq) hp
  · intro y hy
    show lockRank y < lockRank i.mutex
    rw [hi]
    cases y with
    | sb => rw [hsb] at hy; cases hy
    | directoryChildrenUpdate => decide
    | inodesMgmt => decide
  · intro _
    simpa [hi, LockSet.add] using hother

/-- Unlocking, with `simplefs_sb_lock` first if it is held. -/
theorem lockSafe_unlock {x : Mutex} {f : Unit → Sfs α} {Q : α → LockSet Mutex}
    (hx : loose x ∨ H x = true) (hsb : (H.remove x) .sb = false)
    (h : LockSafe (policy intr loose) (f ()) (H.remove x) Q) :
    LockSafe (policy intr loose) (mutexUnlock x >>= f) H Q :=
  LockSafe.unlock hx (sbUnderOther_of_not hsb) h

/-- Unlocking what was taken last, and returning. -/
theorem lockSafe_unlock_ret {x : Mutex} {a : α} {Q : α → LockSet Mutex}
    (hx : loose x ∨ H x = true) (hsb : (H.remove x) .sb = false) (h : Q a = H.remove x) :
    LockSafe (policy intr loose) (mutexUnlock x >>= fun _ => pure a) H Q :=
  lockSafe_unlock hx hsb (LockSafe.ret a h)

end Waits

/-! ## Functions that take no lock -/

section Functions

variable (P : Platform) {D : LockPolicy Mutex Site} {H : LockSet Mutex}

theorem keeps_simplefsSbSync : Keeps D (simplefsSbSync P) H :=
  keeps_bind (keeps_sbBreadOrBug P _) fun _ => keeps_bind (keeps_updateVol _) fun _ =>
    keeps_bind (keeps_updateVol _) fun _ => keeps_update _

theorem keeps_simplefsGetInode (no : U64) : Keeps D (simplefsGetInode P no) H := by
  refine keeps_bind (keeps_sbBreadOrBug P _) fun _ => keeps_bind keeps_readMem fun m => ?_
  exact keeps_bind (keeps_liftFault _) fun r => keeps_bind (keeps_update _) fun _ => keeps_pure r

theorem keeps_simplefsIget (ino : U64) : Keeps D (simplefsIget P ino) H := by
  refine keeps_bind (keeps_simplefsGetInode P _) fun r => ?_
  cases r with
  | none => exact keeps_stop _
  | some ino => exact keeps_pure _

theorem keeps_simplefsLookup (parent : Path) (name : Name) :
    Keeps D (simplefsLookup P parent name) H := by
  refine keeps_bind (keeps_simplefsInode _) fun par => keeps_bind (keeps_sbBread P _) fun bh => ?_
  refine keeps_ite (keeps_stop _) (keeps_bind keeps_readMem fun m => ?_)
  refine keeps_bind (keeps_liftFault _) fun r => ?_
  cases r with
  | none => exact keeps_pure ()
  | some k => exact keeps_bind (keeps_simplefsIget P _) fun i => keeps_updateVol _

theorem keeps_simplefsFillSuper : Keeps D (simplefsFillSuper P) H :=
  keeps_bind (keeps_sbBreadOrBug P _) fun _ =>
    keeps_bind (keeps_simplefsGetInode P _) fun _ => keeps_updateVol _

theorem keeps_simplefsIterate (p : Path) (ctx : DirContext) :
    Keeps D (simplefsIterate P p ctx) H := by
  refine keeps_ite (keeps_pure _) (keeps_bind (keeps_simplefsInode _) fun ino => ?_)
  refine keeps_ite (keeps_pure _) (keeps_bind (keeps_sbBreadOrBug P _) fun _ => ?_)
  refine keeps_bind keeps_readMem fun m => keeps_bind (keeps_liftFault _) fun ctx' => ?_
  exact keeps_bind (keeps_update _) fun _ => keeps_pure _

theorem keeps_simplefsRead (p : Path) (len ppos : U64) : Keeps D (simplefsRead P p len ppos) H := by
  refine keeps_bind (keeps_simplefsInode _) fun ino => keeps_ite (keeps_pure _) ?_
  refine keeps_bind (keeps_sbBread P _) fun bh => keeps_ite (keeps_pure _) ?_
  refine keeps_ite (keeps_bind (keeps_update _) fun _ => keeps_pure _) ?_
  refine keeps_bind (keeps_inBlock _ _ _) fun _ => keeps_bind keeps_readMem fun m => ?_
  refine keeps_bind (keeps_ask _) fun ok => ?_
  refine keeps_ite (keeps_bind (keeps_update _) fun _ => keeps_pure _) ?_
  exact keeps_bind (keeps_update _) fun _ => keeps_pure _

theorem keeps_copyFromUser (blk off : Nat) (buf : Buf) (len copied : Nat) :
    Keeps D (copyFromUser blk off buf len copied) H :=
  keeps_ite (keeps_pure ()) (keeps_bind (keeps_inBlock _ _ _) fun _ => keeps_updateVol _)

/-! ## Functions that take a lock and give it back -/

section Takes

variable {intr : Site → Prop} {loose : Mutex → Prop}

theorem keeps_simplefsInodeSave (p : Path) (hsb : H .sb = false) (hmgmt : H .inodesMgmt = true) :
    Keeps (policy intr loose) (simplefsInodeSave P p) H := by
  refine keeps_bind (keeps_sbBreadOrBug P _) fun _ => ?_
  refine lockSafe_takeSb rfl hsb (.inr hmgmt) nofun (fun _ => keeps_pure _) ?_
  refine LockSafe.bind (keeps_simplefsInode _) fun ino => ?_
  refine LockSafe.bind keeps_readMem fun m => LockSafe.bind (keeps_liftFault _) fun r => ?_
  have hback := (LockSet.remove_add hsb).symm
  have hheld : loose .sb ∨ (H.add Mutex.sb) .sb = true := .inr (LockSet.add_self _)
  cases r with
  | none => exact lockSafe_unlock_ret hheld (LockSet.remove_self _) hback
  | some k =>
      refine LockSafe.bind (keeps_simplefsInode _) fun ino' => ?_
      refine LockSafe.bind (keeps_updateVol _) fun _ => LockSafe.bind (keeps_updateVol _) fun _ => ?_
      refine LockSafe.bind (keeps_updateVol _) fun _ => LockSafe.bind (keeps_update _) fun _ => ?_
      exact lockSafe_unlock_ret hheld (LockSet.remove_self _) hback

theorem keeps_simplefsSbGetObjectsCount (hmgmt : H .inodesMgmt = false) (hsb : H .sb = false) :
    Keeps (policy intr loose) simplefsSbGetObjectsCount H := by
  refine lockSafe_takeInodes rfl hmgmt hsb (keeps_pure _) ?_
  refine LockSafe.bind keeps_readMem fun m => ?_
  have hback := LockSet.remove_add hmgmt
  exact lockSafe_unlock_ret (.inr (LockSet.add_self _)) (by rw [hback]; exact hsb) hback.symm

/-- The exit after an interrupted wait unlocks what was not taken. -/
theorem keeps_simplefsSbGetAFreeblock (hfree : intr .freeblock → loose .sb) (hsb : H .sb = false)
    (hdir : H .directoryChildrenUpdate = true) :
    Keeps (policy intr loose) (simplefsSbGetAFreeblock P) H := by
  have hback := (LockSet.remove_add hsb).symm
  have hheld : loose .sb ∨ (H.add Mutex.sb) .sb = true := .inr (LockSet.add_self _)
  refine lockSafe_takeSb rfl hsb (.inl hdir) nofun ?_ ?_
  · intro hi
    exact lockSafe_unlock_ret (.inl (hfree hi)) (LockSet.remove_self _) (LockSet.remove_of_not hsb).symm
  refine LockSafe.bind keeps_readMem fun m => ?_
  show LockSafe _ (if _ then _ else _) _ _
  split
  · exact lockSafe_unlock_ret hheld (LockSet.remove_self _) hback
  · refine LockSafe.bind keeps_readMem fun m => LockSafe.bind (keeps_updateVol _) fun _ => ?_
    refine LockSafe.bind (keeps_simplefsSbSync P) fun _ => ?_
    exact lockSafe_unlock_ret hheld (LockSet.remove_self _) hback

/-- The exit after the second wait keeps a mutex; it is excluded here. -/
theorem keeps_simplefsInodeAdd (hadd : ¬ intr .addSb) (ino : SimplefsInode)
    (hmgmt : H .inodesMgmt = false) (hsb : H .sb = false) (hdir : H .directoryChildrenUpdate = true) :
    Keeps (policy intr loose) (simplefsInodeAdd P ino) H := by
  refine lockSafe_takeInodes rfl hmgmt hsb (keeps_pure _) ?_
  refine LockSafe.bind (keeps_sbBreadOrBug P _) fun _ => ?_
  have hsb' : (H.add Mutex.inodesMgmt) .sb = false := by simpa [LockSet.add] using hsb
  have hdir' : (H.add Mutex.inodesMgmt) .directoryChildrenUpdate = true := by
    simpa [LockSet.add] using hdir
  refine lockSafe_takeSb rfl hsb' (.inl hdir') (fun _ => ⟨rfl, hdir', LockSet.add_self _⟩)
    (fun h => absurd h hadd) ?_
  refine LockSafe.bind (keeps_update _) fun _ => LockSafe.bind keeps_readMem fun m => ?_
  refine LockSafe.bind (keeps_inBlock _ _ _) fun _ => LockSafe.bind (keeps_updateVol _) fun _ => ?_
  refine LockSafe.bind keeps_readMem fun m => LockSafe.bind (keeps_updateVol _) fun _ => ?_
  refine LockSafe.bind (keeps_updateVol _) fun _ => LockSafe.bind (keeps_simplefsSbSync P) fun _ => ?_
  refine LockSafe.bind (keeps_update _) fun _ => LockSafe.bind (keeps_update _) fun _ => ?_
  refine lockSafe_unlock (.inr (LockSet.add_self _)) (LockSet.remove_self _) ?_
  rw [LockSet.remove_add hsb']
  have hback := LockSet.remove_add hmgmt
  exact lockSafe_unlock_ret (.inr (LockSet.add_self _)) (by rw [hback]; exact hsb) hback.symm

/-! ## Whole calls -/

/-- What `simplefs_create_fs_object` holds throughout. -/
def dirHeld : LockSet Mutex := LockSet.empty.add .directoryChildrenUpdate

theorem dirHeld_remove : dirHeld.remove .directoryChildrenUpdate = LockSet.empty :=
  LockSet.remove_add rfl

/-- The last thing it does with its mutexes. -/
theorem lockSafe_unlockDir {α : Type} (a : α) : LockSafe (policy intr loose)
    (mutexUnlock .directoryChildrenUpdate >>= fun _ => pure a) dirHeld fun _ => .empty :=
  lockSafe_unlock_ret (.inr rfl) rfl dirHeld_remove.symm

theorem lockSafe_linkChild (dir : Path) (dentry : Name) (sfsInode : SimplefsInode) (inode : Inode) :
    LockSafe (policy intr loose) (linkChild P dir dentry sfsInode inode) dirHeld
      fun _ => .empty := by
  refine LockSafe.bind (keeps_simplefsInode _) fun par => ?_
  refine LockSafe.bind (keeps_sbBreadOrBug P _) fun _ => ?_
  refine LockSafe.bind (keeps_simplefsInode _) fun par' => LockSafe.bind (keeps_inBlock _ _ _) fun _ => ?_
  refine LockSafe.bind (keeps_updateVol _) fun _ => LockSafe.bind (keeps_updateVol _) fun _ => ?_
  refine LockSafe.bind (keeps_updateVol _) fun _ => LockSafe.bind (keeps_updateVol _) fun _ => ?_
  refine LockSafe.bind (keeps_update _) fun _ => ?_
  refine lockSafe_takeInodes rfl rfl rfl (lockSafe_unlockDir _) ?_
  refine LockSafe.bind (keeps_updateVol _) fun _ => ?_
  refine LockSafe.bind (keeps_simplefsInodeSave P _ rfl rfl) fun r => ?_
  have hback : (dirHeld.add .inodesMgmt).remove .inodesMgmt = dirHeld := LockSet.remove_add rfl
  cases r with
  | error e =>
      refine lockSafe_unlock (.inr rfl) rfl ?_
      rw [hback]
      exact lockSafe_unlockDir _
  | ok u =>
      refine lockSafe_unlock (.inr rfl) rfl ?_
      rw [hback]
      refine lockSafe_unlock (.inr rfl) rfl ?_
      rw [dirHeld_remove]
      exact LockSafe.bind (keeps_updateVol _) fun _ => keeps_pure _

theorem keeps_simplefsCreateFsObject (hfree : intr .freeblock → loose .sb) (hadd : ¬ intr .addSb)
    (dir : Path) (dentry : Name) (mode : U32) :
    Keeps (policy intr loose) (simplefsCreateFsObject P dir dentry mode) .empty := by
  refine lockSafe_takeFirst nofun nofun (keeps_pure _) ?_
  refine LockSafe.bind (R := fun _ => dirHeld)
    (keeps_simplefsSbGetObjectsCount rfl rfl) fun r => ?_
  cases r with
  | error e => exact lockSafe_unlockDir _
  | ok count =>
      show LockSafe _ (if _ then _ else _) _ _
      split
      · exact lockSafe_unlockDir _
      split
      · exact lockSafe_unlockDir _
      refine LockSafe.bind (keeps_ask _) fun ok => ?_
      split
      · exact lockSafe_unlockDir _
      refine LockSafe.bind (keeps_ask _) fun slab => ?_
      refine LockSafe.bind (keeps_simplefsSbGetAFreeblock P hfree rfl rfl) fun r => ?_
      cases r with
      | error e => exact lockSafe_unlockDir _
      | ok out =>
          refine LockSafe.bind (keeps_simplefsInodeAdd P hadd _ rfl rfl rfl) fun _ => ?_
          exact lockSafe_linkChild P _ _ _ _

theorem keeps_simplefsWrite (p : Path) (buf : Buf) (len ppos : U64) :
    Keeps (policy intr loose) (simplefsWrite P p buf len ppos) .empty := by
  refine keeps_bind (keeps_simplefsInode _) fun ino => keeps_bind (keeps_sbBread P _) fun bh => ?_
  refine keeps_ite (keeps_pure _) (keeps_bind (keeps_ask _) fun copied => ?_)
  refine keeps_bind (keeps_copyFromUser _ _ _ _ _) fun _ => ?_
  refine keeps_ite (keeps_bind (keeps_update _) fun _ => keeps_pure _) ?_
  refine keeps_bind (keeps_updateVol _) fun _ => keeps_bind (keeps_updateVol _) fun _ => ?_
  refine keeps_bind (keeps_update _) fun _ => ?_
  refine lockSafe_takeFirst nofun nofun (keeps_pure _) ?_
  refine LockSafe.bind (keeps_updateVol _) fun _ => ?_
  refine LockSafe.bind (keeps_simplefsInodeSave P _ rfl rfl) fun r => ?_
  refine lockSafe_unlock (.inr rfl) rfl ?_
  rw [show LockSet.remove (LockSet.empty.add Site.writeInodes.mutex) .inodesMgmt = .empty from
    LockSet.remove_add rfl]
  cases r with
  | error e => exact keeps_pure _
  | ok u => exact keeps_pure _

end Takes

theorem keeps_vfsDirectory {dir : Path} {k : Sfs Res} (hk : Keeps D k H) :
    Keeps D (vfsDirectory dir k) H := by
  refine keeps_bind keeps_readMem fun m => ?_
  cases m.dcache dir with
  | none => exact keeps_pure _
  | some d => exact keeps_ite hk (keeps_pure _)

theorem keeps_vfsCreate {dir : Path} {name : Name} {k : Sfs (Except Errno Unit)}
    (hk : Keeps D k H) : Keeps D (vfsCreate dir name k) H := by
  refine keeps_vfsDirectory (keeps_bind keeps_readMem fun m => ?_)
  cases m.dcache (name :: dir) with
  | some i => exact keeps_pure _
  | none => exact keeps_bind hk fun r => keeps_pure _

theorem keeps_vfsLookup (dir : Path) (name : Name) : Keeps D (vfsLookup P dir name) H := by
  refine keeps_vfsDirectory (keeps_bind keeps_readMem fun m => ?_)
  cases m.dcache (name :: dir) with
  | some i => exact keeps_pure _
  | none =>
      exact keeps_bind (keeps_simplefsLookup P _ _) fun _ =>
        keeps_bind keeps_readMem fun m => keeps_pure _

theorem keeps_vfsFile {file : Path} {k : Sfs Res} (hk : Keeps D k H) : Keeps D (vfsFile file k) H := by
  refine keeps_bind keeps_readMem fun m => ?_
  cases m.dcache file with
  | none => exact keeps_pure _
  | some i => exact keeps_ite hk (keeps_pure _)

/-- Every call is entered and left with no mutex held. -/
theorem keeps_callWith {intr : Site → Prop} {loose : Mutex → Prop}
    (hfree : intr .freeblock → loose .sb) (hadd : ¬ intr .addSb) (c : Call) :
    Keeps (policy intr loose) (c.prog P) .empty := by
  cases c with
  | create dir name mode => exact keeps_vfsCreate (keeps_simplefsCreateFsObject P hfree hadd _ _ _)
  | mkdir dir name mode => exact keeps_vfsCreate (keeps_simplefsCreateFsObject P hfree hadd _ _ _)
  | lookup dir name => exact keeps_vfsLookup P dir name
  | iterate dir ctx =>
      exact keeps_vfsDirectory (keeps_bind (keeps_simplefsIterate P _ _) fun r => keeps_pure _)
  | read file len pos =>
      exact keeps_vfsFile (keeps_bind (keeps_simplefsRead P _ _ _) fun r => keeps_pure _)
  | write file buf len pos =>
      exact keeps_vfsFile (keeps_bind (keeps_simplefsWrite P _ _ _ _) fun r => keeps_pure _)
  | remount =>
      exact keeps_bind (keeps_ask _) fun _ => keeps_bind (keeps_updateVol _) fun _ =>
        keeps_bind (keeps_simplefsFillSuper P) fun _ => keeps_pure _

theorem keeps_call (c : Call) : Keeps safePolicy (c.prog P) .empty :=
  keeps_callWith P (fun h => absurd rfl h.1) (fun h => h.2 rfl) c

end Functions

/-! ## Calls that run alone -/

/-- A run of calls with no interrupted wait at the two places returns from every
call or faults: it does not hang. -/
theorem outcome_not_hung {P : Platform} {A : Vol → Step → Prop}
    (hA : ∀ v s, A v s → ∀ i, s.1.interrupted i = true → SafeWait i) {steps : List Step}
    {m : Machine} (hfree : ∀ x, m.owner x = none) (h : Issues P A steps m) :
    (outcome P steps m).Meets (fun _ m' => ∀ x, m'.owner x = none) (fun _ => False)
      (fun _ _ => True) := by
  refine (runs_inv (J := fun m => ∀ x, m.owner x = none) (I := fun _ => True)
    (fun _ _ => trivial) (fun m s hfree hs => ⟨fun _ _ => trivial, ?_⟩) steps m hfree h).2
  exact LockSafe.run (keeps_call P s.2) (hA _ s hs) hfree

/-! ## Threads -/

/-- The calls that take locks. -/
def Call.Locks : Call → Prop
  | .create .. | .mkdir .. | .write .. => True
  | _ => False

/-- No thread is about to unlock what it does not hold, none that is about to
return, or is between calls, holds anything, and there is no deadlock. -/
def LockDiscipline (c : Config Mem Mutex Site Fault Query.Answer Res) : Prop :=
  (∀ t x k, c.threads t = some (.unlock x k) → c.mach.owner x = some t) ∧
    (∀ t, c.threads t = none ∨ (∃ a, c.threads t = some (.ret a)) →
      ∀ x, c.mach.owner x ≠ some t) ∧
    ¬ c.Deadlock

section Runs

variable {P : Platform} {c : Config Mem Mutex Site Fault Query.Answer Res}

/-- With both other mutexes in hand, a thread finds `simplefs_sb_lock` free. -/
theorem sb_free_under_both {intr : Site → Prop} {loose : Mutex → Prop}
    (hdir : ¬ loose .directoryChildrenUpdate) (hmgmt : ¬ loose .inodesMgmt)
    (h : LockSafe.Disciplined (policy intr loose) c) {t : Nat}
    (hown : c.mach.owner .directoryChildrenUpdate = some t ∧ c.mach.owner .inodesMgmt = some t)
    {i : Site} {k : Bool → Sfs Res} (ht : c.threads t = some (.lock i .sb k)) :
    c.mach.owner .sb = none := by
  by_contra hheld
  obtain ⟨u, hu⟩ := Option.ne_none_iff_exists'.mp hheld
  -- whoever holds it holds another mutex, and thread `t` holds them all
  obtain ⟨H, hH, hnest⟩ := h.nested u
  obtain rfl : t = u := by
    rcases hnest (hH.only _ hu) with hd | hm
    · exact Option.some.inj (hown.1.symm.trans (hH.firm _ hdir hd))
    · exact Option.some.inj (hown.2.symm.trans (hH.firm _ hmgmt hm))
  exact absurd (h.order t i .sb k ht .sb hu) (Nat.lt_irrefl _)

theorem add_finds_sb_free {intr : Site → Prop} {loose : Mutex → Prop}
    (hdir : ¬ loose .directoryChildrenUpdate) (hmgmt : ¬ loose .inodesMgmt)
    (h : LockSafe.Disciplined (policy intr loose) c) {t : Nat} {x : Mutex} {k : Bool → Sfs Res}
    (ht : c.threads t = some (.lock .addSb x k)) : c.mach.owner x = none := by
  obtain ⟨H, hH, hwait⟩ := h.wait t .addSb x k ht
  obtain ⟨rfl, hd, hm⟩ := hwait rfl
  exact sb_free_under_both hdir hmgmt h ⟨hH.firm _ hdir hd, hH.firm _ hmgmt hm⟩ ht

/-- Threads that run calls keep to the policy. -/
theorem disciplined {intr : Site → Prop} {loose : Mutex → Prop}
    (hfree : intr .freeblock → loose .sb) (hadd : ¬ intr .addSb) {calls : Call → Prop}
    (hc : Config.Reach (Call.prog P) calls intr (fun m => ∀ x, m.owner x = none) c) :
    LockSafe.Disciplined (policy intr loose) c :=
  LockSafe.reach (D := policy intr loose) (fun call _ => keeps_callWith P hfree hadd call)
    (fun _ hm => hm) nofun hc

/-- Any number of threads, any calls, any interleaving, any interrupted waits, and any
memory to start with: the second wait of `simplefs_inode_add` finds its mutex free. -/
theorem add_never_waits_for_sb {calls : Call → Prop}
    (hc : Config.Reach (Call.prog P) calls (fun _ => True) (fun m => ∀ x, m.owner x = none) c)
    {t : Nat} {x : Mutex} {k : Bool → Sfs Res} (ht : c.threads t = some (.lock .addSb x k)) :
    c.mach.owner x = none := by
  -- `simplefs_sb_lock` may be taken from its holder, the others may not
  have hkept : ∀ c, Config.Reach (Call.prog P) calls (· ≠ .addSb) (fun m => ∀ x, m.owner x = none) c →
      LockSafe.Disciplined (policy (· ≠ .addSb) (· = .sb)) c := fun c hc =>
    disciplined (fun _ => rfl) (fun h => h rfl) hc
  refine add_finds_sb_free nofun nofun (hkept c (hc.narrow fun c t i x k hc ht _ hi => ?_)) ht
  obtain rfl := not_not.mp hi
  exact add_finds_sb_free nofun nofun (hkept c hc) ht

/-- Any number of threads, any sequence of calls, any interleaving, and any memory
to start with: the discipline holds as long as the wait in `simplefs_sb_get_a_freeblock`
is not interrupted. -/
theorem lock_discipline_of_freeblock_waits (P : Platform)
    {c : Config Mem Mutex Site Fault Query.Answer Res}
    (hc : Config.Reach (Call.prog P) Call.Locks (· ≠ .freeblock) (fun m => ∀ x, m.owner x = none) c) :
    LockDiscipline c := by
  have hsafe : ∀ c, Config.Reach (Call.prog P) Call.Locks SafeWait (fun m => ∀ x, m.owner x = none) c →
      LockSafe.Disciplined safePolicy c := fun c hc =>
    disciplined (fun h => absurd rfl h.1) (fun h => h.2 rfl) hc
  have h : LockSafe.Disciplined safePolicy c := by
    refine hsafe c (hc.narrow fun c t i x k hc ht hi hunsafe => ?_)
    obtain rfl : i = .addSb := by
      by_contra hne
      exact hunsafe ⟨hi, hne⟩
    exact add_finds_sb_free nofun nofun (hsafe c hc) ht
  refine ⟨?_, h.idle, h.not_deadlock 3 fun x => by cases x <;> decide⟩
  intro t x k ht
  exact (h.unlock t x k ht).resolve_left id

end Runs

/-- A device of 16 blocks. -/
def demoPlatform : Platform := ⟨16, fun _ => 0⟩

/-- The name of one letter. -/
def letterName (c : Byte) (h0 : c ≠ 0) (hs : c ≠ 0x2F) : Name :=
  ⟨[c], by simp, by simp, by simpa using Ne.symm h0, by simpa using Ne.symm hs⟩

def nameA : Name := letterName 0x61 (by decide) (by decide)
def nameF : Name := letterName 0x66 (by decide) (by decide)
def nameG : Name := letterName 0x67 (by decide) (by decide)

/-- A machine with block 4 marked free and all other bytes zero, with the root
directory and a file `f` in memory. -/
def demoMachine : Machine :=
  machineOf { Vol.ofImage (fun b => if b = 0 then setFreeBlocks (fun _ => 0) 16 else fun _ => 0) with
    dcache := fun p =>
      if p = [] then some ⟨1, sIfdir, some .dir, some ⟨sIfdir, 0, 1, 2, 0⟩⟩
      else if p = [nameF] then some ⟨2, sIfreg, some .file, some ⟨sIfreg, 0, 2, 3, 0⟩⟩
      else none }

/-- Thread 0 creates `a`, up to the wait in `simplefs_sb_get_a_freeblock`. -/
def createToFreeblock : List (Event Call Query.Answer) :=
  .start 0 (.create [] nameA sIfreg) :: List.replicate 6 (.step 0) ++
    [.answer 0 calm.answer, .answer 0 calm.answer]

/-- Thread 1 writes to `f`, up to where `simplefs_inode_save` has both locks. -/
def writeToSave : List (Event Call Query.Answer) :=
  .start 1 (.write [nameF] (fun _ => 0) 1 0) :: List.replicate 3 (.step 1) ++
    .answer 1 calm.answer :: List.replicate 8 (.step 1)

/-- Thread 0 goes on to where `simplefs_inode_add` has `simplefs_inodes_mgmt_lock`, and
thread 1 comes to write to `f` and has to wait for that mutex. -/
def writeWaits : List (Event Call Query.Answer) :=
  createToFreeblock ++ List.replicate 11 (.step 0) ++
    .start 1 (.write [nameF] (fun _ => 0) 1 0) :: List.replicate 3 (.step 1) ++
    .answer 1 calm.answer :: List.replicate 4 (.step 1)

-- the schedules are evaluated
attribute [local semireducible] getWord

/-- The wait of the writer is interrupted, while the create is in the middle. -/
theorem lock_discipline_write_interrupted :
    ∃ c, Config.Reach (Call.prog demoPlatform) Call.Locks (· ≠ .freeblock)
        (fun m => ∀ x, m.owner x = none) c ∧
      c.threads 1 = some (.ret (.count (.error .eintr) 1)) ∧
      c.mach.owner .directoryChildrenUpdate = some 0 ∧ c.mach.owner .inodesMgmt = some 0 ∧
      LockDiscipline c := by
  have hcalls : ∀ t call, Event.start t call ∈ writeWaits → call.Locks := by
    intro t call h
    simp only [writeWaits, createToFreeblock, List.replicate, List.cons_append, List.nil_append,
      List.mem_cons, Event.start.injEq, reduceCtorEq, List.not_mem_nil, false_or, or_false] at h
    rcases h with ⟨_, rfl⟩ | ⟨_, rfl⟩ <;> trivial
  obtain ⟨c, hexec, k, hwaits, hdir, hmgmt, hback⟩ : ∃ c, Config.exec (Call.prog demoPlatform)
      writeWaits ⟨fun _ => none, demoMachine⟩ = some c ∧
      ∃ k, c.threads 1 = some (.lock .writeInodes .inodesMgmt k) ∧
        c.mach.owner .directoryChildrenUpdate = some 0 ∧ c.mach.owner .inodesMgmt = some 0 ∧
        k true = .ret (.count (.error .eintr) 1) :=
    ⟨_, rfl, _, rfl, rfl, rfl, rfl⟩
  have hnext : c.next (Call.prog demoPlatform) (.interrupt 1) = some (c.goto 1 (some (k true)) c.mach) := by
    simp [Config.next, hwaits, hmgmt]
  have hpermits : c.Permits Call.Locks (· ≠ .freeblock) (.interrupt 1 : Event Call Query.Answer) := by
    intro i x k' hk'
    cases hwaits.symm.trans hk'
    decide
  have hreach : Config.Reach (Call.prog demoPlatform) Call.Locks (· ≠ .freeblock)
      (fun m => ∀ x, m.owner x = none) (c.goto 1 (some (k true)) c.mach) :=
    .step _ (.exec_quiet writeWaits hcalls (by simp [writeWaits, createToFreeblock])
      (.init fun _ => rfl) hexec) hpermits hnext
  refine ⟨_, hreach, ?_, hdir, hmgmt, lock_discipline_of_freeblock_waits demoPlatform hreach⟩
  rw [Config.goto_self, hback]

/-- A create unlocks the mutex that a writer holds. -/
theorem lock_discipline_broken :
    ∃ c, Config.Reach (Call.prog demoPlatform) Call.Locks (fun _ => True)
        (fun m => ∀ x, m.owner x = none) c ∧
      ∃ k, c.threads 0 = some (.unlock .sb k) ∧ c.mach.owner .sb = some 1 := by
  refine ⟨_, .exec (createToFreeblock ++ writeToSave ++ [.interrupt 0]) ?_
    (.init (m := demoMachine) fun _ => rfl) rfl, _, rfl, rfl⟩
  intro t call h
  simp only [createToFreeblock, writeToSave, List.replicate, List.cons_append, List.nil_append,
    List.mem_cons, Event.start.injEq, reduceCtorEq, List.not_mem_nil, false_or, or_false] at h
  rcases h with ⟨_, rfl⟩ | ⟨_, rfl⟩ <;> trivial

end Lkm.Simplefs
