import Lkm.Simplefs.Logic.Calls
import Lkm.Simplefs.Logic.Loops

/-!
# The exact outcome of a call that runs alone

`vwp` says what holds on every path that a call may take. For statements of the form
"exactly when" the path itself counts: which waits were interrupted and which were
not. `xwp w p Q v refs` says of the code `p`, started on volume `v` with the buffer
references `refs` in the world `w`: if `p` returns `a`, with volume `v'` and
references `refs'`, then `Q a v' refs'`. A wait is interrupted if and only if `w`
says so; code that hangs or faults meets every `Q`.

After the rules for the kernel primitives there is one theorem for each function, as
in `Logic.Specs`, with the same scripts.
-/

namespace Lkm.Simplefs

open Base

/-- Outstanding references to each block's buffer. -/
abbrev Refs := Nat → Int

namespace Refs

/-- After a successful `sb_bread`. -/
def get (refs : Refs) (b : Nat) : Refs := Function.update refs b (refs b + 1)

/-- After `brelse`. -/
def put (refs : Refs) (b : Nat) : Refs := Function.update refs b (refs b - 1)

@[simp] theorem put_get (refs : Refs) (b : Nat) : put (get refs b) b = refs := by
  funext c
  by_cases hc : c = b
  · subst hc
    simp [put, get]
  · simp [put, get, hc]

end Refs

/-- If the code returns, its result satisfies `Q`. Irreducible, as `vwp` is. -/
@[irreducible] def xwp (w : Outside) {α : Type} (p : Sfs α) (Q : α → Vol → Refs → Prop) (v : Vol)
    (refs : Refs) : Prop :=
  ∀ m : Machine, m.mem.toVol = v → m.mem.refs = refs →
    (p.run w 0 m).Meets (fun a m' => Q a m'.mem.toVol m'.mem.refs) (fun _ => True) (fun _ _ => True)

section Rules

variable {w : Outside} {α β : Type} {v : Vol} {refs : Refs}

theorem xwp_ret {Q : α → Vol → Refs → Prop} {a : α} (h : Q a v refs) : xwp w (.ret a) Q v refs := by
  unfold xwp
  rintro m rfl rfl
  exact h

theorem xwp_pure {Q : α → Vol → Refs → Prop} {a : α} (h : Q a v refs) : xwp w (pure a) Q v refs :=
  xwp_ret h

theorem xwp_bind {Q : β → Vol → Refs → Prop} {p : Sfs α} {f : α → Sfs β}
    (h : xwp w p (fun a v' refs' => xwp w (f a) Q v' refs') v refs) : xwp w (p >>= f) Q v refs := by
  unfold xwp at h ⊢
  intro m hv hrefs
  rw [Prog.run_bind]
  have hp := h m hv hrefs
  cases hrun : p.run w 0 m with
  | done a m' =>
      rw [hrun] at hp
      exact hp m' rfl rfl
  | hung m' => trivial
  | fault e m' => trivial

theorem xwp_mono {Q Q' : α → Vol → Refs → Prop} {p : Sfs α} (hQ : ∀ a v' r, Q a v' r → Q' a v' r)
    (h : xwp w p Q v refs) : xwp w p Q' v refs := by
  unfold xwp at h ⊢
  intro m hv hrefs
  exact (h m hv hrefs).mono (fun a m' ha => hQ a _ _ ha) (fun _ h => h) (fun _ _ h => h)

/-- What the logic says about a call that has returned. -/
theorem xwp_done {Q : α → Vol → Refs → Prop} {p : Sfs α} {m m' : Machine} {a : α}
    (h : xwp w p Q m.mem.toVol m.mem.refs) (hrun : p.run w 0 m = .done a m') :
    Q a m'.mem.toVol m'.mem.refs := by
  unfold xwp at h
  have := h m rfl rfl
  rwa [hrun] at this

theorem xwp_readMem {Q : Mem → Vol → Refs → Prop} (h : ∀ m : Mem, m.toVol = v → Q m v refs) :
    xwp w readMem Q v refs := by
  unfold xwp
  rintro m rfl rfl
  exact h m.mem rfl

theorem xwp_updateVol {Q : Unit → Vol → Refs → Prop} {f : Vol → Vol} (h : Q () (f v) refs) :
    xwp w (updateVol f) Q v refs := by
  unfold xwp
  rintro m rfl rfl
  exact h

/-- An update of the ghost fields. -/
theorem xwp_ghost {Q : Unit → Vol → Refs → Prop} {f : Mem → Mem} (hv : ∀ m, (f m).toVol = m.toVol)
    (hrefs : ∀ m, (f m).refs = m.refs) (h : Q () v refs) : xwp w (update f) Q v refs := by
  unfold xwp
  rintro m rfl rfl
  show Q () (f m.mem).toVol (f m.mem).refs
  rwa [hv, hrefs]

theorem xwp_brelse {Q : Unit → Vol → Refs → Prop} {b : Nat} (h : Q () v (Refs.put refs b)) :
    xwp w (update (·.brelse b)) Q v refs := by
  unfold xwp
  rintro m rfl rfl
  exact h

theorem xwp_stop {Q : α → Vol → Refs → Prop} {e : Fault} : xwp w (stop e) Q v refs := by
  unfold xwp
  intro m _ _
  trivial

theorem xwp_ask {q : Query} {Q : q.Answer → Vol → Refs → Prop} (h : Q (w.answer q) v refs) :
    xwp w (ask q) Q v refs := by
  unfold xwp
  rintro m rfl rfl
  exact h

/-- A wait, and what the code does when it was interrupted. -/
theorem xwp_lockOr {Q : α → Vol → Refs → Prop} {i : Site} {p q : Sfs α}
    (hp : w.interrupted i = true → xwp w p Q v refs)
    (hq : w.interrupted i = false → xwp w q Q v refs) :
    xwp w (mutexLockInterruptible i >>= fun b => if b = true then p else q) Q v refs := by
  unfold xwp at hp hq ⊢
  rintro m rfl rfl
  simp only [mutexLockInterruptible, Prog.lock_bind, Prog.ret_bind, Prog.run]
  by_cases hi : w.interrupted i = true
  · rw [if_pos hi, if_pos trivial]
    exact hp hi m rfl rfl
  · rw [if_neg hi]
    by_cases hfree : m.owner i.mutex = none
    · rw [if_pos hfree]
      exact hq (by simpa using hi) _ rfl rfl
    · rw [if_neg hfree]
      trivial

theorem xwp_unlock {Q : Unit → Vol → Refs → Prop} {x : Mutex} (h : Q () v refs) :
    xwp w (mutexUnlock x) Q v refs := by
  unfold xwp
  rintro m rfl rfl
  exact h

theorem xwp_liftFault {Q : α → Vol → Refs → Prop} {x : Except Fault α}
    (h : ∀ a, x = .ok a → Q a v refs) : xwp w (liftFault x) Q v refs := by
  cases x with
  | ok a => exact xwp_pure (h a rfl)
  | error e => exact xwp_stop

theorem xwp_inBlock {Q : Unit → Vol → Refs → Prop} {b off len : Nat}
    (h : off + len ≤ simplefsDefaultBlockSize → Q () v refs) :
    xwp w (inBlock b off len) Q v refs := by
  unfold inBlock
  by_cases hin : off + len ≤ simplefsDefaultBlockSize
  · rw [if_pos hin]
    exact xwp_pure (h hin)
  · rw [if_neg hin]
    exact xwp_stop

theorem xwp_simplefsInode {Q : SimplefsInode → Vol → Refs → Prop} {p : Path}
    (h : ∀ i, v.priv p = some i → Q i v refs) : xwp w (simplefsInode p) Q v refs := by
  unfold simplefsInode
  apply xwp_bind
  apply xwp_readMem
  intro m hm
  rw [show m.priv p = v.priv p by rw [hm]]
  cases hp : v.priv p with
  | none => exact xwp_stop
  | some i => exact xwp_pure (h i hp)

theorem xwp_sbBread {P : Platform} {Q : Bool → Vol → Refs → Prop} {b : Nat}
    (hin : b < P.nrBlocks → Q true v (Refs.get refs b)) (hout : P.nrBlocks ≤ b → Q false v refs) :
    xwp w (sbBread P b) Q v refs := by
  unfold sbBread
  by_cases hb : b < P.nrBlocks
  · rw [if_pos hb]
    unfold xwp
    rintro m rfl rfl
    exact hin hb
  · rw [if_neg hb]
    exact xwp_pure (hout (by omega))

theorem xwp_sbBreadOrBug {P : Platform} {Q : Unit → Vol → Refs → Prop} {b : Nat}
    (h : b < P.nrBlocks → Q () v (Refs.get refs b)) : xwp w (sbBreadOrBug P b) Q v refs := by
  unfold sbBreadOrBug
  apply xwp_bind
  apply xwp_sbBread
  · intro hb
    exact xwp_pure (h hb)
  · intro hb
    exact xwp_stop

end Rules

section Specs

variable {P : Platform} {w : Outside} {v : Vol} {refs : Refs}

/-! ## The super block and the inode store -/

theorem xwp_simplefsSbSync {Q : Unit → Vol → Refs → Prop} (h : Q () (v.after (syncScript 0)) refs) :
    xwp w (simplefsSbSync P) Q v refs := by
  unfold simplefsSbSync
  apply xwp_bind
  apply xwp_sbBreadOrBug
  intro _
  apply xwp_bind
  apply xwp_updateVol
  apply xwp_bind
  apply xwp_updateVol
  apply xwp_brelse
  rw [Refs.put_get]
  exact h

/-- `simplefs_inode_add` returns early when one of its waits is interrupted; after the
first one it keeps the buffer of the inode store. -/
def addSkips (w : Outside) : Bool := w.interrupted .addInodes || w.interrupted .addSb

def AddKeeps (w : Outside) : Prop := w.interrupted .addInodes = false ∧ w.interrupted .addSb = true

instance (w : Outside) : Decidable (AddKeeps w) := inferInstanceAs (Decidable (_ ∧ _))

/-- The references after `simplefs_inode_add`. -/
def addRefs (w : Outside) (refs : Refs) : Refs := if AddKeeps w then Refs.get refs 1 else refs

theorem xwp_simplefsInodeAdd {Q : Unit → Vol → Refs → Prop} {ino : SimplefsInode}
    (h : Q () (v.added ino (addSkips w)) (addRefs w refs)) :
    xwp w (simplefsInodeAdd P ino) Q v refs := by
  unfold simplefsInodeAdd
  apply xwp_lockOr
  · intro hi
    simp only [addSkips, addRefs, AddKeeps, Vol.added, hi] at h
    exact xwp_pure h
  intro hinodes
  apply xwp_bind
  apply xwp_sbBreadOrBug
  intro _
  apply xwp_lockOr
  · intro hi
    simp only [addSkips, addRefs, AddKeeps, Vol.added, hinodes, hi] at h
    exact xwp_pure h
  intro hsb
  simp only [addSkips, addRefs, AddKeeps, Vol.added, hinodes, hsb] at h
  apply xwp_bind
  apply xwp_ghost Mem.beginAppend_toVol (fun _ => rfl)
  apply xwp_bind
  apply xwp_readMem
  intro m hm
  rw [show inodesCount (m.cache simplefsSuperblockBlockNumber) = v.cache.count by rw [hm]; rfl]
  apply xwp_bind
  apply xwp_inBlock
  intro _
  apply xwp_bind
  apply xwp_updateVol
  apply xwp_bind
  apply xwp_readMem
  intro m hm
  rw [show inodesCount (m.cache simplefsSuperblockBlockNumber) = v.cache.count by rw [hm]; rfl]
  apply xwp_bind
  apply xwp_updateVol
  apply xwp_bind
  apply xwp_updateVol
  apply xwp_bind
  apply xwp_simplefsSbSync
  apply xwp_bind
  apply xwp_brelse
  apply xwp_bind
  apply xwp_ghost Mem.endAppend_toVol (fun _ => rfl)
  apply xwp_bind
  apply xwp_unlock
  apply xwp_unlock
  rw [show Refs.put (Refs.get refs simplefsInodestoreBlockNumber) simplefsInodestoreBlockNumber = refs
    from Refs.put_get refs _]
  exact h

theorem xwp_simplefsSbGetAFreeblock {Q : Except Errno U64 → Vol → Refs → Prop}
    (hintr : w.interrupted .freeblock = true → Q (.error .eintr) v refs)
    (hfull : w.interrupted .freeblock = false →
      v.freeIndex P = simplefsMaxFilesystemObjectsSupported → Q (.error .enospc) v refs)
    (hfound : w.interrupted .freeblock = false →
      v.freeIndex P ≠ simplefsMaxFilesystemObjectsSupported →
      Q (.ok (BitVec.ofNat 64 (v.freeIndex P))) (v.after (takeScript P v)) refs) :
    xwp w (simplefsSbGetAFreeblock P) Q v refs := by
  unfold simplefsSbGetAFreeblock
  apply xwp_lockOr
  · intro hi
    apply xwp_bind
    apply xwp_unlock
    exact xwp_pure (hintr hi)
  intro hw
  apply xwp_bind
  apply xwp_readMem
  intro m hm
  rw [show freeBlocks (m.cache simplefsSuperblockBlockNumber) = v.cache.free by rw [hm]; rfl]
  show xwp w (if v.freeIndex P = _ then _ else _) Q v refs
  by_cases hi : v.freeIndex P = simplefsMaxFilesystemObjectsSupported
  · rw [if_pos hi]
    apply xwp_bind
    apply xwp_unlock
    exact xwp_pure (hfull hw hi)
  · rw [if_neg hi]
    apply xwp_bind
    apply xwp_readMem
    intro m hm
    rw [show freeBlocks (m.cache simplefsSuperblockBlockNumber) = v.cache.free by rw [hm]; rfl]
    apply xwp_bind
    apply xwp_updateVol
    apply xwp_bind
    apply xwp_simplefsSbSync
    apply xwp_bind
    apply xwp_unlock
    exact xwp_pure (hfound hw hi)

theorem xwp_simplefsSbGetObjectsCount {Q : Except Errno U64 → Vol → Refs → Prop}
    (hintr : w.interrupted .objectsCount = true → Q (.error .eintr) v refs)
    (h : w.interrupted .objectsCount = false → Q (.ok v.cache.count) v refs) :
    xwp w simplefsSbGetObjectsCount Q v refs := by
  unfold simplefsSbGetObjectsCount
  apply xwp_lockOr
  · intro hi
    exact xwp_pure (hintr hi)
  intro hw
  apply xwp_bind
  apply xwp_readMem
  intro m hm
  rw [show inodesCount (m.cache simplefsSuperblockBlockNumber) = v.cache.count by rw [hm]; rfl]
  apply xwp_bind
  apply xwp_unlock
  exact xwp_pure (h hw)

/-- What makes `simplefs_inode_save` return an error: its wait is interrupted, or none of the
slots that it looks at has the number of the inode. -/
def SaveFails (w : Outside) (v : Vol) (p : Path) : Prop :=
  w.interrupted .saveSb = true ∨ ∀ ino, v.priv p = some ino →
    ∀ k, k ≤ v.cache.count.toNat → (v.cache.slot k).inodeNo ≠ ino.inodeNo

instance (w : Outside) (v : Vol) (p : Path) : Decidable (SaveFails w v p) :=
  inferInstanceAs (Decidable (_ ∨ ∀ ino ∈ v.priv p, ∀ k, k ≤ _ → _))

/-- The exits of `simplefs_inode_save`: the two that return an error keep the buffer
of the inode store. -/
theorem xwp_simplefsInodeSave {Q : Except Errno Unit → Vol → Refs → Prop} {p : Path}
    (hfails : SaveFails w v p → ∀ e, Q (.error e) v (Refs.get refs 1))
    (hfound : ¬ SaveFails w v p → ∀ ino k, v.priv p = some ino →
      v.search ino.inodeNo = .ok (some k) → Q (.ok ()) (v.after (saveScript k ino)) refs) :
    xwp w (simplefsInodeSave P p) Q v refs := by
  unfold simplefsInodeSave
  apply xwp_bind
  apply xwp_sbBreadOrBug
  intro _
  apply xwp_lockOr
  · intro hi
    exact xwp_pure (hfails (.inl hi) _)
  intro hw
  apply xwp_bind
  apply xwp_simplefsInode
  intro ino hino
  apply xwp_bind
  apply xwp_readMem
  intro m hm
  rw [show simplefsInodeSearch (m.cache simplefsSuperblockBlockNumber)
      (m.cache simplefsInodestoreBlockNumber) ino.inodeNo = v.search ino.inodeNo by rw [hm]; rfl]
  apply xwp_bind
  apply xwp_liftFault
  intro r hr
  cases r with
  | none =>
      have hmissing : SaveFails w v p := by
        right
        intro ino' hino'
        cases hino.symm.trans hino'
        exact Vol.search_none hr
      apply xwp_bind
      apply xwp_unlock
      exact xwp_pure (hfails hmissing _)
  | some k =>
      have hthere : ¬ SaveFails w v p := by
        rintro (hi | hmissing)
        · cases hw.symm.trans hi
        · obtain ⟨hk, hno, -⟩ := Vol.search_some hr
          exact hmissing ino hino k hk hno
      apply xwp_bind
      apply xwp_simplefsInode
      intro ino' hino'
      obtain rfl : ino = ino' := Option.some.inj (hino.symm.trans hino')
      apply xwp_bind
      apply xwp_updateVol
      apply xwp_bind
      apply xwp_updateVol
      apply xwp_bind
      apply xwp_updateVol
      apply xwp_bind
      apply xwp_brelse
      apply xwp_bind
      apply xwp_unlock
      rw [show Refs.put (Refs.get refs simplefsInodestoreBlockNumber) simplefsInodestoreBlockNumber =
        refs from Refs.put_get refs _]
      exact xwp_pure (hfound hthere ino k hino hr)

/-! ## Creating -/

/-- The exits of `linkChild`: once the record is written, the wait for the inode store
may be interrupted, the parent's inode may not be saved, or all goes well; then the inode
store is the only block that has changed since. -/
structure LinkExits (w : Outside) (dir : Path) (dentry : Name) (no : U64)
    (Q : Except Errno Unit → Vol → Refs → Prop) (v : Vol) (refs : Refs) : Prop where
  interrupted : ∀ par v₁, v.priv dir = some par → par.dirChildrenCount.toNat < 16 →
    v₁ = v.after (recordScript par.dataBlockNumber.toNat par.dirChildrenCount.toNat no
      dentry.bytes) →
    w.interrupted .createInodes = true → Q (.error .eintr) v₁ refs
  unsaved : ∀ par v₁ e, v.priv dir = some par → par.dirChildrenCount.toNat < 16 →
    v₁ = v.after (recordScript par.dataBlockNumber.toNat par.dirChildrenCount.toNat no
      dentry.bytes) →
    w.interrupted .createInodes = false → SaveFails w (v₁.bumpChildren dir) dir →
    Q (.error e) (v₁.bumpChildren dir) (Refs.get refs 1)
  linked : ∀ par v₁ v', v.priv dir = some par → par.dirChildrenCount.toNat < 16 →
    v₁ = v.after (recordScript par.dataBlockNumber.toNat par.dirChildrenCount.toNat no
      dentry.bytes) →
    w.interrupted .createInodes = false → ¬ SaveFails w (v₁.bumpChildren dir) dir →
    (∀ b, b ≠ 1 → v'.cache b = v₁.cache b) → Q (.ok ()) v' refs

theorem xwp_linkChild {Q : Except Errno Unit → Vol → Refs → Prop} {dir : Path} {dentry : Name}
    {sfsInode : SimplefsInode} {inode : Inode}
    (h : LinkExits w dir dentry sfsInode.inodeNo Q v refs) :
    xwp w (linkChild P dir dentry sfsInode inode) Q v refs := by
  unfold linkChild
  apply xwp_bind
  apply xwp_simplefsInode
  intro par hpar
  apply xwp_bind
  apply xwp_sbBreadOrBug
  intro _
  apply xwp_bind
  apply xwp_simplefsInode
  intro par' hpar'
  obtain rfl : par = par' := Option.some.inj (hpar.symm.trans hpar')
  apply xwp_bind
  apply xwp_inBlock
  intro hin
  have hk : par.dirChildrenCount.toNat < 16 := by
    unfold sizeofDirRecord simplefsDefaultBlockSize at hin
    omega
  apply xwp_bind
  apply xwp_updateVol
  apply xwp_bind
  apply xwp_updateVol
  apply xwp_bind
  apply xwp_updateVol
  apply xwp_bind
  apply xwp_updateVol
  apply xwp_bind
  apply xwp_brelse
  rw [Refs.put_get]
  apply xwp_lockOr
  · intro hi
    apply xwp_bind
    apply xwp_unlock
    exact xwp_pure (h.interrupted par _ hpar hk rfl hi)
  intro hw
  have hexit : ∀ e v' refs', Q (.error e) v' refs' → xwp w (do
      mutexUnlock .inodesMgmt
      mutexUnlock .directoryChildrenUpdate
      return .error e) Q v' refs' := by
    intro e v' refs' hQ
    apply xwp_bind
    apply xwp_unlock
    apply xwp_bind
    apply xwp_unlock
    exact xwp_pure hQ
  apply xwp_bind
  apply xwp_updateVol
  apply xwp_bind
  apply xwp_simplefsInodeSave
  · intro hfails e
    exact hexit _ _ _ (h.unsaved par _ e hpar hk rfl hw hfails)
  · intro hsaves ino k _ _
    apply xwp_bind
    apply xwp_unlock
    apply xwp_bind
    apply xwp_unlock
    apply xwp_bind
    apply xwp_updateVol
    have hcache : ∀ (u : Vol) b, b ≠ 1 → (u.after (saveScript k ino)).cache b = u.cache b :=
      fun u b hb => Vol.modify_cache_ne u (putInode · k ino) hb
    exact xwp_pure (h.linked par _ _ hpar hk rfl hw hsaves
      fun b hb => hcache (Vol.bumpChildren _ dir) b hb)

/-- `simplefs_create_fs_object` gets as far as taking a block. -/
structure Allocates (P : Platform) (w : Outside) (v : Vol) (mode : U32) : Prop where
  createDirectory : w.interrupted .createDirectory = false
  objectsCount : w.interrupted .objectsCount = false
  room : v.cache.count.toNat < 64
  kind : sIsdir mode = true ∨ sIsreg mode = true
  newInode : w.answer .newInode = true
  freeblock : w.interrupted .freeblock = false
  block : v.freeIndex P ≠ 64

/-- The error that it returns before that, if any. -/
def createError (P : Platform) (w : Outside) (v : Vol) (mode : U32) : Option Errno :=
  if w.interrupted .createDirectory then some .eintr
  else if w.interrupted .objectsCount then some .eintr
  else if 64 ≤ v.cache.count.toNat then some .enospc
  else if !sIsdir mode && !sIsreg mode then some .einval
  else if !w.answer .newInode then some .enomem
  else if w.interrupted .freeblock then some .eintr
  else if v.freeIndex P = 64 then some .enospc
  else none

theorem Allocates.createError_eq {mode : U32} (h : Allocates P w v mode) :
    createError P w v mode = none := by
  have hroom : ¬ 64 ≤ v.cache.count.toNat := Nat.not_le.mpr h.room
  have hkind : (!sIsdir mode && !sIsreg mode) = false := by
    rcases h.kind with hd | hr
    · simp [hd]
    · simp [hr]
  simp [createError, h.createDirectory, h.objectsCount, hroom, hkind, h.newInode, h.freeblock,
    h.block]

/-- The exits of `simplefs_create_fs_object`: before a block is taken nothing has
happened, and from there on it is for `linkChild` to return. -/
theorem xwp_simplefsCreateFsObject {Q : Except Errno Unit → Vol → Refs → Prop} {dir : Path}
    {dentry : Name} {mode : U32}
    (hearly : ∀ e, createError P w v mode = some e → Q (.error e) v refs)
    (hlink : ∀ ino v₁, Allocates P w v mode → ino = newInode P v mode (w.answer .slab) →
      v₁ = v.after (takeScript P v) →
      LinkExits w dir dentry ino.inodeNo Q (v₁.added ino (addSkips w)) (addRefs w refs)) :
    xwp w (simplefsCreateFsObject P dir dentry mode) Q v refs := by
  have hexit : ∀ e, createError P w v mode = some e → xwp w (do
      mutexUnlock .directoryChildrenUpdate
      return .error e) Q v refs := by
    intro e he
    apply xwp_bind
    apply xwp_unlock
    exact xwp_pure (hearly e he)
  unfold simplefsCreateFsObject
  apply xwp_lockOr
  · intro hi
    exact xwp_pure (hearly _ (by simp [createError, hi]))
  intro hdir
  apply xwp_bind
  apply xwp_simplefsSbGetObjectsCount
  · intro hi
    exact hexit _ (by simp [createError, hi])
  intro hcount
  show xwp w (if 64 ≤ v.cache.count.toNat then _ else _) Q v refs
  by_cases hfull : 64 ≤ v.cache.count.toNat
  · rw [if_pos hfull]
    exact hexit _ (by simp [createError, hdir, hcount, hfull])
  rw [if_neg hfull]
  by_cases hmode : (!sIsdir mode && !sIsreg mode) = true
  · rw [if_pos hmode]
    exact hexit _ (by simp only [createError, hdir, hcount, hfull, hmode, if_true, if_false,
      Bool.false_eq_true])
  rw [if_neg hmode]
  have hkind : sIsdir mode = true ∨ sIsreg mode = true := by
    cases hd : sIsdir mode <;> cases hr : sIsreg mode <;> simp_all
  apply xwp_bind
  apply xwp_ask
  by_cases hnew : w.answer .newInode = true
  swap
  · rw [if_pos (by simpa using hnew)]
    exact hexit _ (by simp only [createError, hdir, hcount, hfull, hmode, hnew, if_true, if_false,
      Bool.false_eq_true, Bool.not_false])
  rw [if_neg (by simp [hnew])]
  apply xwp_bind
  apply xwp_ask
  apply xwp_bind
  apply xwp_simplefsSbGetAFreeblock
  · intro hi
    exact hexit _ (by simp only [createError, hdir, hcount, hfull, hmode, hnew, hi, if_true,
      if_false, Bool.false_eq_true, Bool.not_true])
  · intro hfree hnone
    have hnone : v.freeIndex P = 64 := hnone
    exact hexit _ (by simp only [createError, hdir, hcount, hfull, hmode, hnew, hfree, hnone,
      if_true, if_false, Bool.false_eq_true, Bool.not_true])
  intro hfree hblock
  have halloc : Allocates P w v mode :=
    ⟨hdir, hcount, by omega, hkind, hnew, hfree, hblock⟩
  apply xwp_bind
  apply xwp_simplefsInodeAdd
  exact xwp_linkChild (hlink _ _ halloc rfl rfl)

/-- The VFS in front of a create, on a directory in memory without the name. -/
theorem xwp_vfsCreate {Q : Res → Vol → Refs → Prop} {dir : Path} {name : Name}
    {k : Sfs (Except Errno Unit)} {d : Inode} (hd : v.dcache dir = some d)
    (hdir : sIsdir d.iMode = true) (habsent : v.dcache (name :: dir) = none)
    (h : xwp w k (fun r v' refs' => Q (.status r) v' refs') v refs) :
    xwp w (vfsCreate dir name k) Q v refs := by
  unfold vfsCreate vfsDirectory
  apply xwp_bind
  apply xwp_readMem
  intro m hm
  rw [show m.dcache dir = some d by rw [← hd, ← hm]]
  show xwp w (if sIsdir d.iMode = true then _ else _) Q v refs
  rw [if_pos hdir]
  apply xwp_bind
  apply xwp_readMem
  intro m hm
  rw [show m.dcache (name :: dir) = none by rw [← habsent, ← hm]]
  apply xwp_bind
  apply xwp_mono _ h
  intro r v' refs' hr
  exact xwp_pure hr

/-! ## Looking up, listing, reading -/

theorem xwp_simplefsGetInode {Q : Option SimplefsInode → Vol → Refs → Prop} {no : U64}
    (h : ∀ r, v.getInode no = .ok r → Q r v refs) : xwp w (simplefsGetInode P no) Q v refs := by
  unfold simplefsGetInode
  apply xwp_bind
  apply xwp_sbBreadOrBug
  intro _
  apply xwp_bind
  apply xwp_readMem
  intro m hm
  rw [show getInodeFrom (m.cache simplefsInodestoreBlockNumber) no
      (inodesCount (m.cache simplefsSuperblockBlockNumber)).toNat 0 = v.getInode no by rw [hm]; rfl]
  apply xwp_bind
  apply xwp_liftFault
  intro r hr
  apply xwp_bind
  apply xwp_brelse
  rw [Refs.put_get]
  exact xwp_pure (h r hr)

/-- `simplefs_lookup` returns with the parent's buffer, whether it has found the name
or not. -/
theorem xwp_simplefsLookup {Q : Unit → Vol → Refs → Prop} {parent : Path} {name : Name}
    (habsent : ∀ par, v.priv parent = some par → v.findRecord par name = .ok none →
      Q () v (Refs.get refs par.dataBlockNumber.toNat))
    (hfound : ∀ par k ino, v.priv parent = some par → v.findRecord par name = .ok (some k) →
      v.getInode (asInt (v.cache.recordNo par k)) = .ok (some ino) →
      Q () (v.dAdd (name :: parent) (igetInode (v.cache.recordNo par k) ino))
        (Refs.get refs par.dataBlockNumber.toNat)) :
    xwp w (simplefsLookup P parent name) Q v refs := by
  unfold simplefsLookup
  apply xwp_bind
  apply xwp_simplefsInode
  intro par hpar
  apply xwp_bind
  apply xwp_sbBread
  swap
  · intro _
    exact xwp_stop
  intro _
  apply xwp_bind
  apply xwp_readMem
  intro m hm
  rw [show m.cache = v.cache by rw [hm]]
  apply xwp_bind
  apply xwp_liftFault
  intro r hr
  cases r with
  | none => exact xwp_pure (habsent par hpar hr)
  | some k =>
      apply xwp_bind
      unfold simplefsIget
      apply xwp_bind
      apply xwp_simplefsGetInode
      intro r hget
      cases r with
      | none => exact xwp_stop
      | some ino =>
          apply xwp_pure
          apply xwp_updateVol
          exact hfound par k ino hpar hr hget

theorem xwp_simplefsIterate {Q : Except Errno DirContext → Vol → Refs → Prop} {p : Path}
    {ctx : DirContext} (h : ∀ r, Q r v refs) : xwp w (simplefsIterate P p ctx) Q v refs := by
  unfold simplefsIterate
  split
  · exact xwp_pure (h _)
  apply xwp_bind
  apply xwp_simplefsInode
  intro ino _
  split
  · exact xwp_pure (h _)
  apply xwp_bind
  apply xwp_sbBreadOrBug
  intro _
  apply xwp_bind
  apply xwp_readMem
  intro m _
  apply xwp_bind
  apply xwp_liftFault
  intro r _
  apply xwp_bind
  apply xwp_brelse
  rw [Refs.put_get]
  exact xwp_pure (h _)

theorem xwp_simplefsRead {Q : Except Errno (List Byte) × U64 → Vol → Refs → Prop} {p : Path}
    {len ppos : U64} (h : ∀ r, Q r v refs) : xwp w (simplefsRead P p len ppos) Q v refs := by
  unfold simplefsRead
  apply xwp_bind
  apply xwp_simplefsInode
  intro ino _
  split
  · exact xwp_pure (h _)
  apply xwp_bind
  apply xwp_sbBread
  swap
  · intro _
    exact xwp_pure (h _)
  intro _
  have hexit : ∀ r, xwp w (do
      update (·.brelse ino.dataBlockNumber.toNat)
      return r) Q v (Refs.get refs ino.dataBlockNumber.toNat) := by
    intro r
    apply xwp_bind
    apply xwp_brelse
    rw [Refs.put_get]
    exact xwp_pure (h r)
  rw [if_neg (by decide)]
  dsimp only
  generalize asInt (if ino.fileSize ≤ len then ino.fileSize else len) = nbytes
  split
  · exact hexit _
  apply xwp_bind
  apply xwp_inBlock
  intro _
  apply xwp_bind
  apply xwp_readMem
  intro m _
  apply xwp_bind
  apply xwp_ask
  split
  · exact hexit _
  · exact hexit _

/-! ## Writing -/

/-- The exits of `simplefs_write` for the dentry `p`: the one that cannot save the inode
keeps the buffer of the inode store. -/
structure WriteExits (P : Platform) (w : Outside) (p : Path) (buf : Buf) (len ppos : U64)
    (Q : Except Errno U64 × U64 → Vol → Refs → Prop) (v : Vol) (refs : Refs) : Prop where
  noBuffer : ∀ ino, v.priv p = some ino → P.nrBlocks ≤ ino.dataBlockNumber.toNat →
    Q (.ok 0, ppos) v refs
  badAddress : ∀ ino v₁, v.priv p = some ino → ino.dataBlockNumber.toNat < P.nrBlocks →
    v₁ = v.copied ino.dataBlockNumber.toNat ppos.toNat buf len.toNat (w.answer .copyFromUser) →
    w.answer .copyFromUser < len.toNat → Q (.error .efault, ppos) v₁ refs
  interrupted : ∀ ino v₁, v.priv p = some ino → ino.dataBlockNumber.toNat < P.nrBlocks →
    v₁ = v.copied ino.dataBlockNumber.toNat ppos.toNat buf len.toNat (w.answer .copyFromUser) →
    len.toNat ≤ w.answer .copyFromUser → w.interrupted .writeInodes = true →
    Q (.error .eintr, ppos + len) (v₁.after (syncScript ino.dataBlockNumber.toNat)) refs
  unsaved : ∀ ino v₁ v₂ e, v.priv p = some ino → ino.dataBlockNumber.toNat < P.nrBlocks →
    v₁ = v.copied ino.dataBlockNumber.toNat ppos.toNat buf len.toNat (w.answer .copyFromUser) →
    v₂ = (v₁.after (syncScript ino.dataBlockNumber.toNat)).setSize p (ppos + len) →
    len.toNat ≤ w.answer .copyFromUser → w.interrupted .writeInodes = false → SaveFails w v₂ p →
    Q (.error e, ppos + len) v₂ (Refs.get refs 1)
  written : ∀ ino v₁ v₂ ino' k, v.priv p = some ino → ino.dataBlockNumber.toNat < P.nrBlocks →
    v₁ = v.copied ino.dataBlockNumber.toNat ppos.toNat buf len.toNat (w.answer .copyFromUser) →
    v₂ = (v₁.after (syncScript ino.dataBlockNumber.toNat)).setSize p (ppos + len) →
    len.toNat ≤ w.answer .copyFromUser → w.interrupted .writeInodes = false → ¬ SaveFails w v₂ p →
    v₂.priv p = some ino' → v₂.search ino'.inodeNo = .ok (some k) →
    Q (.ok len, ppos + len) (v₂.after (saveScript k ino')) refs

theorem xwp_copyFromUser {Q : Unit → Vol → Refs → Prop} {blk off : Nat} {buf : Buf}
    {len copied : Nat} (h : Q () (v.copied blk off buf len copied) refs) :
    xwp w (copyFromUser blk off buf len copied) Q v refs := by
  unfold copyFromUser
  unfold Vol.copied at h
  by_cases hlen : len = 0
  · rw [if_pos hlen] at h ⊢
    exact xwp_pure h
  · rw [if_neg hlen] at h ⊢
    apply xwp_bind
    apply xwp_inBlock
    intro _
    exact xwp_updateVol h

theorem xwp_simplefsWrite {Q : Except Errno U64 × U64 → Vol → Refs → Prop} {p : Path} {buf : Buf}
    {len ppos : U64} (h : WriteExits P w p buf len ppos Q v refs) :
    xwp w (simplefsWrite P p buf len ppos) Q v refs := by
  unfold simplefsWrite
  apply xwp_bind
  apply xwp_simplefsInode
  intro ino hino
  apply xwp_bind
  apply xwp_sbBread
  swap
  · intro hout
    exact xwp_pure (h.noBuffer ino hino hout)
  intro hin
  apply xwp_bind
  apply xwp_ask
  apply xwp_bind
  apply xwp_copyFromUser
  by_cases hfault : w.answer .copyFromUser < len.toNat
  · rw [if_pos hfault]
    apply xwp_bind
    apply xwp_brelse
    rw [Refs.put_get]
    exact xwp_pure (h.badAddress ino _ hino hin rfl hfault)
  rw [if_neg hfault]
  have hcopied : len.toNat ≤ w.answer .copyFromUser := Nat.le_of_not_lt hfault
  apply xwp_bind
  apply xwp_updateVol
  apply xwp_bind
  apply xwp_updateVol
  apply xwp_bind
  apply xwp_brelse
  rw [Refs.put_get]
  apply xwp_lockOr
  · intro hi
    exact xwp_pure (h.interrupted ino _ hino hin rfl hcopied hi)
  intro hw
  apply xwp_bind
  apply xwp_updateVol
  apply xwp_bind
  apply xwp_simplefsInodeSave
  · intro hfails e
    apply xwp_bind
    apply xwp_unlock
    exact xwp_pure (h.unsaved ino _ _ e hino hin rfl rfl hcopied hw hfails)
  · intro hsaves ino' k hino' hsearch
    apply xwp_bind
    apply xwp_unlock
    exact xwp_pure (h.written ino _ _ ino' k hino hin rfl rfl hcopied hw hsaves hino' hsearch)

end Specs

end Lkm.Simplefs
