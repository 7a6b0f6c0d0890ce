import Lkm.Base.Threads
import Lkm.Simplefs.Layout

/-!
# The state that the driver works on

The shared memory of the simplefs driver, as the kernel gives it to `simple.c`:

* **buffers** — `cache b` is `bh->b_data` of block `b`; the super block that
  `s_fs_info` points to is the cached block 0. `past b` are the versions the
  block had in the cache since it was last synced: after a crash the block is
  one of them, or the cached one;
* **dentry cache** — `dcache p` is the inode of the dentry with path `p`
  (components innermost first), with its private `struct simplefs_inode`;
* **bookkeeping** — `refs b` counts `sb_bread` against `brelse`. The ghost
  fields `appending` (inside the update of `simplefs_inode_add`) and `appends`
  (updates completed) are read by no code.

A buffer holds 4096 bytes. An access outside them has no meaning in C, so the
code that makes one stops with the fault `outOfBlock`.
-/

namespace Lkm.Simplefs

open Base

/-- What the code does not decide: the number of blocks of the device, and the
value of `1 << i` for `i ≥ 32`, which C leaves open. -/
structure Platform where
  nrBlocks : Nat
  wideShl : Nat → U32

/-- A file name as the VFS passes it: 1 to 255 bytes, no NUL and no slash. -/
structure Name where
  bytes : List Byte
  nonempty : bytes ≠ []
  short : bytes.length ≤ 255
  noNul : 0 ∉ bytes
  noSlash : 0x2F ∉ bytes
deriving DecidableEq

/-- The bytes that `strcpy` writes for a name: the first NUL is the last. -/
theorem Name.getD_ne_zero (name : Name) {i : Nat} (h : i < name.bytes.length) :
    (name.bytes ++ [0]).getD i 0 ≠ 0 := by
  rw [List.getD_append _ _ _ _ h, List.getD_eq_getElem _ _ h]
  intro hzero
  exact name.noNul (hzero ▸ List.getElem_mem h)

theorem Name.getD_length (name : Name) : (name.bytes ++ [0]).getD name.bytes.length 0 = 0 := by
  rw [List.getD_append_right _ _ _ _ (Nat.le_refl _), Nat.sub_self]
  rfl

/-- The path of a dentry below the root, innermost component first. -/
abbrev Path := List Name

/-- The `file_operations` of an inode. -/
inductive Fop where
  | file
  | dir
deriving DecidableEq

/-- The fields of a VFS inode that the driver sets. `iMode` is the mode that the driver passes to
`inode_init_owner`. Of it only the file type is read here, so the model neither cuts it to the 16
bits of `umode_t` nor adds the `S_ISGID` that a directory inherits. `iPrivate` is `none` for a
NULL pointer. -/
structure Inode where
  iIno : U64
  iMode : U32
  iFop : Option Fop
  iPrivate : Option SimplefsInode
deriving DecidableEq

/-- The contents of the blocks of a device. -/
abbrev Image := Nat → Buf

namespace Image

/-- `sb->inodes_count`. -/
def count (img : Image) : U64 := inodesCount (img 0)
/-- `sb->free_blocks`. -/
def free (img : Image) : U64 := freeBlocks (img 0)
/-- Slot `k` of the inode store. -/
def slot (img : Image) (k : Nat) : SimplefsInode := inodeAt (img 1) k

end Image

/-- The volume: what the buffers, the device and the dentry cache hold. -/
structure Vol where
  cache : Image
  past : Nat → List Buf
  dirty : Nat → Bool
  dcache : Path → Option Inode

/-- The shared memory. -/
structure Mem extends Vol where
  refs : Nat → Int
  appending : Bool
  appends : Nat

inductive Mutex where
  | directoryChildrenUpdate
  | inodesMgmt
  | sb
deriving DecidableEq

/-- The calls of `mutex_lock_interruptible`, by the function they stand in;
`addInodes` comes before `addSb` in `simplefs_inode_add`. -/
inductive Site where
  | createDirectory
  | objectsCount
  | freeblock
  | addInodes
  | addSb
  | createInodes
  | saveSb
  | writeInodes
deriving DecidableEq

/-- The mutex that a wait is for. -/
def Site.mutex : Site → Mutex
  | .createDirectory => .directoryChildrenUpdate
  | .objectsCount | .addInodes | .createInodes | .writeInodes => .inodesMgmt
  | .freeblock | .addSb | .saveSb => .sb

/-- Questions to the rest of the kernel: does `new_inode` succeed, what does a
fresh slab object contain, how many bytes does `copy_from_user` read before it
faults, does `copy_to_user` succeed, which clean buffers are dropped when the
volume is unmounted. -/
inductive Query where
  | newInode
  | slab
  | copyFromUser
  | copyToUser
  | dropped

abbrev Query.Answer : Query → Type
  | .newInode => Bool
  | .slab => SimplefsInode
  | .copyFromUser => Nat
  | .copyToUser => Bool
  | .dropped => Nat → Bool

/-- Where a call does not come back: a `BUG_ON` fires, a NULL pointer is
followed (to a private inode, to the buffer that `simplefs_lookup` reads, to the
inode that `simplefs_get_inode` did not find), or bytes outside a block's buffer
are touched. -/
inductive Fault where
  | bug
  | nullPrivate
  | nullBuffer
  | nullInode
  | outOfBlock (block off len : Nat)
deriving DecidableEq

inductive Errno where
  | eintr
  | eio
  | enoent
  | enomem
  | efault
  | eexist
  | enotdir
  | einval
  | enospc
deriving DecidableEq

abbrev Sfs := Prog Mem Mutex Site Fault Query.Answer
abbrev Machine := Mach Mem Mutex
abbrev Outside := World Site Query.Answer

/-! ## Updates of the volume -/

namespace Vol

/-- Change the cached contents of block `b`. -/
def modify (v : Vol) (b : Nat) (f : Buf → Buf) : Vol :=
  { v with
    cache := Function.update v.cache b (f (v.cache b))
    past := Function.update v.past b (v.past b ++ [v.cache b]) }

/-- `mark_buffer_dirty`. -/
def markBufferDirty (v : Vol) (b : Nat) : Vol :=
  { v with dirty := Function.update v.dirty b true }

/-- `sync_dirty_buffer`: a dirty buffer reaches the device. -/
def syncDirtyBuffer (v : Vol) (b : Nat) : Vol :=
  { v with
    past := if v.dirty b then Function.update v.past b [] else v.past
    dirty := Function.update v.dirty b false }

/-- Change the private inode of the dentry `p`. -/
def setPrivate (v : Vol) (p : Path) (f : SimplefsInode → SimplefsInode) : Vol :=
  { v with
    dcache := Function.update v.dcache p
      ((v.dcache p).map fun i => { i with iPrivate := i.iPrivate.map f }) }

/-- `d_add`. A dentry is instantiated once: the VFS holds the parent's lock from
the failed lookup of the name to here. -/
def dAdd (v : Vol) (p : Path) (i : Inode) : Vol :=
  { v with dcache := Function.update v.dcache p ((v.dcache p).or (some i)) }

/-- What the device has of a block that is not dirty: the version last synced. -/
def device (v : Vol) : Image := fun b => (v.past b).headD (v.cache b)

/-- Unmounting: the inodes are evicted and the dirty buffers written back; a
buffer that is not dirty may be dropped with what was stored in it. -/
def unmount (v : Vol) (dropped : Nat → Bool) : Vol where
  cache := fun b => if dropped b && !v.dirty b then v.device b else v.cache b
  past := fun _ => []
  dirty := fun _ => false
  dcache := fun _ => none

/-- The private inode behind a dentry. -/
def priv (v : Vol) (p : Path) : Option SimplefsInode := (v.dcache p).bind Inode.iPrivate

section

variable (v : Vol) (b : Nat) (f : Buf → Buf) (p : Path) (g : SimplefsInode → SimplefsInode)
  (i : Inode)

@[simp] theorem modify_cache_self : (v.modify b f).cache b = f (v.cache b) := by simp [modify]

variable {b} in
theorem modify_cache_ne {c : Nat} (h : c ≠ b) : (v.modify b f).cache c = v.cache c := by
  simp [modify, h]

@[simp] theorem modify_dcache : (v.modify b f).dcache = v.dcache := rfl
@[simp] theorem modify_dirty : (v.modify b f).dirty = v.dirty := rfl
@[simp] theorem modify_priv : (v.modify b f).priv p = v.priv p := rfl

@[simp] theorem markBufferDirty_cache : (v.markBufferDirty b).cache = v.cache := rfl
@[simp] theorem markBufferDirty_past : (v.markBufferDirty b).past = v.past := rfl
@[simp] theorem markBufferDirty_dcache : (v.markBufferDirty b).dcache = v.dcache := rfl
@[simp] theorem markBufferDirty_priv : (v.markBufferDirty b).priv p = v.priv p := rfl
@[simp] theorem markBufferDirty_dirty :
    (v.markBufferDirty b).dirty = Function.update v.dirty b true := rfl

@[simp] theorem syncDirtyBuffer_cache : (v.syncDirtyBuffer b).cache = v.cache := rfl
@[simp] theorem syncDirtyBuffer_dcache : (v.syncDirtyBuffer b).dcache = v.dcache := rfl
@[simp] theorem syncDirtyBuffer_priv : (v.syncDirtyBuffer b).priv p = v.priv p := rfl

@[simp] theorem setPrivate_cache : (v.setPrivate p g).cache = v.cache := rfl
@[simp] theorem setPrivate_past : (v.setPrivate p g).past = v.past := rfl
@[simp] theorem setPrivate_dirty : (v.setPrivate p g).dirty = v.dirty := rfl

@[simp] theorem dAdd_cache : (v.dAdd p i).cache = v.cache := rfl
@[simp] theorem dAdd_past : (v.dAdd p i).past = v.past := rfl
@[simp] theorem dAdd_dirty : (v.dAdd p i).dirty = v.dirty := rfl

@[simp] theorem setPrivate_priv_self : (v.setPrivate p g).priv p = (v.priv p).map g := by
  unfold priv setPrivate
  cases v.dcache p <;> simp

variable {p} in
theorem setPrivate_dcache_ne {q : Path} (h : q ≠ p) :
    (v.setPrivate p g).dcache q = v.dcache q := by
  simp [setPrivate, h]

variable {p} in
theorem dAdd_dcache_ne {q : Path} (h : q ≠ p) : (v.dAdd p i).dcache q = v.dcache q := by
  simp [dAdd, h]

@[simp] theorem dAdd_dcache_self : (v.dAdd p i).dcache p = (v.dcache p).or (some i) := by
  simp [dAdd]

end

end Vol

namespace Mem

/-- An update of the volume alone. -/
def onVol (f : Vol → Vol) (m : Mem) : Mem := { m with toVol := f m.toVol }

/-- Take a reference to the buffer of block `b`. -/
def getBh (m : Mem) (b : Nat) : Mem :=
  { m with refs := Function.update m.refs b (m.refs b + 1) }

/-- `brelse`. -/
def brelse (m : Mem) (b : Nat) : Mem :=
  { m with refs := Function.update m.refs b (m.refs b - 1) }

/-- The update in `simplefs_inode_add` begins. -/
def beginAppend (m : Mem) : Mem := { m with appending := true }

/-- The update in `simplefs_inode_add` is complete. -/
def endAppend (m : Mem) : Mem := { m with appending := false, appends := m.appends + 1 }

section

variable (m : Mem) (b : Nat) (f : Vol → Vol)

@[simp] theorem onVol_toVol : (m.onVol f).toVol = f m.toVol := rfl
@[simp] theorem onVol_appending : (m.onVol f).appending = m.appending := rfl
@[simp] theorem onVol_appends : (m.onVol f).appends = m.appends := rfl

@[simp] theorem getBh_toVol : (m.getBh b).toVol = m.toVol := rfl
@[simp] theorem getBh_appending : (m.getBh b).appending = m.appending := rfl
@[simp] theorem getBh_appends : (m.getBh b).appends = m.appends := rfl
@[simp] theorem brelse_toVol : (m.brelse b).toVol = m.toVol := rfl
@[simp] theorem brelse_appending : (m.brelse b).appending = m.appending := rfl
@[simp] theorem brelse_appends : (m.brelse b).appends = m.appends := rfl

@[simp] theorem beginAppend_toVol : m.beginAppend.toVol = m.toVol := rfl
@[simp] theorem endAppend_toVol : m.endAppend.toVol = m.toVol := rfl

end

end Mem

end Lkm.Simplefs
