import Lkm.Simplefs.Logic.Exact
import Lkm.Simplefs.Logic.Loops

/-!
# What a call returns

`vwp` and `xwp` speak about every way a call may end. Where nothing can stand in its way
(the blocks exist, a wait finds its mutex free) the outcome is one value, and the
theorems here say which: `run_f` is an equation for `f.run`. A call that takes and drops
the reference to its buffer leaves the machine exactly as it was.
-/

namespace Lkm.Simplefs

open Base

section Run

variable {P : Platform} {w : Outside} {t : Nat} {m : Machine} {p : Path} {ino : SimplefsInode}

/-- `sb_bread`, then `brelse`. -/
theorem upd_brelse_getBh (m : Machine) (b : Nat) : (m.upd (·.getBh b)).upd (·.brelse b) = m :=
  congrArg (fun refs => { m with mem := { m.mem with refs := refs } }) (Refs.put_get m.mem.refs b)

theorem run_readMem : readMem.run w t m = .done m.mem m := rfl

theorem run_simplefsInode (h : m.mem.priv p = some ino) :
    (simplefsInode p).run w t m = .done ino m := by
  unfold simplefsInode
  rw [Prog.run_bind, run_readMem, Outcome.bind_done, h]
  rfl

theorem run_sbBread {b : Nat} (hb : b < P.nrBlocks) :
    (sbBread P b).run w t m = .done true (m.upd (·.getBh b)) := by
  unfold sbBread
  rw [if_pos hb]
  rfl

theorem run_sbBreadOrBug {b : Nat} (hb : b < P.nrBlocks) :
    (sbBreadOrBug P b).run w t m = .done () (m.upd (·.getBh b)) := by
  unfold sbBreadOrBug
  rw [Prog.run_bind, run_sbBread hb]
  rfl

theorem run_inBlock {b off len : Nat} (h : off + len ≤ simplefsDefaultBlockSize) :
    (inBlock b off len).run w t m = .done () m := by
  unfold inBlock
  rw [if_pos h]
  rfl

theorem run_lock {i : Site} (hw : w.interrupted i = false) (hfree : m.owner i.mutex = none) :
    (mutexLockInterruptible i).run w t m = .done false (m.acquire t i.mutex) := by
  simp [mutexLockInterruptible, Prog.run, hw, hfree]

/-! ## The inode store -/

theorem run_simplefsGetInode (hP : 1 < P.nrBlocks) {no : U64} {r : Option SimplefsInode}
    (h : m.mem.getInode no = .ok r) : (simplefsGetInode P no).run w t m = .done r m := by
  unfold simplefsGetInode
  rw [Prog.run_bind, run_sbBreadOrBug hP]
  show Prog.run w t (liftFault (m.mem.getInode no) >>= _) _ = _
  rw [h]
  exact congrArg (Outcome.done r) (upd_brelse_getBh m _)

section Save

variable (hP : 1 < P.nrBlocks) (hw : w.interrupted .saveSb = false) (hfree : m.owner .sb = none)
  (hino : m.mem.priv p = some ino)

include hP hw hfree hino

/-- The number is not found: `-EIO`, and the volume as it was. -/
theorem run_simplefsInodeSave_missing (h : m.mem.search ino.inodeNo = .ok none) :
    ∃ m', (simplefsInodeSave P p).run w t m = .done (.error .eio) m' ∧
      m'.mem.toVol = m.mem.toVol := by
  refine ⟨(((m.upd (·.getBh 1)).acquire t .sb).release .sb), ?_, rfl⟩
  have hfree' : (m.upd (·.getBh 1)).owner Site.saveSb.mutex = none := hfree
  have hino' : ((m.upd (·.getBh 1)).acquire t Site.saveSb.mutex).mem.priv p = some ino := hino
  unfold simplefsInodeSave
  rw [Prog.run_bind, run_sbBreadOrBug hP, Outcome.bind_done, Prog.run_bind, run_lock hw hfree',
    Outcome.bind_done, if_neg (by decide), Prog.run_bind, run_simplefsInode hino', Outcome.bind_done]
  show Prog.run w t (liftFault (m.mem.search ino.inodeNo) >>= _) _ = _
  rw [h]
  rfl

/-- It is found: the inode goes to the slot. -/
theorem run_simplefsInodeSave_found {k : Nat} (h : m.mem.search ino.inodeNo = .ok (some k)) :
    ∃ m', (simplefsInodeSave P p).run w t m = .done (.ok ()) m' ∧
      m'.mem.toVol = m.mem.toVol.after (saveScript k ino) := by
  refine ⟨(((((((m.upd (·.getBh 1)).acquire t .sb).upd (Mem.onVol (·.putSlot k ino))).upd
    (Mem.onVol (·.markBufferDirty 1))).upd (Mem.onVol (·.syncDirtyBuffer 1))).upd
      (·.brelse 1)).release .sb), ?_, rfl⟩
  have hfree' : (m.upd (·.getBh 1)).owner Site.saveSb.mutex = none := hfree
  have hino' : ((m.upd (·.getBh 1)).acquire t Site.saveSb.mutex).mem.priv p = some ino := hino
  unfold simplefsInodeSave
  rw [Prog.run_bind, run_sbBreadOrBug hP, Outcome.bind_done, Prog.run_bind, run_lock hw hfree',
    Outcome.bind_done, if_neg (by decide), Prog.run_bind, run_simplefsInode hino', Outcome.bind_done]
  show Prog.run w t (liftFault (m.mem.search ino.inodeNo) >>= _) _ = _
  rw [h]
  show Prog.run w t (simplefsInode p >>= _) _ = _
  rw [Prog.run_bind, run_simplefsInode hino']
  rfl

end Save

/-! ## Reading and listing -/

/-- The bytes that a read at `ppos` hands over, of a file with `size` bytes in the buffer
`b`; they come from the start of the block, whatever the position. -/
def readBytes (b : Buf) (size len ppos : U64) : List Byte :=
  if size ≤ ppos then [] else slice b 0 (min size.toNat len.toNat)

/-- A read of a file that fits its block. -/
theorem run_simplefsRead (len ppos : U64) (hino : m.mem.priv p = some ino)
    (hblk : ino.dataBlockNumber.toNat < P.nrBlocks) (hsize : ino.fileSize.toNat ≤ 4096)
    (hw : w.answer .copyToUser = true) :
    ∃ bytes, bytes = readBytes (m.mem.cache ino.dataBlockNumber.toNat) ino.fileSize len ppos ∧
      (simplefsRead P p len ppos).run w t m =
        .done (.ok bytes, ppos + BitVec.ofNat 64 bytes.length) m := by
  refine ⟨_, rfl, ?_⟩
  unfold simplefsRead
  rw [Prog.run_bind, run_simplefsInode hino, Outcome.bind_done]
  unfold readBytes
  by_cases hend : ino.fileSize ≤ ppos
  · rw [if_pos hend, if_pos hend]
    simp [Prog.run]
  rw [if_neg hend, if_neg hend, Prog.run_bind, run_sbBread hblk, Outcome.bind_done,
    if_neg (by decide)]
  -- the `int` holds the number of bytes
  have hmin : (if ino.fileSize ≤ len then ino.fileSize else len).toNat =
      min ino.fileSize.toNat len.toNat := by
    split
    · rename_i hle
      rw [BitVec.le_def] at hle
      omega
    · rename_i hgt
      rw [BitVec.le_def] at hgt
      omega
  dsimp only
  rw [asInt_eq (by omega)]
  have hmsb : (if ino.fileSize ≤ len then ino.fileSize else len).msb = false := by
    rw [BitVec.msb_eq_decide]
    simp only [hmin, decide_eq_false_iff_not]
    omega
  have hnat : (if ino.fileSize ≤ len then ino.fileSize else len) =
      BitVec.ofNat 64 (min ino.fileSize.toNat len.toNat) := by
    rw [← hmin, BitVec.ofNat_toNat, BitVec.setWidth_eq]
  rw [hmsb, if_neg (by decide), hmin, hnat, Prog.run_bind,
    run_inBlock (by unfold simplefsDefaultBlockSize; omega), slice_length]
  show Prog.run w t (if (!w.answer .copyToUser) = true then _ else _) _ = _
  rw [hw, if_neg (by decide)]
  exact congrArg (Outcome.done _) (upd_brelse_getBh m _)

/-- The VFS lets a call on a regular file through. -/
theorem run_vfsFile {i : Inode} {k : Sfs Res} (hi : m.mem.dcache p = some i)
    (hf : i.iFop = some .file) : (vfsFile p k).run w t m = k.run w t m := by
  unfold vfsFile
  rw [Prog.run_bind, run_readMem, Outcome.bind_done, hi]
  show Prog.run w t (if i.iFop = some .file then k else _) m = _
  rw [if_pos hf]

/-- A listing that has begun is not continued. -/
theorem run_simplefsIterate_again {ctx : DirContext} (h : ctx.pos ≠ 0) :
    (simplefsIterate P p ctx).run w t m = .done (.ok ctx) m := by
  unfold simplefsIterate
  rw [if_pos h]
  rfl

theorem run_simplefsIterate {ctx ctx' : DirContext} (hpos : ctx.pos = 0)
    (hino : m.mem.priv p = some ino) (hdir : sIsdir ino.mode = true)
    (hblk : ino.dataBlockNumber.toNat < P.nrBlocks)
    (h : iterateFrom ino.dataBlockNumber.toNat (m.mem.cache ino.dataBlockNumber.toNat)
      ino.dirChildrenCount.toNat 0 ctx = .ok ctx') :
    (simplefsIterate P p ctx).run w t m = .done (.ok ctx') m := by
  unfold simplefsIterate
  rw [if_neg (not_not.mpr hpos), Prog.run_bind, run_simplefsInode hino, Outcome.bind_done, hdir,
    if_neg (by decide)]
  dsimp only
  rw [Prog.run_bind, run_sbBreadOrBug hblk]
  show Prog.run w t (liftFault (iterateFrom _ (m.mem.cache _) _ 0 ctx) >>= _) _ = _
  rw [h]
  exact congrArg (Outcome.done _) (upd_brelse_getBh m _)

/-! ## Looking up -/

/-- A name that is not there: only the reference to the directory's buffer is new. -/
theorem run_simplefsLookup_absent {par : SimplefsInode} {name : Name}
    (hpar : m.mem.priv p = some par) (hblk : par.dataBlockNumber.toNat < P.nrBlocks)
    (h : m.mem.findRecord par name = .ok none) :
    (simplefsLookup P p name).run w t m = .done () (m.upd (·.getBh par.dataBlockNumber.toNat)) := by
  unfold simplefsLookup
  rw [Prog.run_bind, run_simplefsInode hpar, Outcome.bind_done, Prog.run_bind, run_sbBread hblk,
    Outcome.bind_done, if_neg (by decide)]
  show Prog.run w t (liftFault (m.mem.findRecord par name) >>= _) _ = _
  rw [h]
  rfl

/-- A name whose inode is in the table: the dentry gets it. -/
theorem run_simplefsLookup_found {par : SimplefsInode} {name : Name} {k : Nat} (hP : 1 < P.nrBlocks)
    (hpar : m.mem.priv p = some par) (hblk : par.dataBlockNumber.toNat < P.nrBlocks)
    (h : m.mem.findRecord par name = .ok (some k))
    (hget : m.mem.getInode (asInt (m.mem.cache.recordNo par k)) = .ok (some ino)) :
    (simplefsLookup P p name).run w t m = .done () ((m.upd (·.getBh par.dataBlockNumber.toNat)).upd
      (Mem.onVol (·.dAdd (name :: p) (igetInode (m.mem.cache.recordNo par k) ino)))) := by
  unfold simplefsLookup
  rw [Prog.run_bind, run_simplefsInode hpar, Outcome.bind_done, Prog.run_bind, run_sbBread hblk,
    Outcome.bind_done, if_neg (by decide)]
  show Prog.run w t (liftFault (m.mem.findRecord par name) >>= _) _ = _
  rw [h]
  show Prog.run w t (simplefsIget P (m.mem.cache.recordNo par k) >>= _) _ = _
  have hget' : (m.upd (·.getBh par.dataBlockNumber.toNat)).mem.getInode
      (asInt (m.mem.cache.recordNo par k)) = .ok (some ino) := hget
  unfold simplefsIget
  rw [Prog.run_bind, Prog.run_bind, run_simplefsGetInode hP hget']
  rfl

end Run

end Lkm.Simplefs
