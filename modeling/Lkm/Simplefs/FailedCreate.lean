import Lkm.Simplefs.Format
import Lkm.Simplefs.Logic.Exact

/-!
# What a failed create leaves behind

`simplefs_create_fs_object` returns an error from eight places. Up to and including
`simplefs_sb_get_a_freeblock` nothing has been changed yet. After it the bit of the
new block is cleared, and no later exit sets it again; so an error that comes later
leaves a trace, and no other does.

The proof that the trace is there has to look at one odd case: a parent directory
whose data block is the super block. A name long enough to cover `free_blocks` also
covers `inodes_count`, with bytes that are not zero.
-/

namespace Lkm.Simplefs

open Base

/-- What a failed create in the directory `dir` must leave as it was; the directories
are those in the table and those in memory. -/
structure NoTrace (dir : Path) (v v' : Vol) : Prop where
  free : v'.cache.free = v.cache.free
  count : v'.cache.count = v.cache.count
  store : v'.cache 1 = v.cache 1
  records : ∀ ino, (∃ k, k < v.cache.count.toNat ∧ v.cache.slot k = ino) ∨ (∃ p, v.priv p = some ino) →
    sIsdir ino.mode = true →
    slice (v'.cache ino.dataBlockNumber.toNat) 0 (sizeofDirRecord * ino.dirChildrenCount.toNat) =
      slice (v.cache ino.dataBlockNumber.toNat) 0 (sizeofDirRecord * ino.dirChildrenCount.toNat)
  children : (v'.priv dir).map SimplefsInode.dirChildrenCount =
    (v.priv dir).map SimplefsInode.dirChildrenCount

theorem NoTrace.refl (dir : Path) (v : Vol) : NoTrace dir v v :=
  ⟨rfl, rfl, rfl, fun _ _ _ => rfl, rfl⟩

/-! ## The trace -/

/-- Taking a block changes the bitmap. -/
theorem clear_ne {P : Platform} {free : U64} {i : Nat} (h : blockIsFree P free i = true) :
    free &&& ~~~bitMask P i ≠ free := by
  intro heq
  have hzero : free &&& bitMask P i = 0 := by
    apply BitVec.eq_of_getLsbD_eq
    intro j hj
    have hbit := congrArg (fun x : U64 => x.getLsbD j) heq
    simp only [BitVec.getLsbD_and, BitVec.getLsbD_not, hj, decide_true, Bool.true_and] at hbit
    rw [BitVec.getLsbD_and]
    cases hfree : free.getLsbD j <;> cases hmask : (bitMask P i).getLsbD j <;> simp_all
  simp [blockIsFree, hzero] at h

/-- A record in the super block keeps `free_blocks`, or makes `inodes_count` huge. -/
theorem record_in_super (sb : Buf) (k : Nat) (no : U64) (name : Name) :
    freeBlocks (strcpyFilename (setRecordInodeNo sb k no) k name.bytes) = freeBlocks sb ∨
      64 ≤ (inodesCount (strcpyFilename (setRecordInodeNo sb k no) k name.bytes)).toNat := by
  have hno : freeBlocks (setRecordInodeNo sb k no) = freeBlocks sb := by
    apply get64_put64_ne
    unfold sizeofDirRecord
    omega
  by_cases hlong : k = 0 ∧ 24 ≤ name.bytes.length
  · obtain ⟨rfl, hlen⟩ := hlong
    right
    -- the name covers the highest byte of the count, and has no NUL
    have hbyte : strcpyFilename (setRecordInodeNo sb 0 no) 0 name.bytes (16 + 7) ≠ 0 := by
      unfold strcpyFilename
      rw [Nat.mul_zero, show 16 + 7 = 0 + 23 from rfl,
        put_inside (by rw [List.length_append]; omega)]
      exact name.getD_ne_zero (by omega)
    have hlarge : 256 ^ 7 ≤ getLE 8 (strcpyFilename (setRecordInodeNo sb 0 no) 0 name.bytes) 16 :=
      pow_le_getLE hbyte
    have hlt : getLE 8 (strcpyFilename (setRecordInodeNo sb 0 no) 0 name.bytes) 16 < 2 ^ 64 :=
      getLE_lt 8 _ 16
    unfold inodesCount get64 getWord
    rw [BitVec.toNat_ofNat, Nat.mod_eq_of_lt hlt]
    omega
  · left
    rw [← hno]
    apply get64_put_frame
    simp only [List.length_append, List.length_singleton]
    unfold sizeofDirRecord
    omega

variable {P : Platform} {w : Outside} {v : Vol} {mode : U32}

/-- `simplefs_inode_add` does not touch the bitmap. -/
theorem added_free (v : Vol) (ino : SimplefsInode) (skip : Bool) :
    (v.added ino skip).cache.free = v.cache.free := by
  cases skip with
  | true => rfl
  | false =>
      show ((v.putSlot _ ino).setCount _).cache.free = v.cache.free
      simp

/-- Once a block has been taken and the record been written, the bitmap or the count is
not what it was. -/
theorem Allocates.trace {dir : Path} {dentry : Name} {ino : SimplefsInode} {skip : Bool}
    {blk k : Nat} {no : U64} {v' : Vol} (h : Allocates P w v mode)
    (hcache : v'.cache = (((v.after (takeScript P v)).added ino skip).after
      (recordScript blk k no dentry.bytes)).cache) : ¬ NoTrace dir v v' := by
  intro htrace
  have hroom := h.room
  have htaken : ((v.after (takeScript P v)).added ino skip).cache.free ≠ v.cache.free := by
    rw [added_free]
    exact (Vol.setFree_free v).trans_ne (clear_ne (Vol.blockIsFree_freeIndex h.block))
  have hfree := htrace.free
  have hcount := htrace.count
  rw [hcache, Vol.recorded_cache] at hfree hcount
  by_cases hsuper : blk = 0
  · subst hsuper
    have hrecord := record_in_super (((v.after (takeScript P v)).added ino skip).cache 0) k no dentry
    simp only [Image.free, Image.count, Vol.modify_cache_self] at hfree hcount hrecord
    rcases hrecord with hkept | hlarge
    · exact htaken (hkept.symm.trans hfree)
    · rw [hcount] at hlarge
      exact absurd hlarge (by simpa [Image.count] using hroom)
  · apply htaken
    rw [← hfree, Image.free, Image.free, Vol.modify_cache_ne _ _ (Ne.symm hsuper),
      Vol.modify_cache_ne _ _ (Ne.symm hsuper)]

/-- A create that returns an error leaves no trace exactly when it has not got as far as
taking a block. -/
theorem failed_create_no_trace_iff (P : Platform) (w : Outside) (dir : Path) (dentry : Name)
    (mode : U32) (m m' : Machine) (e : Errno)
    (hrun : (simplefsCreateFsObject P dir dentry mode).run w 0 m = .done (.error e) m') :
    NoTrace dir m.mem.toVol m'.mem.toVol ↔ ¬ Allocates P w m.mem.toVol mode := by
  have h : xwp w (simplefsCreateFsObject P dir dentry mode)
      (fun r v' _ => ∀ e, r = .error e →
        (NoTrace dir m.mem.toVol v' ↔ ¬ Allocates P w m.mem.toVol mode))
      m.mem.toVol m.mem.refs := by
    apply xwp_simplefsCreateFsObject
    · intro _ hearly _ _
      refine iff_of_true (NoTrace.refl _ _) ?_
      intro halloc
      cases halloc.createError_eq.symm.trans hearly
    · intro ino v₁ halloc _ hv₁
      subst hv₁
      constructor
      · intro par v₂ _ _ hv₂ _ _ _
        exact iff_of_false (halloc.trace (congrArg Vol.cache hv₂)) (not_not.mpr halloc)
      · intro par v₂ _ _ _ hv₂ _ _ _ _
        have hbump : (v₂.bumpChildren dir).cache = v₂.cache := rfl
        exact iff_of_false (halloc.trace (hbump.trans (congrArg Vol.cache hv₂))) (not_not.mpr halloc)
      · intro par v₂ v' _ _ _ _ _ _ e he
        cases he
  exact xwp_done h hrun e rfl

/-- A create in the empty root directory. -/
def createRun (w : Outside) (mode : U32) : Outcome Mem Mutex Fault (Except Errno Unit) :=
  (simplefsCreateFsObject demoPlatform [] nameA mode).run w 0 (mount demoPlatform emptyRoot)

/-- A mode that is neither a file's nor a directory's is refused in time. -/
theorem failed_create_bad_mode :
    ∃ m', createRun calm 0 = .done (.error .einval) m' ∧
      NoTrace [] (mount demoPlatform emptyRoot).mem.toVol m'.mem.toVol := by
  have hresult : (createRun calm 0).result? = some (.error .einval) := by decide +kernel
  have hrun := Outcome.eq_done hresult
  refine ⟨_, hrun, (failed_create_no_trace_iff _ _ _ _ _ _ _ _ hrun).mpr ?_⟩
  intro h
  exact absurd h.kind (by decide)

/-- The wait after the record is written is interrupted: the create fails, with a block
taken and an inode stored. -/
theorem failed_create_takes_block :
    ∃ m', createRun ⟨fun i => i == .createInodes, calm.answer⟩ sIfreg = .done (.error .eintr) m' ∧
      (mount demoPlatform emptyRoot).mem.cache.free = 0xFFF8 ∧ m'.mem.cache.free = 0xFFF0 ∧
      (mount demoPlatform emptyRoot).mem.cache.count = 1 ∧ m'.mem.cache.count = 2 := by
  apply Outcome.exists_done
  decide +kernel

end Lkm.Simplefs
