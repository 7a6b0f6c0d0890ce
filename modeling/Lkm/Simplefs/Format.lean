import Lkm.Simplefs.Mkfs
import Lkm.Simplefs.Logic.Inodes

/-!
# The image that `mkfs` writes

What the driver reads from a freshly formatted device, whatever was on it
before: three inodes, the bitmap, and the two records of the root directory.
Mounting it puts the root inode in memory (`mount_cases`).
-/

namespace Lkm.Simplefs

open Base

/-! ## Fields of a block of a device -/

theorem getWord_blocksOf (n w : Nat) (dev : Buf) (b off : Nat) :
    getWord n w (blocksOf dev b) off = getWord n w dev (b * simplefsDefaultBlockSize + off) :=
  getWord_shift n w dev _ off

theorem ofBuf_blocksOf (dev : Buf) (b off : Nat) :
    SimplefsInode.ofBuf (blocksOf dev b) off =
      SimplefsInode.ofBuf dev (b * simplefsDefaultBlockSize + off) := by
  unfold SimplefsInode.ofBuf
  simp only [getWord_blocksOf, Nat.add_assoc]

namespace Mkfs

theorem padTo_length {n : Nat} {xs : List Byte} (h : xs.length ≤ n) : (padTo n xs).length = n := by
  unfold padTo
  rw [List.length_append, List.length_replicate]
  omega

/-- The root directory's two records. -/
def rootRecords : List Byte := recordBytes data1Name iData1 ++ recordBytes data2Name iData2

theorem superblockBytes_length : superblockBytes.length = 4096 := padTo_length (by decide)

/-- The last two writes are past the root directory's block. -/
theorem main_below_data (dev : Buf) {i : Nat} (hi : i < 12288) :
    main dev i =
      put (writeInode (writeInode (writeInode (writeSuperblock dev) rootInode .inode) d1Inode .inode)
        d2Inode .inode) 8192 (padTo simplefsDefaultBlockSize rootRecords) i := by
  unfold main
  simp only [writeBlock]
  rw [put_frame, put_frame]
  · rfl
  · left
    show i < 12288
    exact hi
  · left
    show i < 16384
    omega

/-- Below the root directory's block only the super block and the inodes were
written. -/
theorem main_below_root (dev : Buf) {i : Nat} (hi : i < 8192) :
    main dev i = writeInode (writeInode (writeInode (writeSuperblock dev) rootInode .inode)
      d1Inode .inode) d2Inode .inode i := by
  rw [main_below_data dev (by omega), put_frame (.inl hi)]

theorem main_super (dev : Buf) {i : Nat} (hi : i < 4096) :
    main dev i = put (fun _ => 0) 0 superblockBytes i := by
  rw [main_below_root dev (by omega)]
  unfold writeInode
  rw [put_frame (.inl (by show i < 4160; omega)), put_frame (.inl (by show i < 4128; omega)),
    put_frame (.inl (by show i < 4096; omega))]
  unfold writeSuperblock put
  rw [superblockBytes_length, if_pos (by omega), if_pos (by omega)]

end Mkfs

/-! ## What the driver reads -/

section

variable (dev : Buf)

theorem mkfsImage_count : (mkfsImage dev).count = 3 := by
  unfold Image.count inodesCount get64 mkfsImage
  rw [getWord_blocksOf, getWord_congr fun i _ hi => Mkfs.main_super dev (by
    unfold simplefsDefaultBlockSize at hi
    omega)]
  have h := getWord_put_field (n := 8) (w := 64) (by decide) (fun _ => 0) 0 (Mkfs.nrInode - 1)
    (wordBytes 8 simplefsMagic ++ wordBytes 8 (BitVec.ofNat 64 simplefsDefaultBlockSize))
    (wordBytes 8 Mkfs.initialFreeBlocks ++ List.replicate 4064 0)
  simp only [List.append_assoc] at h
  exact h

theorem mkfsImage_free : (mkfsImage dev).free = Mkfs.initialFreeBlocks := by
  unfold Image.free freeBlocks get64 mkfsImage
  rw [getWord_blocksOf, getWord_congr fun i _ hi => Mkfs.main_super dev (by
    unfold simplefsDefaultBlockSize at hi
    omega)]
  have h := getWord_put_field (n := 8) (w := 64) (by decide) (fun _ => 0) 0 Mkfs.initialFreeBlocks
    (wordBytes 8 simplefsMagic ++ wordBytes 8 (BitVec.ofNat 64 simplefsDefaultBlockSize) ++
      wordBytes 8 (Mkfs.nrInode - 1)) (List.replicate 4064 0)
  simp only [List.append_assoc] at h
  exact h

theorem mkfsImage_slot (k : Nat) :
    (mkfsImage dev).slot k = SimplefsInode.ofBuf (Mkfs.main dev) (4096 + sizeofInode * k) := by
  unfold Image.slot inodeAt mkfsImage
  rw [ofBuf_blocksOf]
  rfl

theorem mkfsImage_slot_two : (mkfsImage dev).slot 2 = Mkfs.d2Inode := by
  rw [mkfsImage_slot, SimplefsInode.ofBuf_congr fun i _ hi => Mkfs.main_below_root dev (by
    unfold sizeofInode at hi
    omega)]
  exact SimplefsInode.ofBuf_put_toBytes _ 4160 _

theorem mkfsImage_slot_one : (mkfsImage dev).slot 1 = Mkfs.d1Inode := by
  rw [mkfsImage_slot, SimplefsInode.ofBuf_congr fun i _ hi => Mkfs.main_below_root dev (by
    unfold sizeofInode at hi
    omega)]
  refine (SimplefsInode.ofBuf_congr fun i _ hi => ?_).trans (SimplefsInode.ofBuf_put_toBytes
    (Mkfs.writeInode (Mkfs.writeSuperblock dev) Mkfs.rootInode .inode) 4128 _)
  · refine put_frame (.inl ?_)
    unfold sizeofInode at hi
    show i < 4160
    omega

theorem mkfsImage_slot_zero : (mkfsImage dev).slot 0 = Mkfs.rootInode := by
  rw [mkfsImage_slot, SimplefsInode.ofBuf_congr fun i _ hi => Mkfs.main_below_root dev (by
    unfold sizeofInode at hi
    omega)]
  refine (SimplefsInode.ofBuf_congr fun i _ hi => ?_).trans (SimplefsInode.ofBuf_put_toBytes
    (Mkfs.writeSuperblock dev) 4096 _)
  · unfold sizeofInode at hi
    unfold Mkfs.writeInode
    rw [put_frame (.inl (by show i < 4160; omega)), put_frame (.inl (by show i < 4128; omega))]
    rfl

/-- The three inodes of a fresh image. -/
theorem mkfsImage_slot_cases {k : Nat} (hk : k < (mkfsImage dev).count.toNat) :
    (mkfsImage dev).slot k = Mkfs.rootInode ∨ (mkfsImage dev).slot k = Mkfs.d1Inode ∨
      (mkfsImage dev).slot k = Mkfs.d2Inode := by
  rw [mkfsImage_count] at hk
  have hk : k < 3 := hk
  obtain rfl | rfl | rfl : k = 0 ∨ k = 1 ∨ k = 2 := by omega
  · exact .inl (mkfsImage_slot_zero dev)
  · exact .inr (.inl (mkfsImage_slot_one dev))
  · exact .inr (.inr (mkfsImage_slot_two dev))

end

/-! ## Mounting -/

/-- Mounting changes nothing but the dentry of the root; with less than two blocks
or a broken table it does not come that far. -/
theorem mount_cases (P : Platform) (img : Image) :
    (mount P img).mem.toVol = .ofImage img ∨
      ∃ r, (Vol.ofImage img).getInode simplefsRootdirInodeNumber = .ok r ∧
        (mount P img).mem.toVol =
          (Vol.ofImage img).dAdd [] ⟨simplefsRootdirInodeNumber, sIfdir, some .dir, r⟩ := by
  let S : Vol → Prop := fun v => v = .ofImage img ∨
    ∃ r, (Vol.ofImage img).getInode simplefsRootdirInodeNumber = .ok r ∧
      v = (Vol.ofImage img).dAdd [] ⟨simplefsRootdirInodeNumber, sIfdir, some .dir, r⟩
  have hfill : vwp S calm (fun _ => True) (simplefsFillSuper P) (fun _ _ => True)
      (Vol.ofImage img) :=
    vwp_simplefsFillSuper (.inl rfl) (fun _ => trivial) (fun _ _ => trivial)
      fun r hr => ⟨.inr ⟨r, hr, rfl⟩, trivial⟩
  have hrun := vwp_run (m := machineOf (.ofImage img)) (.inl rfl) hfill
  exact hrun.1 _ (Prog.run_mach_mem_visits _ _ _ _)

/-- Mounting with at least two blocks and a readable table. -/
theorem mount_eq {P : Platform} (h2 : 2 ≤ P.nrBlocks) {img : Image} {r : Option SimplefsInode}
    (hr : (Vol.ofImage img).getInode simplefsRootdirInodeNumber = .ok r) :
    (mount P img).mem.toVol =
        (Vol.ofImage img).dAdd [] ⟨simplefsRootdirInodeNumber, sIfdir, some .dir, r⟩ ∧
      ∀ x, (mount P img).owner x = none := by
  obtain ⟨a, m, hrun, hm, hfree⟩ := vwp_done (w := calm) (m := machineOf (.ofImage img))
    (Q := fun _ v => v = (Vol.ofImage img).dAdd []
      ⟨simplefsRootdirInodeNumber, sIfdir, some .dir, r⟩)
    (keeps_simplefsFillSuper P) (fun _ => rfl) (fun _ => rfl) (by
      refine vwp_simplefsFillSuper trivial (fun h => by omega) (fun e he => ?_) fun r' hr' => ?_
      · exact absurd (hr.symm.trans he) (by simp)
      · cases hr.symm.trans hr'
        exact ⟨trivial, rfl⟩)
  unfold mount
  rw [hrun]
  exact ⟨hm, hfree⟩

section

variable (P : Platform) (dev : Buf)

theorem mkfsImage_getInode_root :
    (Vol.ofImage (mkfsImage dev)).getInode simplefsRootdirInodeNumber = .ok (some Mkfs.rootInode) := by
  have hcount : (Vol.ofImage (mkfsImage dev)).cache.count = 3 := mkfsImage_count dev
  have h : (Vol.ofImage (mkfsImage dev)).getInode simplefsRootdirInodeNumber = _ :=
    Vol.getInode_eq (j := 0) (by rw [hcount]; decide) (by rw [hcount]; decide) ?_
      (fun i hi => by omega)
  · rw [h]
    exact congrArg (fun i => Except.ok (some i)) (mkfsImage_slot_zero dev)
  · show ((mkfsImage dev).slot 0).inodeNo = _
    rw [mkfsImage_slot_zero]
    decide

/-- An inode-wise invariant holds on a mounted fresh image if the three inodes
have it. -/
theorem mkfs_inodes {G : SimplefsInode → Prop} {B : U64 → U64 → Prop}
    (hsuper : B 3 Mkfs.initialFreeBlocks) (hroot : G Mkfs.rootInode) (h1 : G Mkfs.d1Inode)
    (h2 : G Mkfs.d2Inode) : Inodes G B (mount P (mkfsImage dev)).mem.toVol := by
  have hcount : (Vol.ofImage (mkfsImage dev)).cache.count = 3 := mkfsImage_count dev
  have himg : Inodes G B (Vol.ofImage (mkfsImage dev)) := by
    refine ⟨?_, by rw [hcount]; decide, by rw [hcount]; decide, fun k hk => ?_, fun k hk => ?_,
      fun p i hi => (by cases hi), fun p d hd => (by cases hd)⟩
    · rw [hcount]
      exact (mkfsImage_free dev).symm ▸ hsuper
    · show G ((mkfsImage dev).slot k)
      rcases mkfsImage_slot_cases dev hk with h | h | h <;> rw [h] <;> assumption
    · show ((mkfsImage dev).slot k).inodeNo = slotNo k
      rw [hcount] at hk
      obtain rfl | rfl | rfl : k = 0 ∨ k = 1 ∨ k = 2 := by
        have : (3 : U64).toNat = 3 := rfl
        omega
      · rw [mkfsImage_slot_zero]
        decide
      · rw [mkfsImage_slot_one]
        decide
      · rw [mkfsImage_slot_two]
        decide
  rcases mount_cases P (mkfsImage dev) with hm | ⟨r, hr, hm⟩
  · rwa [hm]
  · rw [hm]
    rw [mkfsImage_getInode_root] at hr
    cases hr
    refine himg.dAdd ?_ ?_
    · rintro i ⟨⟩
      exact hroot
    · rintro i ⟨⟩
      exact ⟨fun _ => by decide, fun hf => by cases hf⟩

end

/-! ## A small image -/

/-- A device with an empty root directory in block 2; blocks 3 to 15 are free. -/
def emptyRoot : Image
  | 0 => setFreeBlocks (setInodesCount (fun _ => 0) 1) 0xFFF8
  | 1 => putInode (fun _ => 0) 0 ⟨sIfdir, 0, 1, 2, 0⟩
  | _ => fun _ => 0

theorem emptyRoot_count : emptyRoot.count = 1 := by
  show inodesCount (setFreeBlocks (setInodesCount _ 1) _) = 1
  simp

theorem emptyRoot_free : emptyRoot.free = 0xFFF8 := freeBlocks_setFreeBlocks _ _

theorem emptyRoot_slot : emptyRoot.slot 0 = ⟨sIfdir, 0, 1, 2, 0⟩ := inodeAt_putInode_self _ _ _

theorem emptyRoot_free_bit {b : Nat} (hb : emptyRoot.free.getLsbD b = true) : 3 ≤ b ∧ b < 16 := by
  rw [emptyRoot_free] at hb
  have hlt : b < 64 := BitVec.lt_of_getLsbD hb
  have hall : ∀ b : Fin 64, (0xFFF8 : U64).getLsbD b.val = true → 3 ≤ b.val ∧ b.val < 16 := by decide
  exact hall ⟨b, hlt⟩ hb

theorem emptyRoot_zero {k : Nat} (hk : k < emptyRoot.count.toNat) : k = 0 := by
  rw [emptyRoot_count] at hk
  have : (1 : U64).toNat = 1 := rfl
  omega

/-- A run on it. -/
def emptyRootRun (steps : List Step) : Outcome Mem Mutex Fault (List Res) :=
  outcome demoPlatform steps (mount demoPlatform emptyRoot)

theorem emptyRootRun_mem (steps : List Step) :
    (emptyRootRun steps).mach ∈ states demoPlatform steps (mount demoPlatform emptyRoot) :=
  runs_mach_mem_visitsAll _ _

end Lkm.Simplefs
