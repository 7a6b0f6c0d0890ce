import Lkm.Simplefs.Format

/-!
# Staying inside the block and inside the device

Three limits that the driver relies on and does not check:

* **files** — a file has one block (`files_fit_of_writes`): true of every run
  whose writes end within 4096 bytes, false after one that does not
  (`files_overflow`);
* **directories** — a directory has one block of 16 records
  (`dirs_fit_of_room`): true of every run that creates only in directories with
  fewer than 16 entries; the fifteenth create in the fresh root directory does
  not fit any more (`root_overflow`);
* **the device** — data blocks exist (`blocks_exist_of_space`): true of every run
  that creates only while some existing block is marked free; on the 16 blocks
  that the Makefile gives the image, the fourteenth create gets block 16
  (`block_past_end`).

The three theorems are instances of the rules of `Logic.Inodes`.
-/

namespace Lkm.Simplefs

open Base

/-! ## Files -/

/-- Every regular file, in the table and in memory, fits one block. -/
def FilesFit (v : Vol) : Prop :=
  (∀ k, k < v.cache.count.toNat → sIsreg (v.cache.slot k).mode = true →
    (v.cache.slot k).fileSize.toNat ≤ simplefsDefaultBlockSize) ∧
  ∀ p i, v.priv p = some i → sIsreg i.mode = true → i.fileSize.toNat ≤ simplefsDefaultBlockSize

/-- Reads and writes, with the lookups that bring the files into memory; a write
ends within the block. -/
def WritesFit (_ : Vol) (s : Step) : Prop :=
  match s.2 with
  | .lookup .. | .read .. => True
  | .write _ _ len pos => pos.toNat + len.toNat ≤ simplefsDefaultBlockSize
  | _ => False

/-- The invariant behind `FilesFit`: directories stay small, too. -/
def FileOk (i : SimplefsInode) : Prop :=
  2 ≤ i.dataBlockNumber.toNat ∧ (sIsreg i.mode = true → i.fileSize.toNat ≤ 4096) ∧
    (sIsdir i.mode = true → i.dirChildrenCount.toNat ≤ 16)

/-- A read copies no more than the file's size. -/
theorem FileOk.read_le {i : SimplefsInode} (h : FileOk i) (hreg : sIsreg i.mode = true) (len : U64) :
    (asInt (if i.fileSize ≤ len then i.fileSize else len)).toNat ≤ 4096 := by
  have hsize := h.2.1 hreg
  by_cases hle : i.fileSize ≤ len
  · rw [if_pos hle, asInt_eq (by omega)]
    exact hsize
  · rw [if_neg hle]
    have hlt : len.toNat < i.fileSize.toNat := by
      rw [BitVec.le_def] at hle
      omega
    rw [asInt_eq (by omega)]
    omega

theorem FileOk.resize {i : SimplefsInode} (h : FileOk i) (hreg : sIsreg i.mode = true) {size : U64}
    (hsize : size.toNat ≤ 4096) : FileOk { i with fileSize := size } := by
  refine ⟨h.1, fun _ => hsize, fun hdir => ?_⟩
  rw [sIsdir_eq_false_of_sIsreg hreg] at hdir
  cases hdir

/-- Not a touch outside a block. -/
def NotOutOfBlock (e : Fault) : Prop := ∀ b off len, e ≠ .outOfBlock b off len

theorem fileOk_step (P : Platform) {v : Vol} {s : Step} (h : AllInodes FileOk v) (hs : WritesFit v s) :
    vwp (AllInodes FileOk) s.1 NotOutOfBlock (s.2.prog P) (fun _ v' => AllInodes FileOk v') v := by
  obtain ⟨w, c⟩ := s
  have hfault : ∀ e : Fault, (∀ b off len, e ≠ .outOfBlock b off len) → NotOutOfBlock e :=
    fun e he => he
  cases c with
  | lookup dir name =>
      refine h.vwp_lookup (fun _ => hfault _ (by simp)) (hfault _ (by simp)) (hfault _ (by simp))
        (fun _ _ _ => hfault _ (by simp)) fun par off hpar hdir hgt => ?_
      have := (h.loaded dir par hpar).2.2 hdir
      omega
  | read file len pos =>
      refine vwp_vfsFile (fun _ => h) (fun _ _ _ => h) fun d hd hf => vwp_bind (vwp_simplefsRead h
        ⟨fun _ => hfault _ (by simp), fun ino n hino hn hgt => ?_, fun _ => vwp_pure h⟩)
      obtain ⟨hok, hpriv⟩ := h.loaded_of_dcache hd hino
      have := hok.read_le ((h.typed file d hd ino hpriv).2 hf) len
      omega
  | write file buf len pos =>
      have hfit : pos.toNat + len.toNat ≤ 4096 := hs
      refine h.vwp_write (fun i hi => hi.1) (fun _ => hfault _ (by simp)) (hfault _ (by simp))
        (fun ino _ _ _ hgt => ?_) fun ino hino hreg => ?_
      · omega
      · refine (h.loaded file ino hino).resize hreg ?_
        rw [BitVec.toNat_add]
        omega
  | create dir name mode => exact hs.elim
  | mkdir dir name mode => exact hs.elim
  | iterate dir ctx => exact hs.elim
  | remount => exact hs.elim

theorem AllInodes.filesFit {v : Vol} (h : AllInodes FileOk v) : FilesFit v :=
  ⟨fun k hk => (h.stored k hk).2.1, fun p i hi => (h.loaded p i hi).2.1⟩

/-- On a freshly formatted device, reads and writes within 4096 bytes keep every
file within its block and touch no byte outside a block, whichever waits are
interrupted and whichever user addresses are bad. -/
theorem files_fit_of_writes (P : Platform) (dev : Buf) (steps : List Step)
    (h : Issues P WritesFit steps (mount P (mkfsImage dev))) :
    (∀ m ∈ states P steps (mount P (mkfsImage dev)), FilesFit m.mem.toVol) ∧
      ∀ b off len m, outcome P steps (mount P (mkfsImage dev)) ≠ .fault (.outOfBlock b off len) m := by
  have hrun := vwp_runs (fun _ hJ => hJ) (fun v s => fileOk_step P (v := v) (s := s))
    (mkfs_inodes P dev trivial ⟨by decide, by decide, by decide⟩ ⟨by decide, by decide, by decide⟩
      ⟨by decide, by decide, by decide⟩) h
  refine ⟨fun m hm => AllInodes.filesFit (hrun.1 m hm), fun b off len m hend => ?_⟩
  rw [hend] at hrun
  exact hrun.2 b off len rfl

/-- A device full of zeros. -/
def blankDevice : Buf := fun _ => 0

def data1 : Name := ⟨Mkfs.data1Name, by decide, by decide, by decide, by decide⟩

/-- A run on the fresh image of a blank device of 16 blocks, to its end. -/
def demoRun (steps : List Step) : Outcome Mem Mutex Fault (List Res) :=
  outcome demoPlatform steps (mount demoPlatform (mkfsImage blankDevice))

theorem demoRun_mem (steps : List Step) :
    (demoRun steps).mach ∈ states demoPlatform steps (mount demoPlatform (mkfsImage blankDevice)) :=
  runs_mach_mem_visitsAll _ _

/-- A whole block is written to `Data1` and read back. -/
def writeWholeBlock : List Step :=
  [(calm, .lookup [] data1), (calm, .write [data1] (fun _ => 7) 4096 0),
    (calm, .read [data1] 4096 0)]

theorem files_fit_whole_block : FilesFit (demoRun writeWholeBlock).mach.mem.toVol :=
  (files_fit_of_writes demoPlatform blankDevice writeWholeBlock
    ⟨trivial, fun _ _ _ => ⟨show (0 : U64).toNat + (4096 : U64).toNat ≤ 4096 by decide,
      fun _ _ _ => ⟨trivial, fun _ _ _ => trivial⟩⟩⟩).1 _ (demoRun_mem _)

/-- A write of no bytes at offset 8192. -/
def writeNothing : List Step :=
  [(calm, .lookup [] data1), (calm, .write [data1] (fun _ => 7) 0 8192)]

/-- Nothing stops a write past the block: one byte at offset 4096 is copied to
memory outside the buffer, and no byte at offset 8192 makes a file of 8192 bytes,
of which the next read copies out as many. -/
theorem files_overflow :
    (demoRun [(calm, .lookup [] data1), (calm, .write [data1] (fun _ => 7) 1 4096)]).fault? =
        some (.outOfBlock 3 4096 1) ∧
      (∃ m ∈ states demoPlatform writeNothing (mount demoPlatform (mkfsImage blankDevice)),
        ¬ FilesFit m.mem.toVol) ∧
      (demoRun (writeNothing ++ [(calm, .read [data1] 8192 0)])).fault? =
        some (.outOfBlock 3 0 8192) := by
  refine ⟨by decide +kernel, ⟨_, demoRun_mem writeNothing, fun h => ?_⟩, by decide +kernel⟩
  obtain ⟨hk, hreg, hsize⟩ : 1 < (demoRun writeNothing).mach.mem.cache.count.toNat ∧
      sIsreg ((demoRun writeNothing).mach.mem.cache.slot 1).mode = true ∧
      4096 < ((demoRun writeNothing).mach.mem.cache.slot 1).fileSize.toNat := by
    decide +kernel
  exact absurd (h.1 1 hk hreg) (Nat.not_le.mpr hsize)

/-! ## Directories -/

/-- Every directory, in the table and in memory, has at most as many entries as
records fit its block. -/
def DirsFit (v : Vol) : Prop :=
  (∀ k, k < v.cache.count.toNat → sIsdir (v.cache.slot k).mode = true →
    (v.cache.slot k).dirChildrenCount.toNat ≤ simplefsDefaultBlockSize / sizeofDirRecord) ∧
  ∀ p i, v.priv p = some i → sIsdir i.mode = true →
    i.dirChildrenCount.toNat ≤ simplefsDefaultBlockSize / sizeofDirRecord

/-- Creates, in a parent with fewer than 16 entries, and lookups and listings. -/
def CreatesWithRoom (v : Vol) (s : Step) : Prop :=
  match s.2 with
  | .create dir _ _ | .mkdir dir _ _ =>
      ∀ par, v.priv dir = some par → par.dirChildrenCount.toNat < 16
  | .lookup .. | .iterate .. => True
  | _ => False

/-- The invariant behind `DirsFit`. -/
def DirOk (i : SimplefsInode) : Prop :=
  2 ≤ i.dataBlockNumber.toNat ∧ (sIsdir i.mode = true → i.dirChildrenCount.toNat ≤ 16)

theorem dirOk_create (P : Platform) {v : Vol} {w : Outside} (h : AllInodes DirOk v) {dir : Path}
    {name : Name} {mode : U32}
    (hroom : ∀ par, v.priv dir = some par → par.dirChildrenCount.toNat < 16) :
    vwp (AllInodes DirOk) w NotOutOfBlock
      (vfsCreate dir name (simplefsCreateFsObject P dir name mode)) (fun _ v' => AllInodes DirOk v') v := by
  refine h.vwp_create (fun i hi => hi.1)
    ⟨fun _ => by simp [NotOutOfBlock], fun _ => by simp [NotOutOfBlock],
      fun _ _ _ => by simp [NotOutOfBlock], fun par off len hpar hfull => ?_, fun slab hi => ?_,
      fun par hpar hlt => ?_, fun _ _ h => h, fun _ => trivial, fun _ _ => trivial,
      fun _ => trivial⟩
  · have := hroom par hpar
    omega
  · refine ⟨?_, fun _ => Nat.zero_le 16⟩
    rw [newInode_block]
    exact Vol.freeIndex_ge P v
  · refine ⟨(h.loaded dir par hpar).1, fun _ => ?_⟩
    rw [SimplefsInode.setDirChildrenCount_dirChildrenCount, BitVec.toNat_add]
    show (par.dirChildrenCount.toNat + 1) % 2 ^ 64 ≤ 16
    omega

theorem dirOk_step (P : Platform) {v : Vol} {s : Step} (h : AllInodes DirOk v)
    (hs : CreatesWithRoom v s) :
    vwp (AllInodes DirOk) s.1 NotOutOfBlock (s.2.prog P) (fun _ v' => AllInodes DirOk v') v := by
  obtain ⟨w, c⟩ := s
  have hsmall : ∀ p par, v.priv p = some par → sIsdir par.mode = true →
      ¬ 16 < par.dirChildrenCount.toNat := by
    intro p par hpar hdir
    have := (h.loaded p par hpar).2 hdir
    omega
  cases c with
  | create dir name mode => exact dirOk_create P h hs
  | mkdir dir name mode => exact dirOk_create P h hs
  | lookup dir name =>
      exact h.vwp_lookup (fun _ => by simp [NotOutOfBlock]) (by simp [NotOutOfBlock])
        (by simp [NotOutOfBlock]) (fun _ _ _ => by simp [NotOutOfBlock])
        fun par off hpar hdir hgt => absurd hgt (hsmall dir par hpar hdir)
  | iterate dir ctx =>
      exact h.vwp_iterate (by simp [NotOutOfBlock]) (fun _ _ _ => by simp [NotOutOfBlock])
        fun par off hpar hdir hgt => absurd hgt (hsmall dir par hpar hdir)
  | read file len pos => exact hs.elim
  | write file buf len pos => exact hs.elim
  | remount => exact hs.elim

theorem AllInodes.dirsFit {v : Vol} (h : AllInodes DirOk v) : DirsFit v :=
  ⟨fun k hk => (h.stored k hk).2, fun p i hi => (h.loaded p i hi).2⟩

/-- On a freshly formatted device, creating only in directories with fewer than 16
entries keeps every directory in its block, and no record that a create writes
or that a lookup or a listing reads lies outside it. -/
theorem dirs_fit_of_room (P : Platform) (dev : Buf) (steps : List Step)
    (h : Issues P CreatesWithRoom steps (mount P (mkfsImage dev))) :
    (∀ m ∈ states P steps (mount P (mkfsImage dev)), DirsFit m.mem.toVol) ∧
      ∀ b off len m, outcome P steps (mount P (mkfsImage dev)) ≠ .fault (.outOfBlock b off len) m := by
  have hrun := vwp_runs (fun _ hJ => hJ) (fun v s => dirOk_step P (v := v) (s := s))
    (mkfs_inodes P dev trivial ⟨by decide, by decide⟩ ⟨by decide, by decide⟩ ⟨by decide, by decide⟩) h
  refine ⟨fun m hm => AllInodes.dirsFit (hrun.1 m hm), fun b off len m hend => ?_⟩
  rw [hend] at hrun
  exact hrun.2 b off len rfl

/-- One create, one lookup and a listing. -/
def createAndList : List Step :=
  [(calm, .create [] nameA sIfreg), (calm, .lookup [] data1), (calm, .iterate [] ⟨0, 3, []⟩)]

theorem dirs_fit_one_create : DirsFit (demoRun createAndList).mach.mem.toVol :=
  (dirs_fit_of_room demoPlatform blankDevice createAndList
    ⟨fun par hpar => by
        rw [show (mount demoPlatform (mkfsImage blankDevice)).mem.toVol.priv [] =
          some Mkfs.rootInode by decide +kernel] at hpar
        cases hpar
        decide,
      fun _ _ _ => ⟨trivial, fun _ _ _ => ⟨trivial, fun _ _ _ => trivial⟩⟩⟩).1 _ (demoRun_mem _)

/-- A name of one letter, the `n`th of the alphabet. -/
def letter (n : Nat) : Name :=
  letterName (BitVec.ofNat 8 (97 + n % 26))
    (fun h => by
      have := congrArg BitVec.toNat h
      rw [BitVec.toNat_ofNat, show (0 : Byte).toNat = 0 from rfl] at this
      omega)
    (fun h => by
      have := congrArg BitVec.toNat h
      rw [BitVec.toNat_ofNat, show (0x2F : Byte).toNat = 47 from rfl] at this
      omega)

/-- `n` files in the root directory. -/
def fillRoot (n : Nat) : List Step :=
  (List.range n).map fun k => (calm, .create [] (letter k) sIfreg)

/-- With its two records from `mkfs` and fourteen more the root directory is full;
no check stops the next create from writing a record behind the block. -/
theorem root_overflow :
    (demoRun (fillRoot 14)).fault? = none ∧
      (demoRun (fillRoot 15)).fault? = some (.outOfBlock 2 4096 256) := by
  decide +kernel

/-! ## The device -/

/-- Every data block number, in the table and in memory, is one of the device. -/
def BlocksExist (P : Platform) (v : Vol) : Prop :=
  (∀ k, k < v.cache.count.toNat → (v.cache.slot k).dataBlockNumber.toNat < P.nrBlocks) ∧
  ∀ p i, v.priv p = some i → i.dataBlockNumber.toNat < P.nrBlocks

/-- Creates while the allocator's test accepts a block of the device, or none at
all, and lookups and listings. -/
def CreatesWithSpace (P : Platform) (v : Vol) (s : Step) : Prop :=
  match s.2 with
  | .create .. | .mkdir .. =>
      (∃ i, 2 ≤ i ∧ i < 64 ∧ i < P.nrBlocks ∧ blockIsFree P v.cache.free i = true) ∨
        ∀ i, 2 ≤ i → i < 64 → blockIsFree P v.cache.free i = false
  | .lookup .. | .iterate .. => True
  | _ => False

/-- The invariant behind `BlocksExist`. -/
def BlockOk (P : Platform) (i : SimplefsInode) : Prop :=
  2 ≤ i.dataBlockNumber.toNat ∧ i.dataBlockNumber.toNat < P.nrBlocks

/-- `sb_bread` did not fail. -/
def NotNullBuffer (e : Fault) : Prop := e ≠ .bug ∧ e ≠ .nullBuffer

theorem freeIndex_lt_of_space {P : Platform} {v : Vol}
    (hspace : (∃ i, 2 ≤ i ∧ i < 64 ∧ i < P.nrBlocks ∧ blockIsFree P v.cache.free i = true) ∨
      ∀ i, 2 ≤ i → i < 64 → blockIsFree P v.cache.free i = false)
    (hi : v.freeIndex P ≠ 64) : v.freeIndex P < P.nrBlocks := by
  have hle := Vol.freeIndex_le P v
  have hset := Vol.blockIsFree_freeIndex hi
  rcases hspace with ⟨i, h2, h64, hN, hfree⟩ | hnone
  · -- the loop stops at `i` at the latest
    by_contra hge
    have hmin := Vol.freeIndex_min h2 (by omega : i < v.freeIndex P)
    rw [hfree] at hmin
    cases hmin
  · rw [hnone _ (Vol.freeIndex_ge P v) (by omega)] at hset
    cases hset

theorem blockOk_create {P : Platform} (hN : 5 ≤ P.nrBlocks) {v : Vol} {w : Outside}
    (h : AllInodes (BlockOk P) v) {dir : Path} {name : Name} {mode : U32}
    (hspace : v.freeIndex P ≠ 64 → v.freeIndex P < P.nrBlocks) :
    vwp (AllInodes (BlockOk P)) w NotNullBuffer
      (vfsCreate dir name (simplefsCreateFsObject P dir name mode))
      (fun _ v' => AllInodes (BlockOk P) v') v := by
  refine h.vwp_create (fun i hi => hi.1)
    ⟨fun _ => by omega, fun _ => by simp [NotNullBuffer], fun par hpar hge => ?_,
      fun _ _ _ _ _ => by simp [NotNullBuffer], fun slab hi => ?_,
      fun par hpar _ => h.loaded dir par hpar, fun _ _ h => h, fun _ => trivial,
      fun _ _ => trivial, fun _ => trivial⟩
  · have := (h.loaded dir par hpar).2
    omega
  · unfold BlockOk
    rw [newInode_block]
    exact ⟨Vol.freeIndex_ge P v, hspace hi⟩

theorem blockOk_step {P : Platform} (hN : 5 ≤ P.nrBlocks) {v : Vol} {s : Step}
    (h : AllInodes (BlockOk P) v) (hs : CreatesWithSpace P v s) :
    vwp (AllInodes (BlockOk P)) s.1 NotNullBuffer (s.2.prog P)
      (fun _ v' => AllInodes (BlockOk P) v') v := by
  obtain ⟨w, c⟩ := s
  have hexists : ∀ p par, v.priv p = some par → ¬ P.nrBlocks ≤ par.dataBlockNumber.toNat := by
    intro p par hpar
    have := (h.loaded p par hpar).2
    omega
  cases c with
  | create dir name mode => exact blockOk_create hN h (freeIndex_lt_of_space hs)
  | mkdir dir name mode => exact blockOk_create hN h (freeIndex_lt_of_space hs)
  | lookup dir name =>
      exact h.vwp_lookup (fun _ => by omega) (by simp [NotNullBuffer]) (by simp [NotNullBuffer])
        (fun par hpar hge => absurd hge (hexists dir par hpar)) fun _ _ _ _ _ => by simp [NotNullBuffer]
  | iterate dir ctx =>
      exact h.vwp_iterate (by simp [NotNullBuffer])
        (fun par hpar hge => absurd hge (hexists dir par hpar)) fun _ _ _ _ _ => by simp [NotNullBuffer]
  | read file len pos => exact hs.elim
  | write file buf len pos => exact hs.elim
  | remount => exact hs.elim

theorem AllInodes.blocksExist {P : Platform} {v : Vol} (h : AllInodes (BlockOk P) v) : BlocksExist P v :=
  ⟨fun k hk => (h.stored k hk).2, fun p i hi => (h.loaded p i hi).2⟩

/-- On a freshly formatted device of at least 5 blocks, creating only while an
existing block is free keeps every data block number below the device's size,
and no `sb_bread` of a create, a lookup or a listing fails. -/
theorem blocks_exist_of_space (P : Platform) (hN : 5 ≤ P.nrBlocks) (dev : Buf) (steps : List Step)
    (h : Issues P (CreatesWithSpace P) steps (mount P (mkfsImage dev))) :
    (∀ m ∈ states P steps (mount P (mkfsImage dev)), BlocksExist P m.mem.toVol) ∧
      ∀ e m, outcome P steps (mount P (mkfsImage dev)) = .fault e m → e ≠ .bug ∧ e ≠ .nullBuffer := by
  have hinit : ∀ i : SimplefsInode, 2 ≤ i.dataBlockNumber.toNat → i.dataBlockNumber.toNat < 5 →
      BlockOk P i := fun i h2 h5 => ⟨h2, by omega⟩
  have hrun := vwp_runs (fun _ hJ => hJ) (fun v s => blockOk_step hN (v := v) (s := s))
    (mkfs_inodes P dev trivial (hinit _ (by decide) (by decide)) (hinit _ (by decide) (by decide))
      (hinit _ (by decide) (by decide))) h
  refine ⟨fun m hm => AllInodes.blocksExist (hrun.1 m hm), fun e m hend => ?_⟩
  rw [hend] at hrun
  exact hrun.2

theorem blocks_exist_one_create :
    BlocksExist demoPlatform (demoRun createAndList).mach.mem.toVol :=
  (blocks_exist_of_space demoPlatform (by decide) blankDevice createAndList
    ⟨.inl ⟨2, by decide, by decide, by decide, by decide +kernel⟩,
      fun _ _ _ => ⟨trivial, fun _ _ _ => ⟨trivial, fun _ _ _ => trivial⟩⟩⟩).1 _ (demoRun_mem _)

/-- `mkfs` marks blocks free that the device of 16 blocks does not have: the
fourteenth create stores the block number 16. -/
theorem block_past_end :
    ∃ m ∈ states demoPlatform (fillRoot 14) (mount demoPlatform (mkfsImage blankDevice)),
      ¬ BlocksExist demoPlatform m.mem.toVol := by
  refine ⟨_, demoRun_mem (fillRoot 14), fun h => ?_⟩
  obtain ⟨hk, hblk⟩ : 16 < (demoRun (fillRoot 14)).mach.mem.cache.count.toNat ∧
      16 ≤ ((demoRun (fillRoot 14)).mach.mem.cache.slot 16).dataBlockNumber.toNat := by
    decide +kernel
  exact absurd (h.1 16 hk) (Nat.not_lt.mpr hblk)

end Lkm.Simplefs
