import Lkm.Simplefs.Bounds

/-!
# Who owns a block of a freshly formatted device

`mkfs` means to reserve its five blocks, but clears the single bit `NR_BLOCK` of
`free_blocks` instead: the blocks of the root directory and of the two files are
marked free although they are in use. `blocks_never_exclusive` says that this is
never repaired: as long as nothing has been created block 3 is owned and free,
and the first create hands out the root directory's block 2 a second time.
-/

namespace Lkm.Simplefs

open Base

/-- Every stored inode owns its data block alone: no two share one, none owns the
super block or the inode store, and no owned block is marked free. -/
structure ExclusiveBlocks (v : Vol) : Prop where
  distinct : ∀ j k, j < v.cache.count.toNat → k < v.cache.count.toNat → j ≠ k →
    (v.cache.slot j).dataBlockNumber ≠ (v.cache.slot k).dataBlockNumber
  data : ∀ k, k < v.cache.count.toNat → 2 ≤ (v.cache.slot k).dataBlockNumber.toNat
  used : ∀ k, k < v.cache.count.toNat →
    v.cache.free.getLsbD (v.cache.slot k).dataBlockNumber.toNat = false

/-- Creates and writes, and the lookups that bring their files into memory, all
without an interrupted wait. -/
def CreatesAndWrites (_ : Vol) (s : Step) : Prop :=
  s.1.Uninterrupted ∧
    match s.2 with
    | .create .. | .mkdir .. | .write .. | .lookup .. => True
    | _ => False

/-- The blocks that the root directory, `Data1` and the first created object have. -/
def Misplaced (i : SimplefsInode) : Prop :=
  2 ≤ i.dataBlockNumber.toNat ∧ (i.inodeNo = 1 → i.dataBlockNumber = 2) ∧
    (i.inodeNo = 2 → i.dataBlockNumber = 3) ∧ (i.inodeNo = 11 → i.dataBlockNumber = 2)

/-- Before the first create, the block of `Data1` is free. -/
def Data1Free (count free : U64) : Prop := count = 3 → free.getLsbD 3 = true

/-- Between two calls, so is the block of the root directory. -/
def RootAndData1Free (count free : U64) : Prop :=
  count = 3 → free.getLsbD 2 = true ∧ free.getLsbD 3 = true

theorem Inodes.not_exclusive {v : Vol} (h : Inodes Misplaced Data1Free v) : ¬ ExclusiveBlocks v := by
  intro hex
  have hge := h.count_ge
  have hblk : ∀ k, k < v.cache.count.toNat → Misplaced (v.cache.slot k) := h.stored
  by_cases h3 : v.cache.count.toNat = 3
  · -- slot 1 is `Data1` in block 3
    have hno : (v.cache.slot 1).inodeNo = 2 := h.numbered 1 (by omega)
    have hused := hex.used 1 (by omega)
    rw [(hblk 1 (by omega)).2.2.1 hno] at hused
    have hfree := h.super (by bv_omega)
    rw [show (3 : U64).toNat = 3 from rfl, hfree] at hused
    cases hused
  · -- slots 0 and 3, the root directory and the first created object, share block 2
    have hroot : (v.cache.slot 0).inodeNo = 1 := h.numbered 0 (by omega)
    have hfirst : (v.cache.slot 3).inodeNo = 11 := h.numbered 3 (by omega)
    apply hex.distinct 0 3 (by omega) (by omega) (by omega)
    rw [(hblk 0 (by omega)).2.1 hroot, (hblk 3 (by omega)).2.2.2 hfirst]

/-- On the first create the allocator's loop stops at once. -/
theorem freeIndex_eq_two {P : Platform} {v : Vol} (h : v.cache.free.getLsbD 2 = true) :
    v.freeIndex P = 2 := by
  have hge := Vol.freeIndex_ge P v
  by_contra hne
  have hmin := Vol.freeIndex_min (P := P) (v := v) (Nat.le_refl 2) (by omega)
  rw [(blockIsFree_iff P _ (by omega)).mpr h] at hmin
  cases hmin

theorem misplaced_create (P : Platform) {v : Vol} {w : Outside} (hw : w.Uninterrupted)
    (h : Inodes Misplaced RootAndData1Free v) {dir : Path} {name : Name} {mode : U32} :
    vwp (Inodes Misplaced Data1Free) w (fun _ => True)
      (vfsCreate dir name (simplefsCreateFsObject P dir name mode))
      (fun _ v' => Inodes Misplaced RootAndData1Free v') v := by
  have hge := h.count_ge
  have hle := h.count_le
  have htwo : v.cache.count = 3 → v.freeIndex P = 2 := fun h3 => freeIndex_eq_two (h.super h3).1
  refine h.vwp_create (fun i hi => hi.1) ⟨fun _ => trivial, fun _ => trivial, fun _ _ _ => trivial,
    fun _ _ _ _ _ => trivial, ?_, fun par hpar _ => h.loaded dir par hpar, fun _ _ hB h3 => (hB h3).2,
    ?_, ?_, ?_⟩
  · intro slab hi
    have hblk := newInode_block P v mode slab
    have hno : (newInode P v mode slab).inodeNo = v.cache.count + 10 - 3 + 1 := rfl
    refine ⟨hblk ▸ Vol.freeIndex_ge P v, fun h1 => ?_, fun h2 => ?_, fun h11 => ?_⟩
    · bv_omega
    · bv_omega
    · have h3 : v.cache.count = 3 := by bv_omega
      rw [htwo h3] at hblk
      bv_omega
  · intro _ h3
    rw [htwo h3, getLsbD_clear P _ (by omega), (h.super h3).2]
    rfl
  · intro _ hskip
    rcases hskip with hs | hs <;> rw [hw] at hs <;> cases hs
  · intro _ h3
    bv_omega

theorem misplaced_step (P : Platform) {v : Vol} {s : Step}
    (h : Inodes Misplaced RootAndData1Free v) (hs : CreatesAndWrites v s) :
    vwp (Inodes Misplaced Data1Free) s.1 (fun _ => True) (s.2.prog P)
      (fun _ v' => Inodes Misplaced RootAndData1Free v') v := by
  obtain ⟨w, c⟩ := s
  obtain ⟨hw, hc⟩ := hs
  have hweaken : ∀ u, Inodes Misplaced RootAndData1Free u → Inodes Misplaced Data1Free u :=
    fun u hu => hu.mono fun hB h3 => (hB h3).2
  cases c with
  | create dir name mode => exact misplaced_create P hw h
  | mkdir dir name mode => exact misplaced_create P hw h
  | lookup dir name =>
      exact vwp_weaken hweaken (h.vwp_lookup (fun _ => trivial) trivial trivial
        (fun _ _ _ => trivial) fun _ _ _ _ _ => trivial)
  | write file buf len pos =>
      exact vwp_weaken hweaken (h.vwp_write (fun i hi => hi.1) (fun _ => trivial) trivial
        (fun _ _ _ _ _ => trivial) fun ino hino _ => h.loaded file ino hino)
  | iterate dir ctx => exact hc.elim
  | read file len pos => exact hc.elim
  | remount => exact hc.elim

/-- On a freshly formatted device no state of any run of creates and writes has
exclusive block ownership, not even the first. -/
theorem blocks_never_exclusive (P : Platform) (dev : Buf) (steps : List Step)
    (h : Issues P CreatesAndWrites steps (mount P (mkfsImage dev))) :
    ∀ m ∈ states P steps (mount P (mkfsImage dev)), ¬ ExclusiveBlocks m.mem.toVol := by
  have hinit : Inodes Misplaced RootAndData1Free (mount P (mkfsImage dev)).mem.toVol :=
    mkfs_inodes P dev (fun _ => by decide) ⟨by decide, by decide, by decide, by decide⟩
      ⟨by decide, by decide, by decide, by decide⟩ ⟨by decide, by decide, by decide, by decide⟩
  have hrun := vwp_runs (fun _ hJ => hJ.mono fun hB h3 => (hB h3).2)
    (fun v s => misplaced_step P (v := v) (s := s)) hinit h
  exact fun m hm => (hrun.1 m hm).not_exclusive

/-- A file is created in the root directory. -/
def createOne : List Step := [(calm, .create [] nameA sIfreg)]

theorem blocks_never_exclusive_one_create :
    Issues demoPlatform CreatesAndWrites createOne (mount demoPlatform (mkfsImage blankDevice)) ∧
      (ExclusiveBlocks (demoRun createOne).mach.mem.toVol ↔ False) := by
  have h : Issues demoPlatform CreatesAndWrites createOne
      (mount demoPlatform (mkfsImage blankDevice)) :=
    ⟨⟨fun _ => rfl, trivial⟩, fun _ _ _ => trivial⟩
  exact ⟨h, iff_false_intro (blocks_never_exclusive demoPlatform blankDevice createOne h _
    (demoRun_mem createOne))⟩

/-- The created file shares block 2 with the root directory. -/
theorem first_create_takes_root_block :
    ∃ m ∈ states demoPlatform createOne (mount demoPlatform (mkfsImage blankDevice)),
      ¬ ExclusiveBlocks m.mem.toVol := by
  refine ⟨_, demoRun_mem createOne, fun h => ?_⟩
  obtain ⟨hk, hsame⟩ : 3 < (demoRun createOne).mach.mem.cache.count.toNat ∧
      ((demoRun createOne).mach.mem.cache.slot 0).dataBlockNumber =
        ((demoRun createOne).mach.mem.cache.slot 3).dataBlockNumber := by
    decide +kernel
  exact h.distinct 0 3 (by omega) hk (by omega) hsame

end Lkm.Simplefs
