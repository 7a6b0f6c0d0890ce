import Lkm.Simplefs.Logic.Create

/-!
# The two tables of an image

What the inode table and the bitmap have to agree on before any create can be
trusted (`Tables`): distinct numbers and blocks, and free bits for blocks that
nobody owns. `Tables.congr` covers every update that leaves the numbers and
blocks of the table alone, `Tables.append` the one that does not.
-/

namespace Lkm.Simplefs

open Base

/-- The parts of an inode that no call changes once it exists. -/
structure SimplefsInode.Same (i j : SimplefsInode) : Prop where
  number : i.inodeNo = j.inodeNo
  block : i.dataBlockNumber = j.dataBlockNumber
  mode : i.mode = j.mode

namespace SimplefsInode.Same

theorem refl (i : SimplefsInode) : Same i i := ⟨rfl, rfl, rfl⟩

theorem symm {i j : SimplefsInode} (h : Same i j) : Same j i :=
  ⟨h.number.symm, h.block.symm, h.mode.symm⟩

theorem trans {i j k : SimplefsInode} (h : Same i j) (h' : Same j k) : Same i k :=
  ⟨h.number.trans h'.number, h.block.trans h'.block, h.mode.trans h'.mode⟩

theorem bump (i : SimplefsInode) : Same i.bump i := ⟨rfl, rfl, rfl⟩

end SimplefsInode.Same

/-- Table and bitmap of an image whose data blocks lie in `[2, hi)` as far as the
bitmap is concerned. -/
structure Tables (hi : Nat) (img : Image) : Prop where
  number_le : ∀ k, k < img.count.toNat → (img.slot k).inodeNo.toNat ≤ img.count.toNat + 7
  number_inj : ∀ j k, j < img.count.toNat → k < img.count.toNat →
    (img.slot j).inodeNo = (img.slot k).inodeNo → j = k
  block_ge : ∀ k, k < img.count.toNat → 2 ≤ (img.slot k).dataBlockNumber.toNat
  block_inj : ∀ j k, j < img.count.toNat → k < img.count.toNat →
    (img.slot j).dataBlockNumber = (img.slot k).dataBlockNumber → j = k
  free_range : ∀ b, img.free.getLsbD b = true → 2 ≤ b ∧ b < hi
  free_unowned : ∀ b k, img.free.getLsbD b = true → k < img.count.toNat →
    (img.slot k).dataBlockNumber.toNat ≠ b

namespace Tables

variable {hi : Nat} {img img' : Image}

/-- Same numbers, same blocks, and nothing new is free. -/
theorem congr (h : Tables hi img) (hcount : img'.count = img.count)
    (hslot : ∀ k, k < img.count.toNat → (img'.slot k).Same (img.slot k))
    (hfree : ∀ b, img'.free.getLsbD b = true → img.free.getLsbD b = true) : Tables hi img' := by
  refine ⟨fun k hk => ?_, fun j k hj hk hno => ?_, fun k hk => ?_, fun j k hj hk hblk => ?_,
    fun b hb => h.free_range b (hfree b hb), fun b k hb hk => ?_⟩ <;> rw [hcount] at *
  · rw [(hslot k hk).number]
    exact h.number_le k hk
  · rw [(hslot j hj).number, (hslot k hk).number] at hno
    exact h.number_inj j k hj hk hno
  · rw [(hslot k hk).block]
    exact h.block_ge k hk
  · rw [(hslot j hj).block, (hslot k hk).block] at hblk
    exact h.block_inj j k hj hk hblk
  · rw [(hslot k hk).block]
    exact h.free_unowned b k (hfree b hb) hk

/-- One more inode, with the next number and a block nobody owned. -/
theorem append (h : Tables hi img) (hlt : img.count.toNat < 64)
    (hcount : img'.count = img.count + 1)
    (hslot : ∀ k, k < img.count.toNat → (img'.slot k).Same (img.slot k))
    (hno : (img'.slot img.count.toNat).inodeNo.toNat = img.count.toNat + 8)
    (hge : 2 ≤ (img'.slot img.count.toNat).dataBlockNumber.toNat)
    (hunowned : ∀ k, k < img.count.toNat → (img.slot k).dataBlockNumber.toNat ≠
      (img'.slot img.count.toNat).dataBlockNumber.toNat)
    (hfree : ∀ b, img'.free.getLsbD b = true →
      img.free.getLsbD b = true ∧ b ≠ (img'.slot img.count.toNat).dataBlockNumber.toNat) :
    Tables hi img' := by
  have hcount' : img'.count.toNat = img.count.toNat + 1 := by
    rw [hcount]
    bv_omega
  obtain ⟨hle, hinj, hge', hblkinj, hrange, hfree'⟩ := h
  generalize img.count.toNat = c at *
  have hnew : ∀ k, k < c → (img'.slot k).inodeNo.toNat ≤ c + 7 := by
    intro k hk
    rw [(hslot k hk).number]
    exact hle k hk
  -- a slot of the longer table is an old one or the last
  have hcases : ∀ k, k < c + 1 → k < c ∨ k = c := by omega
  refine ⟨fun k hk => ?_, fun j k hj hk hno' => ?_, fun k hk => ?_, fun j k hj hk hblk => ?_,
    fun b hb => hrange b (hfree b hb).1, fun b k hb hk => ?_⟩ <;> rw [hcount'] at *
  · rcases hcases k hk with hold | hlast
    · have := hnew k hold
      omega
    · rw [hlast]
      omega
  · have hno'' := congrArg BitVec.toNat hno'
    rcases hcases j hj with hj' | rfl <;> rcases hcases k hk with hk' | rfl
    · rw [(hslot j hj').number, (hslot k hk').number] at hno'
      exact hinj j k hj' hk' hno'
    · have := hnew j hj'
      omega
    · have := hnew k hk'
      omega
    · rfl
  · rcases hcases k hk with hold | rfl
    · rw [(hslot k hold).block]
      exact hge' k hold
    · exact hge
  · have hblk' := congrArg BitVec.toNat hblk
    rcases hcases j hj with hj' | rfl <;> rcases hcases k hk with hk' | rfl
    · rw [(hslot j hj').block, (hslot k hk').block] at hblk
      exact hblkinj j k hj' hk' hblk
    · rw [(hslot j hj').block] at hblk'
      exact absurd hblk' (hunowned j hj')
    · rw [(hslot k hk').block] at hblk'
      exact absurd hblk'.symm (hunowned k hk')
    · rfl
  · obtain ⟨hb', hne⟩ := hfree b hb
    rcases hcases k hk with hold | rfl
    · rw [(hslot k hold).block]
      exact hfree' b k hb' hold
    · exact Ne.symm hne

/-- No number is cut off by an `int`. -/
theorem asInt_number (h : Tables hi img) (hcount : img.count.toNat ≤ 128) {k : Nat}
    (hk : k < img.count.toNat) : asInt (img.slot k).inodeNo = (img.slot k).inodeNo := by
  have hle := h.number_le k hk
  exact asInt_eq (by omega)

end Tables

/-! ## What a create allocates -/

section Allocate

variable {hi : Nat} {P : Platform} {v : Vol}

/-- The allocator returns a block of the bitmap's range that nobody owns. -/
theorem Tables.freeIndex (h : Tables hi v.cache) (hhi : hi ≤ 31) (hfound : v.freeIndex P ≠ 64) :
    v.freeIndex P < hi ∧
      ∀ k, k < v.cache.count.toNat → (v.cache.slot k).dataBlockNumber.toNat ≠ v.freeIndex P := by
  rcases Vol.freeIndex_cases P hhi h.free_range with ⟨hnone, -⟩ | ⟨hlt, hbit⟩
  · exact absurd hnone hfound
  · exact ⟨hlt, fun k hk => h.free_unowned _ k hbit hk⟩

/-- The bits left after the block was taken. -/
theorem Tables.taken (h : Tables hi v.cache) (hhi : hi ≤ 31) (hfound : v.freeIndex P ≠ 64) {b : Nat}
    (hb : (v.cache.free &&& ~~~bitMask P (v.freeIndex P)).getLsbD b = true) :
    v.cache.free.getLsbD b = true ∧ b ≠ v.freeIndex P := by
  have hlt := (h.freeIndex hhi hfound).1
  rw [getLsbD_clear P _ (by omega)] at hb
  simpa using hb

theorem newInode_block (P : Platform) (v : Vol) (mode : U32) (slab : SimplefsInode) :
    (newInode P v mode slab).dataBlockNumber.toNat = v.freeIndex P := by
  have hle := Vol.freeIndex_le P v
  show (BitVec.ofNat 64 (v.freeIndex P)).toNat = _
  rw [BitVec.toNat_ofNat]
  omega

theorem newInode_number (P : Platform) {v : Vol} (hlt : v.cache.count.toNat < 64) (mode : U32)
    (slab : SimplefsInode) : (newInode P v mode slab).inodeNo.toNat = v.cache.count.toNat + 8 := by
  show (v.cache.count + 10 - 3 + 1).toNat = _
  bv_omega

end Allocate

end Lkm.Simplefs
