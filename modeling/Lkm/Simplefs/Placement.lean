import Mathlib.Data.List.Nodup
import Lkm.Simplefs.Format
import Lkm.Simplefs.Logic.Run

/-!
# Where `mkfs` puts an inode, and where the driver looks for it

`write_inode` seeks to a place computed from the inode's number, counted from 1;
`simplefs_get_inode` walks the slots from the first one, up to `inodes_count`. In the block
of the inode store the place of number `no` is slot `no - 1` (`blocksOf_writeInode`), so
that inodes numbered from 1 to `n` fill the slots that are walked, in whatever order they
are written.
-/

namespace Lkm.Simplefs

open Base

/-- `write_inode(fd, i, B_INODE)` for each of the inodes. -/
def Mkfs.writeInodes (dev : Buf) (inodes : List SimplefsInode) : Buf :=
  inodes.foldl (fun dev ino => writeInode dev ino .inode) dev

/-- The inodes are numbered from 1 to `n`, in any order. -/
def Numbered (n : Nat) (inodes : List SimplefsInode) : Prop :=
  (inodes.map fun ino => ino.inodeNo.toNat).Perm ((List.range n).map (· + 1))

section Numbers

variable {n : Nat} {inodes : List SimplefsInode} (h : Numbered n inodes)

include h

theorem Numbered.range {ino : SimplefsInode} (hino : ino ∈ inodes) :
    1 ≤ ino.inodeNo.toNat ∧ ino.inodeNo.toNat ≤ n := by
  have hmem := h.mem_iff.mp (List.mem_map_of_mem hino)
  obtain ⟨i, hi, heq⟩ := List.mem_map.mp hmem
  have := List.mem_range.mp hi
  omega

theorem Numbered.exists_of_range (no : U64) (h1 : 1 ≤ no.toNat) (hn : no.toNat ≤ n) :
    ∃ ino ∈ inodes, ino.inodeNo = no := by
  have hmem : no.toNat ∈ (List.range n).map (· + 1) :=
    List.mem_map.mpr ⟨no.toNat - 1, List.mem_range.mpr (by omega), by omega⟩
  obtain ⟨ino, hino, heq⟩ := List.mem_map.mp (h.mem_iff.mpr hmem)
  exact ⟨ino, hino, BitVec.eq_of_toNat_eq heq⟩

theorem Numbered.nodup : (inodes.map fun ino => ino.inodeNo.toNat).Nodup := by
  apply h.nodup_iff.mpr
  exact List.Nodup.map (fun _ _ hij => Nat.add_right_cancel hij) List.nodup_range

end Numbers

/-! ## One write -/

section Write

variable {dev : Buf} {ino : SimplefsInode} (h1 : 1 ≤ ino.inodeNo.toNat)

include h1

theorem toNat_sub_one : (ino.inodeNo - 1).toNat = ino.inodeNo.toNat - 1 :=
  BitVec.toNat_sub_of_le (BitVec.le_def.mpr h1)

/-- A write stays in the 32 bytes of its slot. -/
theorem Mkfs.writeInode_frame {i : Nat} (h : Mkfs.writeInode dev ino .inode i ≠ dev i) :
    4096 + 32 * (ino.inodeNo.toNat - 1) ≤ i ∧ i < 4096 + 32 * (ino.inodeNo.toNat - 1) + 32 := by
  by_contra hout
  apply h
  apply put_frame
  show i < 1 * 4096 + (ino.inodeNo - 1).toNat * 32 ∨
    1 * 4096 + (ino.inodeNo - 1).toNat * 32 + ino.toBytes.length ≤ i
  rw [toNat_sub_one h1, SimplefsInode.toBytes_length]
  unfold sizeofInode
  omega

/-- In the block of the inode store it fills one slot. -/
theorem blocksOf_writeInode : blocksOf (Mkfs.writeInode dev ino .inode) 1 =
    putInode (blocksOf dev 1) (ino.inodeNo.toNat - 1) ino := by
  funext i
  show put dev (1 * 4096 + (ino.inodeNo - 1).toNat * 32) ino.toBytes (1 * 4096 + i) =
    put (fun i => dev (1 * 4096 + i)) (32 * (ino.inodeNo.toNat - 1)) ino.toBytes i
  rw [toNat_sub_one h1]
  unfold put
  rw [show 1 * 4096 + i - (1 * 4096 + (ino.inodeNo.toNat - 1) * 32) =
    i - 32 * (ino.inodeNo.toNat - 1) by omega]
  congr 1
  simp only [eq_iff_iff]
  omega

/-- The super block is another block. -/
theorem count_writeInode : (blocksOf (Mkfs.writeInode dev ino .inode)).count = (blocksOf dev).count := by
  apply getWord_congr
  intro i _ hi
  by_contra hne
  have hrange := Mkfs.writeInode_frame h1 hne
  unfold simplefsDefaultBlockSize at hrange
  omega

end Write

/-! ## All of them -/

section Writes

variable (dev : Buf) {inodes : List SimplefsInode}

theorem count_writeInodes (h1 : ∀ ino ∈ inodes, 1 ≤ ino.inodeNo.toNat) :
    (blocksOf (Mkfs.writeInodes dev inodes)).count = (blocksOf dev).count := by
  induction inodes generalizing dev with
  | nil => rfl
  | cons ino inodes ih =>
      have hrest := ih (Mkfs.writeInode dev ino .inode) fun i hi => h1 i (by simp [hi])
      exact hrest.trans (count_writeInode (h1 ino (by simp)))

/-- A slot whose number is not among the inodes keeps its contents. -/
theorem slot_writeInodes_ne (h1 : ∀ ino ∈ inodes, 1 ≤ ino.inodeNo.toNat) {k : Nat}
    (hk : k + 1 ∉ inodes.map fun ino => ino.inodeNo.toNat) :
    (blocksOf (Mkfs.writeInodes dev inodes)).slot k = (blocksOf dev).slot k := by
  induction inodes generalizing dev with
  | nil => rfl
  | cons ino inodes ih =>
      rw [List.map_cons, List.mem_cons, not_or] at hk
      have hino := h1 ino (by simp)
      have hrest := ih (Mkfs.writeInode dev ino .inode) (fun i hi => h1 i (by simp [hi])) hk.2
      refine hrest.trans ?_
      rw [Image.slot, blocksOf_writeInode hino, inodeAt_putInode_ne ino (by omega), Image.slot]

/-- The slot of an inode holds it, when no other inode has its number. -/
theorem slot_writeInodes (h1 : ∀ ino ∈ inodes, 1 ≤ ino.inodeNo.toNat)
    (hnodup : (inodes.map fun ino => ino.inodeNo.toNat).Nodup) {ino : SimplefsInode}
    (hino : ino ∈ inodes) :
    (blocksOf (Mkfs.writeInodes dev inodes)).slot (ino.inodeNo.toNat - 1) = ino := by
  induction inodes generalizing dev with
  | nil => cases hino
  | cons first inodes ih =>
      rw [List.map_cons, List.nodup_cons] at hnodup
      have hrest : ∀ i ∈ inodes, 1 ≤ i.inodeNo.toNat := fun i hi => h1 i (by simp [hi])
      have hpos := h1 ino hino
      rcases List.mem_cons.mp hino with rfl | hin
      · -- nothing after it comes back to its slot
        have hkept : (blocksOf (Mkfs.writeInodes (Mkfs.writeInode dev ino .inode) inodes)).slot
            (ino.inodeNo.toNat - 1) =
            (blocksOf (Mkfs.writeInode dev ino .inode)).slot (ino.inodeNo.toNat - 1) := by
          apply slot_writeInodes_ne _ hrest
          rw [Nat.sub_add_cancel hpos]
          exact hnodup.1
        refine hkept.trans ?_
        rw [Image.slot, blocksOf_writeInode hpos, inodeAt_putInode_self]
      · exact ih _ hrest hnodup.2 hin

end Writes

/-! ## Looking for them -/

section Found

variable {n : Nat} {dev : Buf} {inodes : List SimplefsInode} {v : Vol} (hn : n ≤ 128)
  (hcount : (blocksOf dev).count.toNat = n) (hnumbered : Numbered n inodes)
  (hv : v.cache = blocksOf (Mkfs.writeInodes dev inodes))

include hcount hnumbered hv in
theorem placed_count : v.cache.count.toNat = n := by
  rw [hv, count_writeInodes dev fun ino hino => (hnumbered.range hino).1, hcount]

include hnumbered hv

theorem placed_slot {ino : SimplefsInode} (hino : ino ∈ inodes) :
    v.cache.slot (ino.inodeNo.toNat - 1) = ino := by
  rw [hv]
  exact slot_writeInodes dev (fun ino hino => (hnumbered.range hino).1) hnumbered.nodup hino

include hn

/-- Slot `k` of the table holds number `k + 1`. -/
theorem placed_number {k : Nat} (hk : k < n) : (v.cache.slot k).inodeNo.toNat = k + 1 := by
  have hno : (BitVec.ofNat 64 (k + 1)).toNat = k + 1 := by
    rw [BitVec.toNat_ofNat]
    omega
  obtain ⟨ino, hino, heq⟩ := hnumbered.exists_of_range (BitVec.ofNat 64 (k + 1))
    (by omega) (by omega)
  have hslot := placed_slot hnumbered hv hino
  rw [heq, hno, Nat.add_sub_cancel] at hslot
  rw [hslot, heq, hno]

include hcount

theorem placed_getInode {ino : SimplefsInode} (hino : ino ∈ inodes) :
    v.getInode ino.inodeNo = .ok (some ino) := by
  have hrange := hnumbered.range hino
  have htable := placed_count hcount hnumbered hv
  have hslot := placed_slot hnumbered hv hino
  have hmin : ∀ i, i < ino.inodeNo.toNat - 1 → (v.cache.slot i).inodeNo ≠ ino.inodeNo := by
    intro i hi heq
    have := placed_number hn hnumbered hv (k := i) (by omega)
    rw [heq] at this
    omega
  rw [Vol.getInode_eq (by omega) (by omega) (by rw [hslot]) hmin, hslot]

theorem placed_getInode_none {no : U64} (hout : no.toNat < 1 ∨ n < no.toNat) :
    v.getInode no = .ok none := by
  have htable := placed_count hcount hnumbered hv
  obtain ⟨r, hr⟩ := Vol.getInode_total (v := v) (by omega) no
  cases r with
  | none => exact hr
  | some ino =>
      obtain ⟨j, hj, rfl, hno, -⟩ := Vol.getInode_some hr
      have := placed_number hn hnumbered hv (k := j) (by omega)
      rw [hno] at this
      omega

end Found

/-- Inodes numbered from 1 to `n ≤ 128`, written in any order to a device whose super block
counts `n` of them: the driver gets each by its number and none by another number, and no
write leaves the 32 bytes of its own slot. -/
theorem placed_inodes_found (P : Platform) (w : Outside) (m : Machine) (n : Nat) (dev : Buf)
    (inodes : List SimplefsInode) (hP : 2 ≤ P.nrBlocks) (hn : n ≤ 128)
    (hcount : (blocksOf dev).count.toNat = n) (hnumbered : Numbered n inodes)
    (hm : m.mem.cache = blocksOf (Mkfs.writeInodes dev inodes)) :
    (∀ no : U64, 1 ≤ no.toNat → no.toNat ≤ n → ∃ ino ∈ inodes, ino.inodeNo = no ∧
      (simplefsGetInode P no).run w 0 m = .done (some ino) m) ∧
    (∀ no : U64, no.toNat < 1 ∨ n < no.toNat → (simplefsGetInode P no).run w 0 m = .done none m) ∧
    (∀ ino ∈ inodes, ∀ dev' i, Mkfs.writeInode dev' ino .inode i ≠ dev' i →
      i / 4096 = 1 ∧ i % 4096 / 32 = ino.inodeNo.toNat - 1) := by
  refine ⟨?_, ?_, ?_⟩
  · intro no hpos hle
    obtain ⟨ino, hino, rfl⟩ := hnumbered.exists_of_range no hpos hle
    exact ⟨ino, hino, rfl, run_simplefsGetInode hP (placed_getInode hn hcount hnumbered hm hino)⟩
  · intro no hout
    exact run_simplefsGetInode hP (placed_getInode_none hn hcount hnumbered hm hout)
  · intro ino hino dev' i hne
    have hrange := hnumbered.range hino
    have hplace := Mkfs.writeInode_frame hrange.1 hne
    omega

/-- A file and the root directory, the file first. -/
def twoInodes : List SimplefsInode := [⟨sIfreg, 0, 2, 3, 12⟩, ⟨sIfdir, 0, 1, 2, 1⟩]

/-- They are written to a device of zeros whose super block counts two inodes. -/
def twoInodesMachine : Machine :=
  machineOf (.ofImage (blocksOf (Mkfs.writeInodes (setInodesCount (fun _ => 0) 2) twoInodes)))

theorem placed_two_inodes_found :
    (∃ ino ∈ twoInodes, ino.inodeNo = 2 ∧
      (simplefsGetInode demoPlatform 2).run calm 0 twoInodesMachine =
        .done (some ino) twoInodesMachine) ∧
    (simplefsGetInode demoPlatform 3).run calm 0 twoInodesMachine = .done none twoInodesMachine := by
  have hnumbered : Numbered 2 twoInodes := List.Perm.swap 1 2 []
  have hcount : (blocksOf (setInodesCount (fun _ => 0) 2)).count.toNat = 2 := by decide +kernel
  obtain ⟨hfound, hnone, -⟩ := placed_inodes_found demoPlatform calm twoInodesMachine 2 _ twoInodes
    (by decide) (by decide) hcount hnumbered rfl
  exact ⟨hfound 2 (by decide) (by decide), hnone 3 (.inr (by decide))⟩

end Lkm.Simplefs
