import Lkm.Simplefs.Ready.Basic

/-!
# Mounting keeps the tree

Unmounting may lose what is in a buffer that is not dirty and differs from the device.
Between two calls these are data blocks of files only, so the tree that is mounted again
is the one that was there.
-/

namespace Lkm.Simplefs

open Base

/-- A tree-shaped image, mounted. -/
theorem TreeShaped.mounted {N : Nat} {img : Image} (ht : TreeShaped N img) :
    ∃ i, (Vol.ofImage img).getInode simplefsRootdirInodeNumber = .ok (some i) ∧
      Ready N ((Vol.ofImage img).dAdd [] ⟨simplefsRootdirInodeNumber, sIfdir, some .dir, some i⟩) := by
  obtain ⟨k, hk, hno, hdir⟩ := ht.root
  have hget : (Vol.ofImage img).getInode simplefsRootdirInodeNumber = .ok (some (img.slot k)) := by
    apply Vol.getInode_eq (v := Vol.ofImage img) (Nat.le_trans ht.count_le (by decide)) hk hno
    intro i hi heq
    have hi' : i < img.count.toNat := by omega
    have := ht.number_inj i k hi' hk (heq.trans hno.symm)
    omega
  refine ⟨img.slot k, hget, ?_⟩
  constructor
  case shaped => exact ht
  case coherent => exact .mounted ht.tables ht.linked hget
  case root => exact ⟨img.slot k, rfl⟩
  case below =>
    intro n p d hd
    rw [Vol.dAdd_dcache_ne _ _ (by simp)] at hd
    cases hd
  case synced =>
    intro b hb
    exact absurd rfl hb

/-! ## Unmounting -/

namespace Ready

variable {N : Nat} {v : Vol}

/-- Unmounting loses nothing but what is in data blocks of files. -/
theorem unmount_cache (h : Ready N v) (dropped : Nat → Bool) {b : Nat}
    (hb : ∀ k, k < v.cache.count.toNat → sIsdir (v.cache.slot k).mode = false →
      (v.cache.slot k).dataBlockNumber.toNat ≠ b) :
    (v.unmount dropped).cache b = v.cache b := by
  have hpast : v.past b = [] := by
    by_contra hne
    obtain ⟨k, hk, hfile, hblk⟩ := h.synced b hne
    exact hb k hk hfile hblk
  show (if _ then v.device b else v.cache b) = v.cache b
  unfold Vol.device
  rw [hpast]
  simp

theorem unmount_low (h : Ready N v) (dropped : Nat → Bool) {b : Nat} (hb : b < 2) :
    (v.unmount dropped).cache b = v.cache b := by
  apply h.unmount_cache
  intro k hk _ hblk
  have := (h.shaped.block_range k hk).1
  omega

theorem unmount_slot (h : Ready N v) (dropped : Nat → Bool) (k : Nat) :
    (v.unmount dropped).cache.slot k = v.cache.slot k := by
  unfold Image.slot
  rw [h.unmount_low dropped (by decide)]

theorem unmount_count (h : Ready N v) (dropped : Nat → Bool) :
    (v.unmount dropped).cache.count = v.cache.count := by
  unfold Image.count
  rw [h.unmount_low dropped (by decide)]

theorem unmount_free (h : Ready N v) (dropped : Nat → Bool) :
    (v.unmount dropped).cache.free = v.cache.free := by
  unfold Image.free
  rw [h.unmount_low dropped (by decide)]

theorem unmount_agrees (h : Ready N v) (dropped : Nat → Bool) :
    v.cache.Agrees (v.unmount dropped).cache := by
  refine ⟨h.unmount_count dropped, ?_, ?_, ?_⟩
  · intro k _
    rw [h.unmount_slot]
    exact .refl _
  · intro k _ _
    rw [h.unmount_slot]
  · intro a r hl
    have hblock : (v.unmount dropped).cache (v.cache.slot a).dataBlockNumber.toNat =
        v.cache (v.cache.slot a).dataBlockNumber.toNat := by
      apply h.unmount_cache
      intro k hk hfile hblk
      obtain rfl := h.shaped.block_inj k a hk hl.lt (BitVec.eq_of_toNat_eq hblk)
      cases hfile.symm.trans hl.isdir
    rw [hblock]
    exact .refl _ _

theorem unmount_shaped (h : Ready N v) (dropped : Nat → Bool) :
    TreeShaped N (v.unmount dropped).cache :=
  (h.unmount_agrees dropped).treeShaped h.shaped fun _ hb => h.unmount_free dropped ▸ hb

/-- The tree is the same. -/
theorem unmount_tree (h : Ready N v) (dropped : Nat → Bool) :
    (v.unmount dropped).cache.tree = v.cache.tree := by
  have hresolve := (h.unmount_agrees dropped).resolve_eq h.shaped.toWellFormed
    (h.unmount_shaped dropped).toWellFormed
  unfold Image.tree
  rw [h.unmount_count, h.unmount_free]
  simp only [hresolve, h.unmount_slot]

/-- Unmounting and mounting again. -/
theorem remount (h : Ready N v) {P : Platform} {w : Outside} (hN : 2 ≤ P.nrBlocks) :
    vwp (fun u => TreeShaped N u.cache) w (fun _ => False) (Call.prog P .remount)
      (fun r v' => Ready N v' ∧ v.cache.tree.Next (w, .remount) r v'.cache.tree) v := by
  have hshaped := h.unmount_shaped (w.answer .dropped)
  obtain ⟨i, hget, hready⟩ := hshaped.mounted
  apply vwp_bind
  apply vwp_ask
  apply vwp_bind
  apply vwp_updateVol hshaped
  apply vwp_bind
  apply vwp_simplefsFillSuper hshaped
  · intro hsmall
    omega
  · intro e he
    cases hget.symm.trans he
  · intro r hr
    cases hget.symm.trans hr
    refine ⟨hshaped, vwp_pure ⟨hready, ?_⟩⟩
    show Tree.Next _ _ _ (v.unmount _).cache.tree
    rw [h.unmount_tree]
    exact .remount

end Ready

end Lkm.Simplefs
