import Lkm.Simplefs.Logic.Write
import Lkm.Simplefs.Ready.Basic

/-!
# Writes keep the tree

A write changes the data block of one file and the size in its inode, in memory and in
the table (`Written`). The block of a file is no directory's, so no record is touched. A
write that finds the user's memory too short leaves bytes in the block that are not
synced, and no other trace.
-/

namespace Lkm.Simplefs

open Base

/-- `v'` is `v` with the size `size` for the file `p`, which is in slot `k`, and with anything
in its data block. -/
structure Written (v v' : Vol) (p : Path) (k : Nat) (size : U64) : Prop where
  count : v'.cache.count = v.cache.count
  free : v'.cache.free = v.cache.free
  slot : v'.cache.slot k = { v.cache.slot k with fileSize := size }
  others : ∀ i, i ≠ k → v'.cache.slot i = v.cache.slot i
  data : ∀ b, 2 ≤ b → b ≠ (v.cache.slot k).dataBlockNumber.toNat → v'.cache b = v.cache b
  dcache : v'.dcache = (v.setSize p size).dcache
  past : ∀ b, v'.past b ≠ [] → v.past b ≠ [] ∨ b = (v.cache.slot k).dataBlockNumber.toNat

namespace Written

variable {N : Nat} {v v' : Vol} {p : Path} {k : Nat} {size : U64}

theorem same (h : Written v v' p k size) (i : Nat) : (v'.cache.slot i).Same (v.cache.slot i) := by
  by_cases hi : i = k
  · rw [hi, h.slot]
    exact ⟨rfl, rfl, rfl⟩
  · rw [h.others i hi]
    exact .refl _

/-- A directory is not the file. -/
theorem slot_dir (h : Written v v' p k size) (hfile : sIsdir (v.cache.slot k).mode = false) {a : Nat}
    (ha : sIsdir (v.cache.slot a).mode = true) : a ≠ k ∧ v'.cache.slot a = v.cache.slot a := by
  have hne : a ≠ k := by
    rintro rfl
    cases hfile.symm.trans ha
  exact ⟨hne, h.others a hne⟩

theorem agrees (h : Written v v' p k size) (ht : TreeShaped N v.cache) (hk : k < v.cache.count.toNat)
    (hfile : sIsdir (v.cache.slot k).mode = false) : v.cache.Agrees v'.cache := by
  refine ⟨h.count, fun i _ => h.same i, ?_, ?_⟩
  · intro a _ ha
    rw [(h.slot_dir hfile ha).2]
  · intro a r hl
    have hne : (v.cache.slot a).dataBlockNumber.toNat ≠ (v.cache.slot k).dataBlockNumber.toNat := by
      intro heq
      exact (h.slot_dir hfile hl.isdir).1
        (ht.block_inj a k hl.lt hk (BitVec.eq_of_toNat_eq heq))
    rw [h.data _ (ht.block_range a hl.lt).1 hne]
    exact .refl _ _

theorem shaped (h : Written v v' p k size) (ht : TreeShaped N v.cache) (hk : k < v.cache.count.toNat)
    (hfile : sIsdir (v.cache.slot k).mode = false) : TreeShaped N v'.cache :=
  (h.agrees ht hk hfile).treeShaped ht fun _ hb => h.free ▸ hb

theorem dcache_ne (h : Written v v' p k size) {q : Path} (hq : q ≠ p) : v'.dcache q = v.dcache q := by
  rw [h.dcache]
  exact Vol.setPrivate_dcache_ne _ _ hq

theorem dcache_file (h : Written v v' p k size) {d : Inode} (hd : v.dcache p = some d)
    (hdp : d.iPrivate = some (v.cache.slot k)) :
    v'.dcache p = some { d with iPrivate := some (v'.cache.slot k) } := by
  rw [h.dcache, h.slot]
  simp [Vol.setSize, Vol.setPrivate, hd, hdp]

theorem priv_ne (h : Written v v' p k size) {q : Path} (hq : q ≠ p) : v'.priv q = v.priv q := by
  unfold Vol.priv
  rw [h.dcache_ne hq]

theorem priv_file (h : Written v v' p k size) (hp : v.priv p = some (v.cache.slot k)) :
    v'.priv p = some (v'.cache.slot k) := by
  obtain ⟨d, hd, hdp⟩ := Coherent.dcache_of_priv hp
  unfold Vol.priv
  rw [h.dcache_file hd hdp]
  rfl

/-- The inodes in memory are still copies, and still stand for their records. -/
theorem coherent (h : Written v v' p k size) (hr : Ready N v) (hk : v.cache.resolve p = some k)
    (hp : v.priv p = some (v.cache.slot k)) (hfile : sIsdir (v.cache.slot k).mode = false)
    (hroot : p ≠ []) : Coherent N v' := by
  have hlt := hr.shaped.resolve_lt hk
  have hagrees := h.agrees hr.shaped hlt hfile
  have hshaped := h.shaped hr.shaped hlt hfile
  -- a dentry has the inode number that it had
  have hentry : ∀ q d', v'.dcache q = some d' → ∃ d, v.dcache q = some d ∧
      ∀ i, d.iPrivate = some i → ∃ i', d'.iPrivate = some i' ∧ i'.inodeNo = i.inodeNo := by
    intro q d' hd'
    by_cases hq : q = p
    · subst hq
      obtain ⟨d, hd, hdp⟩ := Coherent.dcache_of_priv hp
      cases (h.dcache_file hd hdp).symm.trans hd'
      refine ⟨d, hd, ?_⟩
      intro i hi
      cases hdp.symm.trans hi
      exact ⟨_, rfl, (h.same k).number⟩
    · rw [h.dcache_ne hq] at hd'
      exact ⟨d', hd', fun i hi => ⟨i, hi, rfl⟩⟩
  constructor
  case tables => exact hshaped.tables
  case linked => exact hshaped.linked
  case copy =>
    intro q i hq
    rw [h.count]
    by_cases hqp : q = p
    · subst hqp
      cases (h.priv_file hp).symm.trans hq
      exact ⟨k, hlt, rfl⟩
    · rw [h.priv_ne hqp] at hq
      obtain ⟨x, hx, hslot⟩ := hr.coherent.copy q i hq
      refine ⟨x, hx, ?_⟩
      have hne : x ≠ k := by
        rintro rfl
        exact hqp (hr.coherent.path_inj hq hp (by rw [hslot]))
      rw [h.others x hne, hslot]
  case root =>
    intro i hi
    rw [h.priv_ne (Ne.symm hroot)] at hi
    exact hr.coherent.root i hi
  case named =>
    intro n q d' hd'
    obtain ⟨d, hd, hnumber⟩ := hentry _ d' hd'
    obtain ⟨a, r, i, hpar, hl, hname, hi, hno, hne⟩ := hr.coherent.named n q d hd
    obtain ⟨i', hi', hsame⟩ := hnumber i hi
    obtain ⟨hak, hslot⟩ := h.slot_dir hfile hl.isdir
    have hq : q ≠ p := by
      rintro rfl
      have heq : v.cache.slot a = v.cache.slot k := Option.some.inj (hpar.symm.trans hp)
      exact hak (hr.shaped.number_inj a k hl.lt hlt (by rw [heq]))
    refine ⟨a, r, i', ?_, hagrees.lists_iff.mpr hl, ?_, hi', ?_, ?_⟩
    · rw [h.priv_ne hq, hslot, hpar]
    · show filenameMatches (v'.cache.data a) r n.bytes = true
      rw [(hagrees.record hl).matches_iff]
      exact hname
    · rw [hagrees.entry_eq hl, hno, hsame]
    · rw [hsame]
      exact hne

theorem ready (h : Written v v' p k size) (hr : Ready N v) (hk : v.cache.resolve p = some k)
    (hp : v.priv p = some (v.cache.slot k)) (hfile : sIsdir (v.cache.slot k).mode = false)
    (hroot : p ≠ []) : Ready N v' := by
  have hlt := hr.shaped.resolve_lt hk
  constructor
  case shaped => exact h.shaped hr.shaped hlt hfile
  case coherent => exact h.coherent hr hk hp hfile hroot
  case root =>
    rw [h.dcache_ne (Ne.symm hroot)]
    exact hr.root
  case below =>
    intro n q d' hd'
    by_cases hq : n :: q = p
    · obtain ⟨d, hd, hdp⟩ := Coherent.dcache_of_priv hp
      rw [hq, h.dcache_file hd hdp] at hd'
      cases hd'
      rw [← hq] at hd
      obtain ⟨i, rfl⟩ := hr.below n q d hd
      cases hdp
      refine ⟨v'.cache.slot k, ?_⟩
      rw [h.slot]
      rfl
    · rw [h.dcache_ne hq] at hd'
      exact hr.below n q d' hd'
  case synced =>
    intro b hb
    rw [h.count]
    rcases h.past b hb with hold | rfl
    · obtain ⟨x, hx, hmode, hblk⟩ := hr.synced b hold
      refine ⟨x, hx, ?_, ?_⟩
      · rw [(h.same x).mode, hmode]
      · rw [(h.same x).block, hblk]
    · refine ⟨k, hlt, ?_, ?_⟩
      · rw [(h.same k).mode, hfile]
      · rw [(h.same k).block]

theorem tree (h : Written v v' p k size) (ht : TreeShaped N v.cache) (hk : v.cache.resolve p = some k)
    (hfile : sIsdir (v.cache.slot k).mode = false) : v'.cache.tree = v.cache.tree.resize p size := by
  have hlt := ht.resolve_lt hk
  have hresolve := (h.agrees ht hlt hfile).resolve_eq ht.toWellFormed
    (h.shaped ht hlt hfile).toWellFormed
  have hnode : v'.cache.tree.node = (v.cache.tree.resize p size).node := by
    funext q
    show (v'.cache.resolve q).map _ = if q = p then (v.cache.tree.node q).map _ else _
    rw [hresolve]
    by_cases hq : q = p
    · subst hq
      rw [if_pos rfl, TreeShaped.node_iff.mpr ⟨k, hk, rfl⟩, hk]
      show some (v'.cache.slot k).node = _
      rw [h.slot]
      rfl
    · rw [if_neg hq]
      show _ = (v.cache.resolve q).map _
      cases hx : v.cache.resolve q with
      | none => rfl
      | some x =>
          have hne : x ≠ k := by
            rintro rfl
            exact hq (ht.resolve_inj hx hk)
          show some (v'.cache.slot x).node = some _
          rw [h.others x hne]
  have hobjects : v'.cache.count.toNat = v.cache.count.toNat := by rw [h.count]
  have hfree := h.free
  show Tree.mk v'.cache.tree.node v'.cache.count.toNat (freeBits v'.cache.free) = _
  rw [hnode, hobjects, hfree]
  rfl

end Written

/-- Setting the size that the file has. -/
theorem Tree.resize_self {t : Tree} {p : Path} {n : Node} (h : t.node p = some n) :
    t.resize p n.extent = t := by
  have hnode : (t.resize p n.extent).node = t.node := by
    funext q
    show (if q = p then (t.node q).map _ else t.node q) = t.node q
    by_cases hq : q = p
    · rw [if_pos hq, hq, h]
      rfl
    · rw [if_neg hq]
  show Tree.mk (t.resize p n.extent).node t.objects t.free = t
  rw [hnode]

section Write

variable {P : Platform} {N : Nat} {v : Vol} {w : Outside} {p : Path} {k : Nat} {buf : Buf}
  {len pos : U64}

/-- The bytes are in the block, and nothing else has happened. -/
theorem written_copied (hlow : 2 ≤ (v.cache.slot k).dataBlockNumber.toNat)
    (hp : v.priv p = some (v.cache.slot k)) (off n copied : Nat) :
    Written v (v.copied (v.cache.slot k).dataBlockNumber.toNat off buf n copied) p k
      (v.cache.slot k).fileSize where
  count := Vol.copied_count hlow
  free := Vol.copied_free hlow
  slot := Vol.copied_slot hlow k
  others := fun i _ => Vol.copied_slot hlow i
  data := fun _ _ hne => Vol.copied_cache_ne hne
  dcache := by
    obtain ⟨d, hd, hdp⟩ := Coherent.dcache_of_priv hp
    rw [Vol.copied_dcache]
    funext q
    by_cases hq : q = p
    · subst hq
      cases d
      cases hdp
      simp [Vol.setSize, Vol.setPrivate, hd]
    · exact (Vol.setPrivate_dcache_ne _ _ hq).symm
  past := by
    intro b hb
    by_cases hblk : b = (v.cache.slot k).dataBlockNumber.toNat
    · exact .inr hblk
    · rw [Vol.copied_past_ne hblk] at hb
      exact .inl hb

theorem written_saved (hlow : 2 ≤ (v.cache.slot k).dataBlockNumber.toNat) (off n copied : Nat)
    (size : U64) : Written v (v.saved p k off buf n copied size) p k size := by
  constructor
  case count => rw [Vol.saved_cache, Vol.putSlot_count, Vol.copied_count hlow]
  case free => rw [Vol.saved_cache, Vol.putSlot_free, Vol.copied_free hlow]
  case slot => rw [Vol.saved_cache, Vol.putSlot_slot_self]
  case others =>
    intro i hi
    rw [Vol.saved_cache, Vol.putSlot_slot_ne _ hi, Vol.copied_slot hlow]
  case data =>
    intro b hb hne
    rw [Vol.saved_cache, Vol.putSlot_cache_ne _ (by omega), Vol.copied_cache_ne hne]
  case dcache => exact Vol.saved_dcache
  case past =>
    intro b hb
    left
    intro hnone
    apply hb
    -- both the data block and the inode store were synced
    have hdata : ((v.copied (v.cache.slot k).dataBlockNumber.toNat off buf n copied).after
        (syncScript (v.cache.slot k).dataBlockNumber.toNat)).past b = [] :=
      Vol.past_sync_of (fun hne => Vol.copied_past_ne hne) hnone
    show (Vol.after (Vol.putSlot _ k _) (syncScript 1)).past b = []
    apply Vol.past_sync_of _ hdata
    intro hne
    simp [Vol.putSlot, Vol.modify, hne, Vol.setSize]

/-- The slot of an inode is found by its number. -/
theorem Ready.search_slot (h : Ready N v) (hlt : k < v.cache.count.toNat) :
    v.search (v.cache.slot k).inodeNo = .ok (some k) := by
  apply Vol.search_eq h.count_le (by omega) rfl
  intro i hi heq
  have := h.shaped.number_inj i k (by omega) hlt heq
  omega

theorem Ready.write (h : Ready N v) (hle : N ≤ P.nrBlocks) (hw : w.Uninterrupted)
    (hk : v.cache.resolve p = some k) (hp : v.priv p = some (v.cache.slot k))
    (hfile : sIsdir (v.cache.slot k).mode = false) (hroot : p ≠ [])
    (hfits : pos.toNat + len.toNat ≤ 4096) :
    WriteOk P (fun u => TreeShaped N u.cache) w (fun _ => False) p buf len pos (fun r v' =>
      Ready N v' ∧ v.cache.tree.Next (w, .write p buf len pos) (.count r.1 r.2) v'.cache.tree) v := by
  have hlt := h.shaped.resolve_lt hk
  have hblock := h.shaped.block_range k hlt
  have hcopied : Written v (v.copied (v.cache.slot k).dataBlockNumber.toNat pos.toNat buf len.toNat
      (w.answer .copyFromUser)) p k (v.cache.slot k).fileSize := written_copied hblock.1 hp _ _ _
  have hsaved : Written v (v.saved p k pos.toNat buf len.toNat (w.answer .copyFromUser) (pos + len))
      p k (pos + len) := written_saved hblock.1 _ _ _ _
  apply WriteOk.of_quiet hw hblock.1 (by omega) hp (h.search_slot hlt) hfits
  · intro u hu
    rw [hu]
    exact hcopied.shaped h.shaped hlt hfile
  · intro u hu
    rw [hu]
    exact hsaved.shaped h.shaped hlt hfile
  · intro hshort
    refine ⟨hcopied.ready h hk hp hfile hroot, ?_⟩
    have hself : v.cache.tree.resize p (v.cache.slot k).fileSize = v.cache.tree :=
      Tree.resize_self (TreeShaped.node_iff.mpr ⟨k, hk, rfl⟩)
    rw [hcopied.tree h.shaped hk hfile, hself]
    exact .fault hshort
  · intro hfull
    refine ⟨hsaved.ready h hk hp hfile hroot, ?_⟩
    rw [hsaved.tree h.shaped hk hfile]
    exact .write hfull

end Write

end Lkm.Simplefs
