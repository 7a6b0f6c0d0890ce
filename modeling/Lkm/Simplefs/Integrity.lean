import Lkm.Simplefs.Format
import Lkm.Simplefs.Logic.Tables

/-!
# Records name stored inodes

A record counts once the directory's `dir_children_count` covers it, in the table
or in memory. `Integrity` says that every such record names an inode of the
table and that no two name the same one. Of the seven waits of a create, five may
be interrupted without harm: the block is lost, or the inode, or the count on
disk lags behind, but what is visible stays sound (`records_resolve_of_add_waits`).
The two waits of `simplefs_inode_add` are different, since it returns `void`: the
create goes on and makes a record for an inode that was never stored
(`record_names_nothing`).
-/

namespace Lkm.Simplefs

open Base

/-! ## What is visible -/

/-- The inode is in the table or in memory. -/
def Known (v : Vol) (i : SimplefsInode) : Prop :=
  (∃ k, k < v.cache.count.toNat ∧ v.cache.slot k = i) ∨ ∃ p, v.priv p = some i

/-- Record `r` counts in the directory `i`. -/
structure Visible (v : Vol) (i : SimplefsInode) (r : Nat) : Prop where
  known : Known v i
  isdir : sIsdir i.mode = true
  lt : r < i.dirChildrenCount.toNat

/-- A number of the table. -/
def Stored (v : Vol) (no : U64) : Prop :=
  ∃ k, k < v.cache.count.toNat ∧ (v.cache.slot k).inodeNo = no

theorem known_congr {u v : Vol} (hcache : u.cache = v.cache) (hdcache : u.dcache = v.dcache)
    {i : SimplefsInode} : Known u i ↔ Known v i := by
  unfold Known Vol.priv
  rw [hcache, hdcache]

section Modify

variable {v : Vol} {b : Nat} (hb : 2 ≤ b) (f : Buf → Buf)

include hb

/-- A store to a data block changes neither the table nor the inodes in memory. -/
theorem known_modify {i : SimplefsInode} : Known (v.modify b f) i ↔ Known v i := by
  unfold Known
  simp only [Vol.modify_count v hb, Vol.modify_slot v hb, Vol.modify_priv]

theorem visible_modify {i : SimplefsInode} {r : Nat} : Visible (v.modify b f) i r ↔ Visible v i r :=
  ⟨fun h => ⟨(known_modify hb f).mp h.known, h.isdir, h.lt⟩,
    fun h => ⟨(known_modify hb f).mpr h.known, h.isdir, h.lt⟩⟩

theorem stored_modify {no : U64} : Stored (v.modify b f) no ↔ Stored v no := by
  unfold Stored
  simp only [Vol.modify_count v hb, Vol.modify_slot v hb]

end Modify

/-- Every visible record names a stored inode, which `simplefs_lookup` gets from
`simplefs_get_inode`, and no two visible records name the same. -/
structure RecordsResolve (v : Vol) : Prop where
  stored : ∀ i r, Visible v i r → Stored v (v.cache.recordNo i r)
  distinct : ∀ i j r s, Visible v i r → Visible v j s →
    v.cache.recordNo i r = v.cache.recordNo j s → i.inodeNo = j.inodeNo ∧ r = s
  lookup : ∀ i r, Visible v i r → v.getInode (asInt (v.cache.recordNo i r)) ≠ .ok none

/-- The invariant. Inodes in memory may lag behind the table, or the table behind
them, in the count alone. -/
structure Integrity (v : Vol) : Prop where
  tables : Tables 31 v.cache
  kin : ∀ i, Known v i → ∃ k, k < v.cache.count.toNat ∧ (v.cache.slot k).Same i
  stored : ∀ i r, Visible v i r → Stored v (v.cache.recordNo i r)
  distinct : ∀ i j r s, Visible v i r → Visible v j s →
    v.cache.recordNo i r = v.cache.recordNo j s → i.inodeNo = j.inodeNo ∧ r = s

theorem Integrity.resolve {v : Vol} (h : Integrity v) : RecordsResolve v := by
  refine ⟨h.stored, h.distinct, fun i r hr hnone => ?_⟩
  obtain ⟨k, hk, hno⟩ := h.stored i r hr
  have habsent := Vol.getInode_none hnone k hk
  -- a loop that ends with NULL has seen a table that fits the block
  have hcount : v.cache.count.toNat ≤ 128 := Vol.count_le_of_getInode_none hnone
  rw [← hno, h.tables.asInt_number hcount hk] at habsent
  exact habsent rfl

namespace Integrity

variable {v u : Vol}

theorem known_block_ge (h : Integrity v) {i : SimplefsInode} (hi : Known v i) :
    2 ≤ i.dataBlockNumber.toNat := by
  obtain ⟨k, hk, hsame⟩ := h.kin i hi
  rw [← hsame.block]
  exact h.tables.block_ge k hk

/-- Known inodes with one block are the same inode. -/
theorem number_eq (h : Integrity v) {i j : SimplefsInode} (hi : Known v i) (hj : Known v j)
    (hblk : i.dataBlockNumber.toNat = j.dataBlockNumber.toNat) : i.inodeNo = j.inodeNo := by
  obtain ⟨k, hk, hki⟩ := h.kin i hi
  obtain ⟨l, hl, hlj⟩ := h.kin j hj
  have hkl : k = l := h.tables.block_inj k l hk hl (by
    rw [hki.block, hlj.block]
    exact BitVec.eq_of_toNat_eq hblk)
  rw [← hki.number, ← hlj.number, hkl]

/-! ## One update at a time -/

/-- Nothing becomes known, no number and no record changes. -/
theorem shrink (h : Integrity v) (hcount : u.cache.count = v.cache.count)
    (hslot : ∀ k, k < v.cache.count.toNat → (u.cache.slot k).Same (v.cache.slot k))
    (hfree : ∀ b, u.cache.free.getLsbD b = true → v.cache.free.getLsbD b = true)
    (hknown : ∀ i, Known u i → Known v i)
    (hrecord : ∀ i r, Known v i → u.cache.recordNo i r = v.cache.recordNo i r) :
    Integrity u := by
  have hvisible : ∀ i r, Visible u i r → Visible v i r :=
    fun i r hr => ⟨hknown i hr.known, hr.isdir, hr.lt⟩
  refine ⟨h.tables.congr hcount hslot hfree, fun i hi => ?_, fun i r hr => ?_,
    fun i j r s hr hs heq => ?_⟩
  · obtain ⟨k, hk, hsame⟩ := h.kin i (hknown i hi)
    exact ⟨k, hcount ▸ hk, (hslot k hk).trans hsame⟩
  · rw [hrecord i r (hknown i hr.known)]
    obtain ⟨k, hk, hno⟩ := h.stored i r (hvisible i r hr)
    exact ⟨k, hcount ▸ hk, (hslot k hk).number.trans hno⟩
  · rw [hrecord i r (hknown i hr.known), hrecord j s (hknown j hs.known)] at heq
    exact h.distinct i j r s (hvisible i r hr) (hvisible j s hs) heq

/-- An update of the super block or of the inode store past the table. -/
theorem tables_only (h : Integrity v) (hcount : u.cache.count = v.cache.count)
    (hslot : ∀ k, k < v.cache.count.toNat → u.cache.slot k = v.cache.slot k)
    (hfree : ∀ b, u.cache.free.getLsbD b = true → v.cache.free.getLsbD b = true)
    (hblocks : ∀ b, 2 ≤ b → u.cache b = v.cache b) (hdcache : u.dcache = v.dcache) :
    Integrity u := by
  refine h.shrink hcount (fun k hk => ?_) hfree (fun i hi => ?_) fun i r hi => ?_
  · rw [hslot k hk]
    exact .refl _
  · rcases hi with ⟨k, hk, hslot'⟩ | ⟨p, hp⟩
    · rw [hcount] at hk
      exact .inl ⟨k, hk, (hslot k hk).symm.trans hslot'⟩
    · refine .inr ⟨p, ?_⟩
      unfold Vol.priv at hp ⊢
      rwa [← hdcache]
  · unfold Image.recordNo
    rw [hblocks _ (h.known_block_ge hi)]

/-- Marking and syncing changes nothing that counts. -/
theorem along_sync (h : Integrity v) (b : Nat) : Along Integrity v (syncScript b) := by
  have hsame : ∀ u : Vol, u.cache = v.cache → u.dcache = v.dcache → Integrity u := by
    intro u hcache hdcache
    refine h.tables_only ?_ ?_ ?_ ?_ hdcache <;> rw [hcache]
    · exact fun _ _ => rfl
    · exact fun _ hb => hb
    · exact fun _ _ => rfl
  simp only [syncScript, along_cons]
  exact ⟨hsame _ rfl rfl, hsame _ rfl rfl, along_nil⟩

/-- An inode is appended to the table. It has no records, and every record that
counts names one of the others. -/
theorem append (h : Integrity v) (hlt : v.cache.count.toNat < 64)
    (hcount : u.cache.count = v.cache.count + 1)
    (hslot : ∀ k, k < v.cache.count.toNat → u.cache.slot k = v.cache.slot k)
    {ino : SimplefsInode} (hnew : u.cache.slot v.cache.count.toNat = ino)
    (hempty : ino.dirChildrenCount = 0) (htables : Tables 31 u.cache)
    (hblocks : ∀ b, 2 ≤ b → u.cache b = v.cache b) (hdcache : u.dcache = v.dcache) :
    Integrity u ∧ ∀ i r, Visible u i r → Stored v (u.cache.recordNo i r) := by
  have hcount' : u.cache.count.toNat = v.cache.count.toNat + 1 := by
    rw [hcount]
    bv_omega
  have hknown : ∀ i, Known u i → Known v i ∨ i = ino := by
    rintro i (⟨k, hk, hslot'⟩ | ⟨p, hp⟩)
    · by_cases hk' : k < v.cache.count.toNat
      · exact .inl (.inl ⟨k, hk', (hslot k hk').symm.trans hslot'⟩)
      · rw [show k = v.cache.count.toNat by omega, hnew] at hslot'
        exact .inr hslot'.symm
    · refine .inl (.inr ⟨p, ?_⟩)
      unfold Vol.priv at hp ⊢
      rwa [← hdcache]
  have hvisible : ∀ i r, Visible u i r → Visible v i r := by
    intro i r hr
    rcases hknown i hr.known with hi | rfl
    · exact ⟨hi, hr.isdir, hr.lt⟩
    · have hlt' := hr.lt
      rw [hempty] at hlt'
      exact absurd hlt' (Nat.not_lt_zero r)
  have hrecord : ∀ i r, Visible u i r → u.cache.recordNo i r = v.cache.recordNo i r := by
    intro i r hr
    unfold Image.recordNo
    rw [hblocks _ (h.known_block_ge (hvisible i r hr).known)]
  have hstored : ∀ i r, Visible u i r → Stored v (u.cache.recordNo i r) := by
    intro i r hr
    rw [hrecord i r hr]
    exact h.stored i r (hvisible i r hr)
  refine ⟨⟨htables, fun i hi => ?_, fun i r hr => ?_, fun i j r s hr hs heq => ?_⟩, hstored⟩
  · rcases hknown i hi with hi | rfl
    · obtain ⟨k, hk, hsame⟩ := h.kin i hi
      refine ⟨k, by omega, ?_⟩
      rwa [hslot k hk]
    · refine ⟨v.cache.count.toNat, by omega, ?_⟩
      rw [hnew]
      exact .refl _
  · obtain ⟨k, hk, hno⟩ := hstored i r hr
    refine ⟨k, by omega, ?_⟩
    rwa [hslot k hk]
  · rw [hrecord i r hr, hrecord j s hs] at heq
    exact h.distinct i j r s (hvisible i r hr) (hvisible j s hs) heq

/-- What a record that is about to become visible has to satisfy: it is the only
one that may name `no`. -/
def Reserved (v : Vol) (par : SimplefsInode) (k : Nat) (no : U64) : Prop :=
  Stored v no ∧ ∀ i r, Visible v i r → v.cache.recordNo i r = no → i.inodeNo = par.inodeNo ∧ r = k

theorem Reserved.congr {par : SimplefsInode} {k : Nat} {no : U64} (h : Reserved v par k no)
    (hcache : u.cache = v.cache) (hdcache : u.dcache = v.dcache) : Reserved u par k no := by
  refine ⟨?_, fun i r hr heq => ?_⟩
  · unfold Stored
    rw [hcache]
    exact h.1
  · rw [hcache] at heq
    exact h.2 i r ⟨(known_congr hcache hdcache).mp hr.known, hr.isdir, hr.lt⟩ heq

/-- A store to a data block that changes no record, or only one and that as
reserved. -/
theorem modify (h : Integrity v) {par : SimplefsInode} {k : Nat} {no : U64} {b : Nat}
    {f : Buf → Buf} (hb : 2 ≤ b) (hres : Reserved v par k no)
    (hrecord : ∀ i r, Known v i →
      ((v.modify b f).cache.recordNo i r = no ∧ i.inodeNo = par.inodeNo ∧ r = k) ∨
        (v.modify b f).cache.recordNo i r = v.cache.recordNo i r) :
    Integrity (v.modify b f) ∧ Reserved (v.modify b f) par k no := by
  have hreserved : ∀ i r, Visible v i r → (v.modify b f).cache.recordNo i r = no →
      i.inodeNo = par.inodeNo ∧ r = k := by
    intro i r hr heq
    rcases hrecord i r hr.known with ⟨-, hi, hr'⟩ | hold
    · exact ⟨hi, hr'⟩
    · exact hres.2 i r hr (hold.symm.trans heq)
  have htables : Tables 31 (v.modify b f).cache := by
    refine h.tables.congr (Vol.modify_count v hb) (fun j _ => ?_) fun c hc => ?_
    · rw [Vol.modify_slot v hb]
      exact .refl _
    · rwa [Vol.modify_free v hb] at hc
  refine ⟨⟨htables, fun i hi => ?_, fun i r hr => ?_, fun i j r s hr hs heq => ?_⟩,
    (stored_modify hb f).mpr hres.1, fun i r hr => hreserved i r ((visible_modify hb f).mp hr)⟩
  · obtain ⟨j, hj, hsame⟩ := h.kin i ((known_modify hb f).mp hi)
    refine ⟨j, ?_, ?_⟩
    · rwa [Vol.modify_count v hb]
    · rwa [Vol.modify_slot v hb]
  · rw [visible_modify hb] at hr
    rw [stored_modify hb]
    rcases hrecord i r hr.known with ⟨hno, -⟩ | hold
    · rw [hno]
      exact hres.1
    · rw [hold]
      exact h.stored i r hr
  · rw [visible_modify hb] at hr hs
    rcases hrecord i r hr.known with ⟨hno, hi, hr'⟩ | hold
    · obtain ⟨hj, hs'⟩ := hreserved j s hs (heq.symm.trans hno)
      exact ⟨hi.trans hj.symm, hr'.trans hs'.symm⟩
    · rcases hrecord j s hs.known with ⟨hno, hj, hs'⟩ | hold'
      · obtain ⟨hi, hr'⟩ := hreserved i r hr (heq.trans hno)
        exact ⟨hi.trans hj.symm, hr'.trans hs'.symm⟩
      · rw [hold, hold'] at heq
        exact h.distinct i j r s hr hs heq

/-- Record `k` of a directory is made to name the inode reserved for it. -/
theorem setRecord (h : Integrity v) {par : SimplefsInode} {k : Nat} {no : U64}
    (hpar : Known v par) (hres : Reserved v par k no) :
    Integrity (v.modify par.dataBlockNumber.toNat (setRecordInodeNo · k no)) ∧
      Reserved (v.modify par.dataBlockNumber.toNat (setRecordInodeNo · k no)) par k no := by
  refine h.modify (h.known_block_ge hpar) hres fun i r hi => ?_
  unfold Image.recordNo
  by_cases hblk : i.dataBlockNumber.toNat = par.dataBlockNumber.toNat
  · rw [hblk, Vol.modify_cache_self]
    by_cases hr : r = k
    · rw [hr, recordInodeNo_setRecordInodeNo_self]
      exact .inl ⟨rfl, h.number_eq hi hpar hblk, rfl⟩
    · exact .inr (recordInodeNo_setRecordInodeNo_ne hr)
  · rw [Vol.modify_cache_ne _ _ hblk]
    exact .inr rfl

/-- The name is copied into a record. -/
theorem setName (h : Integrity v) {par : SimplefsInode} {k : Nat} {no : U64} {name : List Byte}
    (hpar : Known v par) (hname : name.length < simplefsFilenameMaxlen)
    (hres : Reserved v par k no) :
    Integrity (v.modify par.dataBlockNumber.toNat (strcpyFilename · k name)) ∧
      Reserved (v.modify par.dataBlockNumber.toNat (strcpyFilename · k name)) par k no := by
  refine h.modify (h.known_block_ge hpar) hres fun i r _ => .inr ?_
  unfold Image.recordNo
  by_cases hblk : i.dataBlockNumber.toNat = par.dataBlockNumber.toNat
  · rw [hblk, Vol.modify_cache_self, recordInodeNo_strcpyFilename hname]
  · rw [Vol.modify_cache_ne _ _ hblk]

/-- The record becomes visible in memory. -/
theorem bump (h : Integrity v) {dir : Path} {par : SimplefsInode} {no : U64}
    (hpar : v.priv dir = some par) (hroom : par.dirChildrenCount.toNat < 16)
    (hres : Reserved v par par.dirChildrenCount.toNat no)
    (hno : v.cache.recordNo par par.dirChildrenCount.toNat = no) :
    Integrity (v.bumpChildren dir) := by
  have hself : Known v par := .inr ⟨dir, hpar⟩
  have hknown : ∀ i, Known (v.bumpChildren dir) i → Known v i ∨ i = par.bump := by
    rintro i (hi | ⟨p, hp⟩)
    · exact .inl (.inl hi)
    · by_cases hpd : p = dir
      · rw [hpd, Vol.bumpChildren_priv_self hpar] at hp
        exact .inr (Option.some.inj hp).symm
      · refine .inl (.inr ⟨p, ?_⟩)
        unfold Vol.priv at hp ⊢
        rwa [show (v.bumpChildren dir).dcache p = v.dcache p from
          Vol.setPrivate_dcache_ne _ _ hpd] at hp
  -- what is visible now: what was, and the new record
  have hvisible : ∀ i r, Visible (v.bumpChildren dir) i r → (∃ j, Visible v j r ∧
      j.inodeNo = i.inodeNo ∧ v.cache.recordNo j r = v.cache.recordNo i r) ∨
      (i = par.bump ∧ r = par.dirChildrenCount.toNat) := by
    intro i r hr
    rcases hknown i hr.known with hi | rfl
    · exact .inl ⟨i, ⟨hi, hr.isdir, hr.lt⟩, rfl, rfl⟩
    · have hlt := hr.lt
      have hcount : par.bump.dirChildrenCount.toNat = par.dirChildrenCount.toNat + 1 := by
        show (par.dirChildrenCount + 1).toNat = _
        bv_omega
      by_cases hlast : r = par.dirChildrenCount.toNat
      · exact .inr ⟨rfl, hlast⟩
      · exact .inl ⟨par, ⟨hself, hr.isdir, by omega⟩, rfl, rfl⟩
  refine ⟨h.tables, fun i hi => ?_, fun i r hr => ?_, fun i j r s hr hs heq => ?_⟩
  · rcases hknown i hi with hi | rfl
    · exact h.kin i hi
    · obtain ⟨k, hk, hsame⟩ := h.kin par hself
      exact ⟨k, hk, hsame.trans (SimplefsInode.Same.bump par).symm⟩
  · rcases hvisible i r hr with ⟨j, hj, -, hrec⟩ | ⟨rfl, rfl⟩
    · show Stored v (v.cache.recordNo i r)
      rw [← hrec]
      exact h.stored j r hj
    · show Stored v (v.cache.recordNo par par.dirChildrenCount.toNat)
      rw [hno]
      exact hres.1
  · have heq' : v.cache.recordNo i r = v.cache.recordNo j s := heq
    rcases hvisible i r hr with ⟨i', hi', hino, hirec⟩ | ⟨rfl, rfl⟩ <;>
      rcases hvisible j s hs with ⟨j', hj', hjno, hjrec⟩ | ⟨rfl, rfl⟩
    · rw [← hirec, ← hjrec] at heq'
      rw [← hino, ← hjno]
      exact h.distinct i' j' r s hi' hj' heq'
    · rw [← hirec] at heq'
      rw [← hino]
      exact hres.2 i' r hi' (heq'.trans hno)
    · rw [← hjrec] at heq'
      obtain ⟨hno', hs'⟩ := hres.2 j' s hj' (heq'.symm.trans hno)
      exact ⟨(hjno.symm.trans hno').symm, hs'.symm⟩
    · exact ⟨rfl, rfl⟩

/-- A known inode is written back to its slot. -/
theorem putSlot (h : Integrity v) {k : Nat} {ino : SimplefsInode} (hino : Known v ino)
    (hk : (v.cache.slot k).inodeNo = ino.inodeNo) (hlt : k < v.cache.count.toNat) :
    Integrity (v.putSlot k ino) := by
  obtain ⟨j, hj, hsame⟩ := h.kin ino hino
  obtain rfl : j = k := h.tables.number_inj j k hj hlt (hsame.number.trans hk.symm)
  refine h.shrink (Vol.putSlot_count v) (fun i hi => ?_) (fun b hb => ?_) (fun i hi => ?_)
    fun i r hi => ?_
  · by_cases hij : i = j
    · rw [hij, Vol.putSlot_slot_self]
      exact hsame.symm
    · rw [Vol.putSlot_slot_ne v hij]
      exact .refl _
  · rwa [Vol.putSlot_free] at hb
  · rcases hi with ⟨l, hl, hslot⟩ | hp
    · rw [Vol.putSlot_count] at hl
      by_cases hlj : l = j
      · rw [hlj, Vol.putSlot_slot_self] at hslot
        rwa [← hslot]
      · rw [Vol.putSlot_slot_ne v hlj] at hslot
        exact .inl ⟨l, hl, hslot⟩
    · exact .inr hp
  · unfold Image.recordNo
    rw [Vol.putSlot_cache_ne v (by have := h.known_block_ge hi; omega)]

/-- A known inode gets a dentry. -/
theorem dAdd (h : Integrity v) {p : Path} {d : Inode}
    (hd : ∀ i, d.iPrivate = some i → Known v i) : Integrity (v.dAdd p d) := by
  refine h.shrink rfl (fun _ _ => .refl _) (fun _ hb => hb) (fun i hi => ?_) fun _ _ _ => rfl
  rcases hi with hi | ⟨q, hq⟩
  · exact .inl hi
  · by_cases hqp : q = p
    · unfold Vol.priv at hq
      rw [hqp, Vol.dAdd_dcache_self] at hq
      cases hold : v.dcache p with
      | none =>
          rw [hold] at hq
          exact hd i hq
      | some e =>
          rw [hold] at hq
          refine .inr ⟨p, ?_⟩
          unfold Vol.priv
          rwa [hold]
    · refine .inr ⟨q, ?_⟩
      unfold Vol.priv at hq ⊢
      rwa [Vol.dAdd_dcache_ne _ _ hqp] at hq

/-! ## Whole calls -/

variable {P : Platform} {w : Outside}

/-- Saving changes the slot of the inode saved, if any. -/
theorem save (h : Integrity v) {p : Path} {ino : SimplefsInode} (hino : v.priv p = some ino)
    {Q : Except Errno Unit → Vol → Prop}
    (hQ : ∀ r u, Integrity u → u.cache.count = v.cache.count →
      (∀ k, (v.cache.slot k).inodeNo ≠ ino.inodeNo → u.cache.slot k = v.cache.slot k) → Q r u) :
    SaveOk P Integrity w AnyFault p Q v where
  bug := fun _ => trivial
  null := fun _ => trivial
  interrupted := fun _ => hQ _ v h rfl fun _ _ => rfl
  fault := fun _ _ _ _ => trivial
  missing := fun _ _ _ => hQ _ v h rfl fun _ _ => rfl
  found := by
    intro ino' k hino' hfound
    obtain rfl : ino = ino' := Option.some.inj (hino.symm.trans hino')
    obtain ⟨-, hno, hmin⟩ := Vol.search_some hfound
    -- the loop stops at the inode's own slot at the latest
    obtain ⟨j, hj, hsame⟩ := h.kin ino (.inr ⟨p, hino⟩)
    have hk : k < v.cache.count.toNat := by
      by_contra hge
      exact hmin j (by omega) hsame.number
    have hput := h.putSlot (.inr ⟨p, hino⟩) hno hk
    refine ⟨along_cons.mpr ⟨hput, hput.along_sync 1⟩, ?_⟩
    refine hQ _ _ ((hput.along_sync 1).last hput) (Vol.putSlot_count v) fun l hl => ?_
    refine Vol.putSlot_slot_ne v ?_
    rintro rfl
    exact hl hno

/-- From the appended inode on, whichever waits are interrupted. -/
theorem link (h : Integrity v) {dir : Path} {dentry : Name} {ino : SimplefsInode}
    (hname : dentry.bytes.length < simplefsFilenameMaxlen)
    (hstored : ∃ k, k < v.cache.count.toNat ∧ v.cache.slot k = ino)
    (hunnamed : ∀ i r, Visible v i r → v.cache.recordNo i r ≠ ino.inodeNo)
    (hother : ∀ par, v.priv dir = some par → par.inodeNo ≠ ino.inodeNo) :
    LinkOk P Integrity w AnyFault dir dentry ino.inodeNo (vfsInode ino)
      (fun _ v' => Integrity v') v := by
  -- the two stores to the parent's block, and what they leave
  have hrecord : ∀ par, v.priv dir = some par →
      Along Integrity v (recordScript par.dataBlockNumber.toNat par.dirChildrenCount.toNat
        ino.inodeNo dentry.bytes) ∧
      Reserved (v.after (recordScript par.dataBlockNumber.toNat par.dirChildrenCount.toNat
        ino.inodeNo dentry.bytes)) par par.dirChildrenCount.toNat ino.inodeNo := by
    intro par hpar
    have hknown : Known v par := .inr ⟨dir, hpar⟩
    have hlow := h.known_block_ge hknown
    have hres : Reserved v par par.dirChildrenCount.toNat ino.inodeNo := by
      obtain ⟨k, hk, hslot⟩ := hstored
      exact ⟨⟨k, hk, by rw [hslot]⟩, fun i r hr heq => absurd heq (hunnamed i r hr)⟩
    obtain ⟨h₁, hres₁⟩ := h.setRecord hknown hres
    have hknown₁ : Known (v.modify par.dataBlockNumber.toNat
      (setRecordInodeNo · par.dirChildrenCount.toNat ino.inodeNo)) par :=
      (known_modify hlow _).mpr hknown
    obtain ⟨h₂, hres₂⟩ := h₁.setName hknown₁ hname hres₁
    simp only [recordScript, along_cons]
    exact ⟨⟨h₁, h₂, h₂.along_sync _⟩, hres₂.congr rfl rfl⟩
  refine ⟨fun _ => trivial, fun _ _ _ => trivial, fun _ _ _ => trivial,
    fun par hpar _ _ => (hrecord par hpar).1, fun par hpar _ _ _ => (hrecord par hpar).1.last h, ?_⟩
  rintro par v₁ hpar - hlt rfl
  obtain ⟨halong, hres⟩ := hrecord par hpar
  have h₁ := halong.last h
  have hlow := h.known_block_ge (.inr ⟨dir, hpar⟩)
  have hnamed : Image.recordNo (v.after (recordScript par.dataBlockNumber.toNat
      par.dirChildrenCount.toNat ino.inodeNo dentry.bytes)).cache par
        par.dirChildrenCount.toNat = ino.inodeNo := by
    unfold Image.recordNo
    rw [Vol.recorded_block, recordInodeNo_strcpyFilename hname,
      recordInodeNo_setRecordInodeNo_self]
  have hbump := h₁.bump (v := v.after _) hpar hlt hres hnamed
  refine ⟨hbump, hbump.save (Vol.bumpChildren_priv_self (v := v.after _) hpar)
    fun r u hu hcount hslot => ?_⟩
  cases r with
  | error e => exact hu
  | ok x =>
      -- the child's slot is not the one that was saved
      have hchild : Integrity (u.dAdd (dentry :: dir) (vfsInode ino)) := by
        refine hu.dAdd ?_
        rintro i ⟨⟩
        obtain ⟨k, hk, hk'⟩ := hstored
        have hsame : Image.slot (Vol.cache (Vol.bumpChildren (v.after (recordScript
            par.dataBlockNumber.toNat par.dirChildrenCount.toNat ino.inodeNo dentry.bytes))
              dir)) k = ino := by
          exact (Vol.recorded_slot hlow k).trans hk'
        refine .inl ⟨k, ?_, ?_⟩
        · rw [hcount]
          exact lt_of_lt_of_eq hk (congrArg BitVec.toNat (Vol.recorded_count hlow).symm)
        · rw [hslot k ?_, hsame]
          rw [hsame]
          exact Ne.symm (hother par hpar)
      exact ⟨hchild, hchild⟩

theorem along_take (h : Integrity v) (hfound : v.freeIndex P ≠ 64) :
    Along Integrity v (takeScript P v) := by
  have hfree : Integrity (v.setFree (v.cache.free &&& ~~~bitMask P (v.freeIndex P))) := by
    refine h.tables_only (Vol.setFree_count v) (fun k _ => Vol.setFree_slot v) (fun b hb => ?_)
      (fun b hb => Vol.setFree_cache_ne v (by omega)) rfl
    rw [Vol.setFree_free] at hb
    exact (h.tables.taken (Nat.le_refl 31) hfound hb).1
  exact along_cons.mpr ⟨hfree, hfree.along_sync 0⟩

/-- Appending the new inode once its block is taken. -/
theorem along_add (h : Integrity v) {u : Vol} {ino : SimplefsInode} (hlt : v.cache.count.toNat < 64)
    (hempty : ino.dirChildrenCount = 0) (hno : ino.inodeNo.toNat = v.cache.count.toNat + 8)
    (hge : 2 ≤ ino.dataBlockNumber.toNat)
    (hunowned : ∀ k, k < v.cache.count.toNat →
      (v.cache.slot k).dataBlockNumber.toNat ≠ ino.dataBlockNumber.toNat)
    (htaken : v.cache.free.getLsbD ino.dataBlockNumber.toNat = false)
    (hu : u = v.after (addScript v ino)) :
    Along Integrity v (addScript v ino) ∧ Integrity u ∧
      (∃ k, k < u.cache.count.toNat ∧ u.cache.slot k = ino) ∧
      ∀ i r, Visible u i r → u.cache.recordNo i r ≠ ino.inodeNo := by
  have hput : Integrity (v.putSlot v.cache.count.toNat ino) := by
    refine h.tables_only (Vol.putSlot_count v) (fun k hk => ?_) (fun b hb => ?_)
      (fun b hb => Vol.putSlot_cache_ne v (by omega)) rfl
    · exact Vol.putSlot_slot_ne v (Nat.ne_of_lt hk)
    · rwa [Vol.putSlot_free] at hb
  have hcount : (v.putSlot v.cache.count.toNat ino).cache.count = v.cache.count :=
    Vol.putSlot_count v
  have hslot : (v.putSlot v.cache.count.toNat ino).cache.slot v.cache.count.toNat = ino :=
    Vol.putSlot_slot_self v
  have hcount' : (v.cache.count + 1).toNat = v.cache.count.toNat + 1 := by bv_omega
  have htables : Tables 31
      ((v.putSlot v.cache.count.toNat ino).setCount (v.cache.count + 1)).cache := by
    refine h.tables.append hlt (Vol.setCount_count _) (fun k hk => ?_) ?_ ?_ (fun k hk => ?_)
      fun b hb => ?_
    · rw [Vol.setCount_slot, Vol.putSlot_slot_ne v (Nat.ne_of_lt hk)]
      exact .refl _
    · rw [Vol.setCount_slot, hslot]
      exact hno
    · rw [Vol.setCount_slot, hslot]
      exact hge
    · rw [Vol.setCount_slot, hslot]
      exact hunowned k hk
    · rw [Vol.setCount_free, Vol.putSlot_free] at hb
      rw [Vol.setCount_slot, hslot]
      refine ⟨hb, ?_⟩
      rintro rfl
      rw [htaken] at hb
      cases hb
  obtain ⟨happend, hnames⟩ := hput.append (by rwa [hcount]) (by rw [Vol.setCount_count, hcount])
    (fun k _ => Vol.setCount_slot _) (by rw [Vol.setCount_slot, hcount, hslot]) hempty htables
    (fun b hb => Vol.setCount_cache_ne _ (by omega)) rfl
  have hdirty := happend.along_sync 1
  have hmark : Integrity (((v.putSlot v.cache.count.toNat ino).setCount
      (v.cache.count + 1)).markBufferDirty 1) := (along_cons.mp hdirty).1
  have halong : Along Integrity v (addScript v ino) := by
    simp only [addScript, along_cons]
    exact ⟨hput, happend, hmark, hmark.along_sync 0⟩
  have hcache : u.cache =
      ((v.putSlot v.cache.count.toNat ino).setCount (v.cache.count + 1)).cache := hu ▸ rfl
  have hdcache : u.dcache =
      ((v.putSlot v.cache.count.toNat ino).setCount (v.cache.count + 1)).dcache := hu ▸ rfl
  refine ⟨halong, hu ▸ halong.last h, ⟨v.cache.count.toNat, ?_, ?_⟩, fun i r hr heq => ?_⟩
  · rw [hcache, Vol.setCount_count]
    omega
  · rw [hcache, Vol.setCount_slot]
    exact hslot
  · rw [hcache] at heq
    obtain ⟨k, hk, hk'⟩ := hnames i r ⟨(known_congr hcache hdcache).mp hr.known, hr.isdir, hr.lt⟩
    rw [hcount] at hk
    rw [heq, Vol.putSlot_slot_ne v (Nat.ne_of_lt hk)] at hk'
    -- every number of the old table is smaller
    have hle := h.tables.number_le k hk
    rw [hk'] at hle
    omega

theorem create (h : Integrity v) {dir : Path} {dentry : Name} {mode : U32}
    (hname : dentry.bytes.length < simplefsFilenameMaxlen)
    (hinodes : w.interrupted .addInodes = false) (hsb : w.interrupted .addSb = false) :
    CreateOk P Integrity w AnyFault dir dentry mode (fun _ v' => Integrity v') v := by
  have hadd : ∀ slab, v.cache.count.toNat < 64 → v.freeIndex P ≠ 64 → ∀ v₁,
      v₁ = v.after (takeScript P v) → ∀ u, u = v₁.after (addScript v₁ (newInode P v mode slab)) →
      Along Integrity v₁ (addScript v₁ (newInode P v mode slab)) ∧ Integrity u ∧
      (∃ k, k < u.cache.count.toNat ∧ u.cache.slot k = newInode P v mode slab) ∧
      ∀ i r, Visible u i r → u.cache.recordNo i r ≠ (newInode P v mode slab).inodeNo := by
    intro slab hlt hi v₁ hv₁ u hu
    have hcount : v₁.cache.count = v.cache.count := hv₁ ▸ Vol.count_after_takeScript P v
    have hslot : ∀ k, v₁.cache.slot k = v.cache.slot k := fun k => hv₁ ▸ Vol.setFree_slot v
    have hfree : v₁.cache.free = v.cache.free &&& ~~~bitMask P (v.freeIndex P) :=
      hv₁ ▸ Vol.setFree_free v
    have h₁ : Integrity v₁ := hv₁ ▸ (h.along_take hi).last h
    refine h₁.along_add (by rwa [hcount]) rfl ?_ ?_ (fun k hk => ?_) ?_ hu
    · rw [hcount]
      exact newInode_number P hlt mode slab
    · rw [newInode_block]
      exact Vol.freeIndex_ge P v
    · rw [newInode_block, hslot]
      exact (h.tables.freeIndex (Nat.le_refl 31) hi).2 k (by rwa [← hcount])
    · rw [newInode_block, hfree]
      by_contra hbit
      exact (h.tables.taken (Nat.le_refl 31) hi (by simpa using hbit)).2 rfl
  refine ⟨fun _ => trivial, fun _ => h, fun _ => h, fun _ _ _ => h, fun _ _ => h, fun _ _ => h,
    fun _ _ hi => h.along_take hi, ?_, ?_⟩
  · intro v₁ hlt _ hi hv₁
    exact (hadd _ hlt hi v₁ hv₁ _ rfl).1
  · intro skip v₁ hlt _ hi hv₁ hskip
    cases skip with
    | true =>
        rcases hskip rfl with hs | hs
        · rw [hinodes] at hs
          cases hs
        · rw [hsb] at hs
          cases hs
    | false =>
        obtain ⟨-, hu, hstored, hunnamed⟩ := hadd (w.answer .slab) hlt hi v₁ hv₁ _ rfl
        refine hu.link hname hstored hunnamed fun par hpar heq => ?_
        -- the parent is in the old table
        have hpar' : v.priv dir = some par := by
          rw [hv₁] at hpar
          exact hpar
        obtain ⟨k, hk, hsame⟩ := h.kin par (.inr ⟨dir, hpar'⟩)
        have hle := h.tables.number_le k hk
        rw [hsame.number, heq, newInode_number P hlt] at hle
        omega

theorem lookup (h : Integrity v) {dir : Path} {name : Name} :
    LookupOk P Integrity AnyFault dir name (fun _ v' => Integrity v') v where
  bug := fun _ => trivial
  null := fun _ => trivial
  noBuffer := fun _ _ _ => trivial
  overflow := fun _ _ _ _ => trivial
  absent := fun _ _ _ => h
  fault := fun _ _ _ _ _ _ => trivial
  noInode := fun _ _ _ _ _ => trivial
  found := by
    intro par k ino _ _ hget
    have hadd : Integrity (v.dAdd (name :: dir) (igetInode (v.cache.recordNo par k) ino)) := by
      refine h.dAdd ?_
      rintro i ⟨⟩
      obtain ⟨j, hj, hslot, -⟩ := Vol.getInode_some hget
      exact .inl ⟨j, hj, hslot⟩
    exact ⟨hadd, hadd⟩

end Integrity

/-! ## Runs -/

/-- The images that the property is about. -/
structure Sound (img : Image) : Prop where
  number_le : ∀ k, k < img.count.toNat → (img.slot k).inodeNo.toNat ≤ img.count.toNat + 7
  number_inj : ∀ j k, j < img.count.toNat → k < img.count.toNat →
    (img.slot j).inodeNo = (img.slot k).inodeNo → j = k
  block_inj : ∀ j k, j < img.count.toNat → k < img.count.toNat →
    (img.slot j).dataBlockNumber = (img.slot k).dataBlockNumber → j = k
  free_range : ∀ b, img.free.getLsbD b = true → 2 ≤ b ∧ b < 31
  free_unowned : ∀ b k, img.free.getLsbD b = true → k < img.count.toNat →
    (img.slot k).dataBlockNumber.toNat ≠ b
  stored : ∀ i r, Visible (.ofImage img) i r → Stored (.ofImage img) (img.recordNo i r)
  distinct : ∀ i j r s, Visible (.ofImage img) i r → Visible (.ofImage img) j s →
    img.recordNo i r = img.recordNo j s → i.inodeNo = j.inodeNo ∧ r = s

/-- Creates with a name that fits the record, in a parent that has room, and
lookups; no wait of `simplefs_inode_add` is interrupted. -/
def CreatesAppending (v : Vol) (s : Step) : Prop :=
  s.1.interrupted .addInodes = false ∧ s.1.interrupted .addSb = false ∧
    match s.2 with
    | .create dir name _ | .mkdir dir name _ =>
        name.bytes.length < simplefsFilenameMaxlen ∧
          ∀ par, v.priv dir = some par → par.dirChildrenCount.toNat < 16
    | .lookup .. => True
    | _ => False

theorem integrity_step (P : Platform) {v : Vol} {s : Step} (h : Integrity v)
    (hs : CreatesAppending v s) :
    vwp Integrity s.1 AnyFault (s.2.prog P) (fun _ v' => Integrity v') v := by
  obtain ⟨w, c⟩ := s
  obtain ⟨hinodes, hsb, hc⟩ := hs
  have hcreate : ∀ dir (name : Name) mode, name.bytes.length < simplefsFilenameMaxlen →
      vwp Integrity w AnyFault
        (vfsCreate dir name (simplefsCreateFsObject P dir name mode)) (fun _ v' => Integrity v') v := by
    intro dir name mode hname
    refine vwp_vfsCreate (fun _ => h) (fun _ _ _ => h) (fun _ _ => h) fun _ _ _ _ => ?_
    exact vwp_simplefsCreateFsObject h (h.create hname hinodes hsb)
  cases c with
  | create dir name mode => exact hcreate dir name mode hc.1
  | mkdir dir name mode => exact hcreate dir name _ hc.1
  | lookup dir name =>
      exact vwp_vfsLookup h (fun _ => h) (fun _ _ _ => h) (fun _ _ => h) fun _ _ _ _ => h.lookup
  | iterate dir ctx => exact hc.elim
  | read file len pos => exact hc.elim
  | write file buf len pos => exact hc.elim
  | remount => exact hc.elim

theorem Sound.integrity {img : Image} (h : Sound img)
    (hdata : ∀ k, k < img.count.toNat → 2 ≤ (img.slot k).dataBlockNumber.toNat) :
    Integrity (.ofImage img) := by
  refine ⟨⟨h.number_le, h.number_inj, hdata, h.block_inj, h.free_range, h.free_unowned⟩, ?_,
    h.stored, h.distinct⟩
  rintro i (⟨k, hk, hslot⟩ | ⟨p, hp⟩)
  · exact ⟨k, hk, hslot ▸ .refl _⟩
  · cases hp

/-- Five of the seven waits of a create may be interrupted: as long as neither of the
two of `simplefs_inode_add` is, and the image's data blocks are not the super block or
the inode store, every visible record names one stored inode of its own. -/
theorem records_resolve_of_add_waits (P : Platform) (img : Image) (h : Sound img)
    (hdata : ∀ k, k < img.count.toNat → 2 ≤ (img.slot k).dataBlockNumber.toNat)
    (steps : List Step) (hs : Issues P CreatesAppending steps (mount P img)) :
    ∀ m ∈ states P steps (mount P img), RecordsResolve m.mem.toVol := by
  have hinit : Integrity (mount P img).mem.toVol := by
    rcases mount_cases P img with hm | ⟨r, hr, hm⟩
    · rw [hm]
      exact h.integrity hdata
    · rw [hm]
      refine (h.integrity hdata).dAdd ?_
      rintro i ⟨⟩
      obtain ⟨j, hj, hslot, -⟩ := Vol.getInode_some hr
      exact .inl ⟨j, hj, hslot⟩
  have hrun := vwp_runs (fun _ hJ => hJ) (fun v s => integrity_step P (v := v) (s := s)) hinit hs
  exact fun m hm => (hrun.1 m hm).resolve

theorem emptyRoot_sound : Sound emptyRoot := by
  have hvisible : ∀ i r, ¬ Visible (.ofImage emptyRoot) i r := by
    rintro i r ⟨⟨k, hk, hslot⟩ | ⟨p, hp⟩, -, hlt⟩
    · have hslot' : emptyRoot.slot k = i := hslot
      rw [emptyRoot_zero hk, emptyRoot_slot] at hslot'
      rw [← hslot'] at hlt
      exact Nat.not_lt_zero r hlt
    · cases hp
  refine ⟨fun k hk => ?_, fun j k hj hk _ => ?_, fun j k hj hk _ => ?_, fun b hb => ?_,
    fun b k hb hk => ?_, fun i r hr => absurd hr (hvisible i r),
    fun i j r s hr => absurd hr (hvisible i r)⟩
  · rw [emptyRoot_zero hk, emptyRoot_slot, emptyRoot_count]
    decide
  · rw [emptyRoot_zero hj, emptyRoot_zero hk]
  · rw [emptyRoot_zero hj, emptyRoot_zero hk]
  · have := emptyRoot_free_bit hb
    omega
  · have := emptyRoot_free_bit hb
    rw [emptyRoot_zero hk, emptyRoot_slot, show (2 : U64).toNat = 2 from rfl]
    omega

/-- A create loses its last wait: the inode is stored, the record is not counted. The next one goes
through. -/
def createUncounted : List Step :=
  [(⟨fun i => i == .createInodes, calm.answer⟩, .create [] nameA sIfreg),
    (calm, .create [] nameF sIfreg)]

/-- The one visible record is that of the second create. -/
theorem records_resolve_uncounted :
    Sound emptyRoot ∧ RecordsResolve (emptyRootRun createUncounted).mach.mem.toVol ∧
      Visible (emptyRootRun createUncounted).mach.mem.toVol ⟨sIfdir, 0, 1, 2, 1⟩ 0 := by
  have hroot : (mount demoPlatform emptyRoot).mem.toVol.priv [] = some ⟨sIfdir, 0, 1, 2, 0⟩ := by
    decide +kernel
  have hfirst : (((Call.create [] nameA sIfreg).prog demoPlatform).run
      ⟨fun i => i == .createInodes, calm.answer⟩ 0 (mount demoPlatform emptyRoot)).result? =
        some (.status (.error .eintr)) := by
    decide +kernel
  have hsecond : (((Call.create [] nameA sIfreg).prog demoPlatform).run
      ⟨fun i => i == .createInodes, calm.answer⟩ 0 (mount demoPlatform emptyRoot)).mach.mem.priv [] =
        some ⟨sIfdir, 0, 1, 2, 0⟩ := by
    decide +kernel
  have hend : (emptyRootRun createUncounted).mach.mem.priv [] = some ⟨sIfdir, 0, 1, 2, 1⟩ := by
    decide +kernel
  have hissues : Issues demoPlatform CreatesAppending createUncounted (mount demoPlatform emptyRoot) := by
    refine (eachStep_cons_done (Outcome.eq_done hfirst)).mpr
      ⟨⟨rfl, rfl, by decide, fun par hpar => ?_⟩, ⟨rfl, rfl, by decide, fun par hpar => ?_⟩,
        fun _ _ _ => trivial⟩
    · obtain rfl := Option.some.inj (hroot.symm.trans hpar)
      decide
    · obtain rfl := Option.some.inj (hsecond.symm.trans hpar)
      decide
  refine ⟨emptyRoot_sound, records_resolve_of_add_waits demoPlatform emptyRoot emptyRoot_sound
    (fun k hk => ?_) createUncounted hissues _ (emptyRootRun_mem createUncounted),
    .inr ⟨[], hend⟩, by decide, by decide⟩
  rw [emptyRoot_zero hk, emptyRoot_slot]
  decide

/-- The first wait of `simplefs_inode_add` is interrupted. -/
def createUnstored : List Step :=
  [(⟨fun i => i == .addInodes, calm.answer⟩, .create [] nameA sIfreg)]

/-- The create goes on without its inode: the root directory's only record names
number 9, and the table ends with number 1. -/
theorem record_names_nothing :
    Sound emptyRoot ∧ ∃ m ∈ states demoPlatform createUnstored (mount demoPlatform emptyRoot),
      ¬ RecordsResolve m.mem.toVol := by
  refine ⟨emptyRoot_sound, _, emptyRootRun_mem createUnstored, fun h => ?_⟩
  obtain ⟨hpriv, hcount, hslot, hrec⟩ :
      (emptyRootRun createUnstored).mach.mem.priv [] = some ⟨sIfdir, 0, 1, 2, 1⟩ ∧
      (emptyRootRun createUnstored).mach.mem.cache.count.toNat = 1 ∧
      ((emptyRootRun createUnstored).mach.mem.cache.slot 0).inodeNo = 1 ∧
      (emptyRootRun createUnstored).mach.mem.cache.recordNo ⟨sIfdir, 0, 1, 2, 1⟩ 0 = 9 := by
    decide +kernel
  obtain ⟨k, hk, hno⟩ := h.stored ⟨sIfdir, 0, 1, 2, 1⟩ 0 ⟨.inr ⟨[], hpriv⟩, by decide, by decide⟩
  rw [hrec, show k = 0 by omega, hslot] at hno
  exact absurd hno (by decide)

end Lkm.Simplefs
