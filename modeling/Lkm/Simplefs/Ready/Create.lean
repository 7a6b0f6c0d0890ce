import Lkm.Simplefs.Logic.Exact
import Lkm.Simplefs.Ready.Basic

/-!
# Creates keep the tree

A create that goes through passes three images: the one it started from, up to bits of
the map and a slot past the end; one with an inode that no record names; and in the end
one with a record of it. `Creating.tree_created` is the tree afterwards. The logic on
volumes does not tell which of several errors a create returns, the exact one does
(`xwp_create_exits`).
-/

namespace Lkm.Simplefs

open Base

/-- Filling a record leaves the others alone. -/
theorem SameRecord.setRecordInodeNo {r k : Nat} (b : Buf) (no : U64) (h : r ≠ k) :
    SameRecord r b (setRecordInodeNo b k no) := by
  intro i hlo hhi
  unfold Simplefs.setRecordInodeNo put64
  apply put_frame
  rw [wordBytes_length]
  unfold sizeofDirRecord at *
  omega

theorem SameRecord.strcpyFilename {r k : Nat} (b : Buf) {name : List Byte}
    (hname : name.length ≤ 255) (h : r ≠ k) : SameRecord r b (strcpyFilename b k name) := by
  intro i hlo hhi
  unfold Simplefs.strcpyFilename
  apply put_frame
  rw [List.length_append, List.length_singleton]
  unfold sizeofDirRecord at *
  omega

theorem SameRecord.trans {r : Nat} {b b' b'' : Buf} (h : SameRecord r b b')
    (h' : SameRecord r b' b'') : SameRecord r b b'' :=
  fun i hlo hhi => (h' i hlo hhi).trans (h i hlo hhi)

/-- A name that fits its field ends there. -/
theorem recordTerminated_strcpyFilename (b : Buf) (k : Nat) {name : List Byte}
    (hname : name.length < simplefsFilenameMaxlen) : RecordTerminated (strcpyFilename b k name) k := by
  refine ⟨name.length, hname, ?_⟩
  unfold strcpyFilename
  rw [put_inside (by simp)]
  simp

namespace Creating

variable {P : Platform} {N : Nat} {v : Vol} {dir : Path} {name : Name} {ino par : SimplefsInode}
  {j : Nat}

/-- An image with the new inode, in which the parent's block is the old one but for the record
after the last. -/
theorem appends (h : Creating P N v dir name ino par j) {img : Image}
    (hcount : img.count = v.cache.count + 1) (hnew : img.slot v.cache.count.toNat = ino)
    (hold : ∀ k, k < v.cache.count.toNat → img.slot k = v.cache.slot k)
    (hdata : ∀ b, 2 ≤ b → b ≠ par.dataBlockNumber.toNat → img b = v.cache b)
    (hparent : ∀ r, r ≠ par.dirChildrenCount.toNat →
      SameRecord r (v.cache par.dataBlockNumber.toNat) (img par.dataBlockNumber.toNat)) :
    v.cache.Appends img := by
  refine ⟨h.room, hcount, hold, ?_, ?_, ?_⟩
  · rw [hnew, h.number]
  · rw [hnew, h.empty]
  · intro a r hl
    unfold Image.data
    by_cases haj : a = j
    · subst haj
      have hr : r < par.dirChildrenCount.toNat := h.slot ▸ hl.record
      rw [h.slot]
      exact hparent r (Nat.ne_of_lt hr)
    · rw [hdata _ (h.coherent.tables.block_ge a hl.lt) (h.block_ne hl.lt haj)]
      exact .refl _ _

/-- An image with one inode more is tree-shaped if the block of that inode has been taken. -/
theorem shaped_of_taken (ht : TreeShaped N v.cache) (hN : N ≤ 31) (hfound : v.freeIndex P ≠ 64)
    {img : Image} (happ : v.cache.Appends img)
    (hblock : (img.slot v.cache.count.toNat).dataBlockNumber.toNat = v.freeIndex P)
    (hfree : img.free = v.cache.free &&& ~~~bitMask P (v.freeIndex P)) : TreeShaped N img := by
  have hindex := ht.tables.freeIndex hN hfound
  apply happ.treeShaped ht
  · rw [hblock]
    exact ⟨Vol.freeIndex_ge P v, hindex.1⟩
  · intro k hk
    rw [hblock]
    exact hindex.2 k hk
  · intro b hb
    rw [hfree] at hb
    rw [hblock]
    exact ht.tables.taken hN hfound hb

theorem shaped_of_appends (h : Creating P N v dir name ino par j) (ht : TreeShaped N v.cache)
    {img : Image} (happ : v.cache.Appends img) (hnew : img.slot v.cache.count.toNat = ino)
    (hfree : img.free = v.cache.free &&& ~~~bitMask P (v.freeIndex P)) : TreeShaped N img := by
  apply shaped_of_taken ht h.hi_le h.found happ _ hfree
  rw [hnew, h.block]

section Volumes

variable (P v ino par name)

/-- The volumes of a create, as far as their caches go: the inode is appended, -/
def appendedVol : Vol :=
  ((v.setFree (v.cache.free &&& ~~~bitMask P (v.freeIndex P))).putSlot v.cache.count.toNat
    ino).setCount (v.cache.count + 1)

/-- the record has its number, -/
def numberedVol : Vol :=
  (appendedVol P v ino).modify par.dataBlockNumber.toNat
    (setRecordInodeNo · par.dirChildrenCount.toNat ino.inodeNo)

/-- and its name. -/
def namedVol : Vol :=
  (numberedVol P v ino par).modify par.dataBlockNumber.toNat
    (strcpyFilename · par.dirChildrenCount.toNat name.bytes)

end Volumes

theorem appended_slot_old {k : Nat} (hk : k < v.cache.count.toNat) :
    (appendedVol P v ino).cache.slot k = v.cache.slot k := by
  unfold appendedVol
  rw [Vol.setCount_slot, Vol.putSlot_slot_ne _ (Nat.ne_of_lt hk), Vol.setFree_slot]

theorem appended_slot_new : (appendedVol P v ino).cache.slot v.cache.count.toNat = ino := by
  unfold appendedVol
  rw [Vol.setCount_slot, Vol.putSlot_slot_self]

theorem appended_free :
    (appendedVol P v ino).cache.free = v.cache.free &&& ~~~bitMask P (v.freeIndex P) := by
  unfold appendedVol
  rw [Vol.setCount_free, Vol.putSlot_free, Vol.setFree_free]

theorem appended_count : (appendedVol P v ino).cache.count = v.cache.count + 1 := by
  unfold appendedVol
  rw [Vol.setCount_count]

theorem appended_data {b : Nat} (hb : 2 ≤ b) : (appendedVol P v ino).cache b = v.cache b := by
  unfold appendedVol
  rw [Vol.setCount_cache_ne _ (by omega), Vol.putSlot_cache_ne _ (by omega),
    Vol.setFree_cache_ne _ (by omega)]

theorem appends_numbered (h : Creating P N v dir name ino par j) :
    v.cache.Appends (numberedVol P v ino par).cache := by
  have hlow := h.block_ge
  unfold numberedVol
  apply h.appends
  · rw [Vol.modify_count _ hlow, appended_count]
  · rw [Vol.modify_slot _ hlow, appended_slot_new]
  · intro k hk
    rw [Vol.modify_slot _ hlow, appended_slot_old hk]
  · intro b hb hne
    rw [Vol.modify_cache_ne _ _ hne, appended_data hb]
  · intro r hr
    rw [Vol.modify_cache_self, appended_data hlow]
    exact .setRecordInodeNo _ _ hr

theorem appends_named (h : Creating P N v dir name ino par j) :
    v.cache.Appends (namedVol P v name ino par).cache := by
  have hlow := h.block_ge
  unfold namedVol numberedVol
  apply h.appends
  · rw [Vol.modify_count _ hlow, Vol.modify_count _ hlow, appended_count]
  · rw [Vol.modify_slot _ hlow, Vol.modify_slot _ hlow, appended_slot_new]
  · intro k hk
    rw [Vol.modify_slot _ hlow, Vol.modify_slot _ hlow, appended_slot_old hk]
  · intro b hb hne
    rw [Vol.modify_cache_ne _ _ hne, Vol.modify_cache_ne _ _ hne, appended_data hb]
  · intro r hr
    rw [Vol.modify_cache_self, Vol.modify_cache_self, appended_data hlow]
    exact .trans (.setRecordInodeNo _ _ hr) (.strcpyFilename _ name.short hr)

/-! ### The record counts -/

theorem named_free :
    2 ≤ par.dataBlockNumber.toNat → (namedVol P v name ino par).cache.free =
      v.cache.free &&& ~~~bitMask P (v.freeIndex P) := by
  intro hlow
  unfold namedVol numberedVol
  rw [Vol.modify_free _ hlow, Vol.modify_free _ hlow, appended_free]

theorem named_slot_new (h : Creating P N v dir name ino par j) :
    (namedVol P v name ino par).cache.slot v.cache.count.toNat = ino := by
  unfold namedVol numberedVol
  rw [Vol.modify_slot _ h.block_ge, Vol.modify_slot _ h.block_ge, appended_slot_new]

theorem named_slot_parent (h : Creating P N v dir name ino par j) :
    (namedVol P v name ino par).cache.slot j = par := by
  rw [h.appends_named.old j h.lt, h.slot]

/-- The parent's block with the record in it. -/
theorem named_block (h : Creating P N v dir name ino par j) :
    (namedVol P v name ino par).cache.data j =
      strcpyFilename (setRecordInodeNo (v.cache par.dataBlockNumber.toNat)
        par.dirChildrenCount.toNat ino.inodeNo) par.dirChildrenCount.toNat name.bytes := by
  unfold Image.data
  rw [h.named_slot_parent]
  unfold namedVol numberedVol
  rw [Vol.modify_cache_self, Vol.modify_cache_self, appended_data h.block_ge]

theorem prepared (h : Creating P N v dir name ino par j) (ht : TreeShaped N v.cache)
    (hdir : v.cache.resolve dir = some j) (habsent : v.cache.resolve (name :: dir) = none) :
    (namedVol P v name ino par).cache.Prepared j name v.cache.count.toNat := by
  have happ := h.appends_named
  have hpar := h.named_slot_parent
  have hblock := h.named_block
  have hnumber : (namedVol P v name ino par).cache.entry j par.dirChildrenCount.toNat =
      ino.inodeNo := by
    show recordInodeNo ((namedVol P v name ino par).cache.data j) _ = _
    rw [hblock, recordInodeNo_strcpyFilename h.short, recordInodeNo_setRecordInodeNo_self]
  constructor
  case lt =>
    rw [happ.count_eq]
    omega
  case ne => exact Ne.symm (Nat.ne_of_lt h.lt)
  case empty =>
    intro r hl
    have := (happ.lists_iff.mp hl).lt
    omega
  case number => rw [hpar, hnumber, h.named_slot_new]
  case not_root => exact happ.number_ne_root
  case unnamed =>
    intro a r hl
    exact happ.entry_ne ht.toWellFormed (happ.lists_iff.mp hl)
  case terminated =>
    rw [hpar, hblock]
    exact recordTerminated_strcpyFilename _ _ h.short
  case named =>
    show filenameMatches ((namedVol P v name ino par).cache.data j) _ _ = true
    rw [hpar, hblock]
    exact filenameMatches_strcpyFilename _ _ _
  case new =>
    intro r hl hname
    -- then the name would have been in the directory before
    have hl := happ.lists_iff.mp hl
    have hold : v.cache.Named j r name := by
      show filenameMatches (v.cache.data j) r name.bytes = true
      rw [← (happ.record hl).matches_iff]
      exact hname
    obtain ⟨k, hk, hno⟩ := ht.stored j r hl
    have := ht.resolve_cons_iff.mpr ⟨j, r, hdir, hl, hold, hk, hno⟩
    cases habsent.symm.trans this

theorem bumps (h : Creating P N v dir name ino par j) :
    (namedVol P v name ino par).cache.Bumps (v.created P dir name ino par j).cache j := by
  have hpar := h.named_slot_parent
  have hcache : (v.created P dir name ino par j).cache =
      ((namedVol P v name ino par).putSlot j par.bump).cache := Vol.created_cache
  rw [hcache]
  constructor
  case lt =>
    rw [h.appends_named.count_eq]
    have := h.lt
    omega
  case isdir =>
    rw [hpar]
    exact h.isdir
  case room =>
    rw [hpar]
    exact h.children
  case count => exact Vol.putSlot_count _
  case parent => rw [Vol.putSlot_slot_self, hpar]
  case others =>
    intro k hk
    exact Vol.putSlot_slot_ne _ hk
  case free => exact Vol.putSlot_free _
  case data =>
    intro b hb
    exact Vol.putSlot_cache_ne _ (by omega)

theorem shaped_named (h : Creating P N v dir name ino par j) (ht : TreeShaped N v.cache) :
    TreeShaped N (namedVol P v name ino par).cache :=
  h.shaped_of_appends ht h.appends_named h.named_slot_new (named_free h.block_ge)

theorem shaped_created (h : Creating P N v dir name ino par j) (ht : TreeShaped N v.cache)
    (hdir : v.cache.resolve dir = some j) (habsent : v.cache.resolve (name :: dir) = none) :
    TreeShaped N (v.created P dir name ino par j).cache :=
  h.bumps.treeShaped (h.prepared ht hdir habsent) (h.shaped_named ht)

/-- Every path leads where it did, and one more to the new inode. -/
theorem resolve_created (h : Creating P N v dir name ino par j) (ht : TreeShaped N v.cache)
    (hdir : v.cache.resolve dir = some j) (habsent : v.cache.resolve (name :: dir) = none)
    (p : Path) (x : Nat) :
    (v.created P dir name ino par j).cache.resolve p = some x ↔
      (p = name :: dir ∧ x = v.cache.count.toNat) ∨ v.cache.resolve p = some x := by
  have hsame := h.appends_named.resolve_eq ht (h.shaped_named ht)
  have hnamed : (namedVol P v name ino par).cache.resolve dir = some j := by
    rw [hsame, hdir]
  have hiff := h.bumps.resolve_iff (h.prepared ht hdir habsent) (h.shaped_named ht)
    (h.shaped_created ht hdir habsent) hnamed p x
  rwa [hsame] at hiff

/-- The tree after a create. -/
theorem tree_created (h : Creating P N v dir name ino par j) (ht : TreeShaped N v.cache)
    (hdir : v.cache.resolve dir = some j) (habsent : v.cache.resolve (name :: dir) = none) :
    (v.created P dir name ino par j).cache.tree =
      { node := v.cache.tree.hang dir name ino.node
        objects := v.cache.count.toNat + 1
        free := freeBits (v.cache.free &&& ~~~bitMask P (v.freeIndex P)) } := by
  have hiff := h.resolve_created ht hdir habsent
  have hnode : (v.created P dir name ino par j).cache.tree.node =
      v.cache.tree.hang dir name ino.node := by
    funext p
    unfold Tree.hang
    by_cases hnew : p = name :: dir
    · rw [if_pos hnew, TreeShaped.node_iff]
      exact ⟨_, (hiff p _).mpr (.inl ⟨hnew, rfl⟩), by rw [h.slot_new]⟩
    · rw [if_neg hnew]
      have hsame : (v.created P dir name ino par j).cache.resolve p = v.cache.resolve p := by
        apply Option.ext
        intro x
        rw [hiff p x]
        simp [hnew]
      by_cases hpar : p = dir
      · subst hpar
        rw [if_pos rfl]
        have hbefore : v.cache.tree.node p = some par.node :=
          TreeShaped.node_iff.mpr ⟨j, hdir, by rw [h.slot]⟩
        rw [hbefore]
        exact TreeShaped.node_iff.mpr ⟨j, hsame.trans hdir, by rw [Vol.created_slot_parent]; rfl⟩
      · rw [if_neg hpar]
        show ((v.created P dir name ino par j).cache.resolve p).map _ =
          (v.cache.resolve p).map _
        rw [hsame]
        cases hx : v.cache.resolve p with
        | none => rfl
        | some x =>
            have hne : x ≠ j := by
              rintro rfl
              exact hpar (ht.resolve_inj hx hdir)
            show some (Image.slot _ x).node = some _
            rw [h.slot_old (ht.resolve_lt hx) hne]
  have hobjects : (v.created P dir name ino par j).cache.count.toNat = v.cache.count.toNat + 1 :=
    h.count
  have hfree : (v.created P dir name ino par j).cache.free =
      v.cache.free &&& ~~~bitMask P (v.freeIndex P) := Vol.created_free h.block_ge
  rw [← hnode, ← hobjects, ← hfree]
  rfl

/-- Taking the block and appending the inode. -/
theorem along_shaped_add (ht : TreeShaped N v.cache) (hN : N ≤ 31)
    (hroom : v.cache.count.toNat < 64) (hfound : v.freeIndex P ≠ 64)
    (hno : ino.inodeNo.toNat = v.cache.count.toNat + 8)
    (hblock : ino.dataBlockNumber.toNat = v.freeIndex P) (hempty : ino.dirChildrenCount = 0) :
    Along (fun u => TreeShaped N u.cache) v (takeScript P v ++ addScript v ino) := by
  have htaken : TreeShaped N
      (v.setFree (v.cache.free &&& ~~~bitMask P (v.freeIndex P))).cache := by
    have hagrees : v.cache.Agrees
        (v.setFree (v.cache.free &&& ~~~bitMask P (v.freeIndex P))).cache :=
      .of_eq ht.toWellFormed (Vol.setFree_count _) (fun k _ => Vol.setFree_slot _)
        fun b hb => Vol.setFree_cache_ne _ (by omega)
    apply hagrees.treeShaped ht
    intro b hb
    rw [Vol.setFree_free] at hb
    exact (ht.tables.taken hN hfound hb).1
  have hput : TreeShaped N ((v.setFree (v.cache.free &&& ~~~bitMask P (v.freeIndex P))).putSlot
      v.cache.count.toNat ino).cache := by
    apply Image.Agrees.treeShaped (Image.Agrees.of_eq htaken.toWellFormed _ _ _) htaken
    · intro b hb
      rwa [Vol.putSlot_free] at hb
    · exact Vol.putSlot_count _
    · intro k hk
      rw [Vol.setFree_count] at hk
      exact Vol.putSlot_slot_ne _ (Nat.ne_of_lt hk)
    · intro b hb
      exact Vol.putSlot_cache_ne _ (by omega)
  have happ : TreeShaped N (appendedVol P v ino).cache := by
    have happends : v.cache.Appends (appendedVol P v ino).cache := by
      refine ⟨hroom, appended_count, fun k hk => appended_slot_old hk, ?_, ?_, ?_⟩
      · rw [appended_slot_new, hno]
      · rw [appended_slot_new, hempty]
      · intro a r hl
        rw [appended_data (ht.block_range a hl.lt).1]
        exact .refl _ _
    apply shaped_of_taken ht hN hfound happends _ appended_free
    rw [appended_slot_new, hblock]
  simp only [takeScript, addScript, syncScript, List.cons_append, List.nil_append, along_cons]
  exact ⟨htaken, htaken, htaken, hput, happ, happ, happ, happ, along_nil⟩

/-- Every volume of a create is tree-shaped. -/
theorem along_shaped (h : Creating P N v dir name ino par j) (ht : TreeShaped N v.cache)
    (hdir : v.cache.resolve dir = some j) (habsent : v.cache.resolve (name :: dir) = none) :
    Along (fun u => TreeShaped N u.cache) v (createScript P v dir name ino par j) := by
  have hlow := h.block_ge
  have hadd := along_shaped_add ht h.hi_le h.room h.found h.number h.block h.empty
  have hnumbered : TreeShaped N (numberedVol P v ino par).cache := by
    apply h.shaped_of_appends ht h.appends_numbered
    · unfold numberedVol
      rw [Vol.modify_slot _ hlow, appended_slot_new]
    · unfold numberedVol
      rw [Vol.modify_free _ hlow, appended_free]
  have hnamed := h.shaped_named ht
  have hdone := h.shaped_created ht hdir habsent
  have hrest : Along (fun u => TreeShaped N u.cache) (v.after (takeScript P v ++ addScript v ino))
      (recordScript par.dataBlockNumber.toNat par.dirChildrenCount.toNat ino.inodeNo name.bytes ++
        (·.bumpChildren dir) :: saveScript j par.bump ++
          [(·.dAdd (name :: dir) (vfsInode ino))]) := by
    simp only [recordScript, saveScript, syncScript, List.cons_append, List.nil_append, along_cons]
    exact ⟨hnumbered, hnamed, hnamed, hnamed, hnamed, hdone, hdone, hdone, hdone, along_nil⟩
  have hsplit : createScript P v dir name ino par j = (takeScript P v ++ addScript v ino) ++
      (recordScript par.dataBlockNumber.toNat par.dirChildrenCount.toNat ino.inodeNo name.bytes ++
        (·.bumpChildren dir) :: saveScript j par.bump ++
          [(·.dAdd (name :: dir) (vfsInode ino))]) := by
    simp only [createScript, List.append_assoc, List.cons_append]
  rw [hsplit, along_append]
  exact ⟨hadd, hrest⟩

/-- The VFS inode of the new object is the one a lookup would make. -/
theorem vfsInode_eq (h : Creating P N v dir name ino par j)
    (hkind : sIsdir ino.mode = true ∨ sIsreg ino.mode = true) :
    vfsInode ino = igetInode ino.inodeNo ino := by
  have hno := h.number
  have hroom := h.room
  have hint : asInt ino.inodeNo = ino.inodeNo := asInt_eq (by omega)
  unfold vfsInode igetInode
  rw [hint]
  rcases hkind with hk | hk
  · simp [hk]
  · cases hd : sIsdir ino.mode <;> simp [hk]

theorem ready_created (h : Creating P N v dir name ino par j) (hr : Ready N v)
    (hkind : sIsdir ino.mode = true ∨ sIsreg ino.mode = true)
    (hdir : v.cache.resolve dir = some j) (habsent : v.cache.resolve (name :: dir) = none) :
    Ready N (v.created P dir name ino par j) := by
  have hpast : ∀ b, (v.created P dir name ino par j).past b ≠ [] → v.past b ≠ [] := by
    intro b hb hnone
    exact hb (Vol.created_past hnone)
  obtain ⟨d, hd, hdp⟩ := Coherent.dcache_of_priv h.priv
  have hdirEntry : (v.created P dir name ino par j).dcache dir =
      some { d with iPrivate := some par.bump } := Vol.created_dcache_dir hd hdp
  constructor
  case shaped => exact h.shaped_created hr.shaped hdir habsent
  case coherent => exact h.coherent_created
  case root =>
    obtain ⟨i, hroot⟩ := hr.root
    by_cases hnil : dir = []
    · subst hnil
      cases hroot.symm.trans hd
      exact ⟨par.bump, hdirEntry⟩
    · refine ⟨i, ?_⟩
      rw [Vol.created_dcache_ne (Ne.symm hnil) (by simp), hroot]
  case below =>
    intro n p e he
    by_cases hnew : n :: p = name :: dir
    · rw [hnew, Vol.created_dcache_new h.absent] at he
      cases he
      exact ⟨ino, h.vfsInode_eq hkind⟩
    · by_cases hpar : n :: p = dir
      · rw [hpar, hdirEntry] at he
        cases he
        rw [← hpar] at hd
        obtain ⟨i, rfl⟩ := hr.below n p d hd
        cases hdp
        exact ⟨par.bump, rfl⟩
      · rw [Vol.created_dcache_ne hpar hnew] at he
        exact hr.below n p e he
  case synced =>
    intro b hb
    obtain ⟨k, hk, hfile, hblk⟩ := hr.synced b (hpast b hb)
    have hsame := h.same hk
    refine ⟨k, ?_, ?_, ?_⟩
    · rw [h.count]
      omega
    · rw [hsame.mode, hfile]
    · rw [hsame.block, hblk]

end Creating

/-! ### The call -/

/-- The allocator and the list of free blocks, if these are all below 31. -/
theorem freeBits_cases (P : Platform) {N : Nat} (hN : N ≤ 31) {v : Vol}
    (hfree : ∀ b, v.cache.free.getLsbD b = true → 2 ≤ b ∧ b < N) :
    (v.freeIndex P = 64 ∧ freeBits v.cache.free = []) ∨
      (v.freeIndex P ≠ 64 ∧ freeBits v.cache.free =
        v.freeIndex P :: freeBits (v.cache.free &&& ~~~bitMask P (v.freeIndex P))) := by
  cases hbits : freeBits v.cache.free with
  | nil =>
      left
      rcases Vol.freeIndex_cases P hN hfree with ⟨hnone, -⟩ | ⟨hlt, hbit⟩
      · exact ⟨hnone, rfl⟩
      · have hmem := mem_freeBits.mpr ⟨Vol.freeIndex_ge P v, hbit⟩
        rw [hbits] at hmem
        cases hmem
  | cons i rest =>
      right
      obtain ⟨-, hbit, -⟩ := freeBits_cons hbits
      have hi := (hfree i hbit).2
      have hindex : v.freeIndex P = i := freeIndex_low hbits (by omega)
      rw [hindex]
      refine ⟨by omega, ?_⟩
      rw [freeBits_clear hbits (getLsbD_clear P v.cache.free (by omega))]

section Create

variable {P : Platform} {N : Nat} {v : Vol} {w : Outside} {dir : Path} {name : Name} {mode : U32}

/-- A create that is refused, in the tree. -/
theorem tree_create_refused (ht : TreeShaped N v.cache) (hN : N ≤ 31) (hw : w.Uninterrupted)
    {e : Errno} (h : createError P w v mode = some e) :
    v.cache.tree.create dir name mode (w.answer .newInode) = (.error e, v.cache.tree) := by
  have hw₁ := hw .createDirectory
  have hw₂ := hw .objectsCount
  have hw₃ := hw .freeblock
  unfold createError at h
  unfold Tree.create
  simp only [hw₁, hw₂, hw₃, Bool.false_eq_true, if_false] at h
  show (if 64 ≤ v.cache.count.toNat then _ else _) = _
  by_cases hfull : 64 ≤ v.cache.count.toNat
  · rw [if_pos hfull] at h ⊢
    cases h
    rfl
  rw [if_neg hfull] at h ⊢
  by_cases hmode : (!sIsdir mode && !sIsreg mode) = true
  · rw [if_pos hmode] at h ⊢
    cases h
    rfl
  rw [if_neg hmode] at h ⊢
  by_cases hmem : (!w.answer .newInode) = true
  · rw [if_pos hmem] at h ⊢
    cases h
    rfl
  rw [if_neg hmem] at h ⊢
  rcases freeBits_cases P hN ht.free_range with ⟨hindex, hbits⟩ | ⟨hindex, -⟩
  · rw [if_pos hindex] at h
    cases h
    have hfree : v.cache.tree.free = [] := hbits
    rw [hfree]
  · rw [if_neg hindex] at h
    cases h

/-- A create that goes through, in the tree. -/
theorem tree_create_ok (ht : TreeShaped N v.cache) (hN : N ≤ 31) (h : Allocates P w v mode) :
    v.cache.tree.create dir name mode (w.answer .newInode) = (.ok (), {
      node := v.cache.tree.hang dir name (newInode P v mode (w.answer .slab)).node
      objects := v.cache.count.toNat + 1
      free := freeBits (v.cache.free &&& ~~~bitMask P (v.freeIndex P)) }) := by
  have hroom := h.room
  have hkind : (!sIsdir mode && !sIsreg mode) = false := by
    rcases h.kind with hd | hr
    · simp [hd]
    · simp [hr]
  have hnumber : BitVec.ofNat 64 (v.cache.count.toNat + 8) =
      (newInode P v mode (w.answer .slab)).inodeNo := by
    apply BitVec.eq_of_toNat_eq
    rw [newInode_number P hroom, BitVec.toNat_ofNat]
    omega
  unfold Tree.create
  show (if 64 ≤ v.cache.count.toNat then _ else _) = _
  rw [if_neg (by omega), hkind, if_neg (by simp), h.newInode, if_neg (by simp)]
  rcases freeBits_cases P hN ht.free_range with ⟨hindex, -⟩ | ⟨-, hbits⟩
  · exact absurd hindex h.block
  · have hfree : v.cache.tree.free = v.freeIndex P :: _ := hbits
    rw [hfree]
    show (Except.ok (), Tree.mk (v.cache.tree.hang dir name
      ⟨BitVec.ofNat 64 (v.cache.count.toNat + 8), mode, _, 0⟩) _ _) = _
    rw [hnumber]
    rfl

/-- How a create ends: with an error on the same volume, or with the tree one object larger. -/
def CreateEnds (P : Platform) (N : Nat) (v : Vol) (dir : Path) (name : Name) (mode : U32)
    (slab : SimplefsInode) (r : Except Errno Unit) (v' : Vol) : Prop :=
  Ready N v' ∧
    match r with
    | .error _ => v' = v
    | .ok () => v'.cache.tree = {
        node := v.cache.tree.hang dir name (newInode P v mode slab).node
        objects := v.cache.count.toNat + 1
        free := freeBits (v.cache.free &&& ~~~bitMask P (v.freeIndex P)) }

theorem Ready.create (h : Ready N v) (hN : N ≤ 31) (hle : N ≤ P.nrBlocks) (hw : w.Uninterrupted)
    {a : Nat} (ha : v.cache.resolve dir = some a) (hpriv : v.priv dir = some (v.cache.slot a))
    (hdir : sIsdir (v.cache.slot a).mode = true)
    (hroom : (v.cache.slot a).dirChildrenCount.toNat < 16)
    (hname : name.bytes.length < simplefsFilenameMaxlen)
    (habsent : v.cache.resolve (name :: dir) = none) (hdentry : v.dcache (name :: dir) = none) :
    CreateOk P (fun u => TreeShaped N u.cache) w (fun _ => False) dir name mode
      (CreateEnds P N v dir name mode (w.answer .slab)) v := by
  have hlt := h.shaped.resolve_lt ha
  have hblock := h.shaped.block_range a hlt
  have hpar : ∀ par, v.priv dir = some par → par = v.cache.slot a :=
    fun par hp => Option.some.inj (hp.symm.trans hpriv)
  have hsame : ∀ e, CreateEnds P N v dir name mode (w.answer .slab) (.error e) v :=
    fun e => ⟨h, rfl⟩
  apply CreateOk.of_quiet hw
  · intro hsmall
    omega
  · intro hnone
    cases hnone.symm.trans hpriv
  · intro par hp hout
    rw [hpar par hp] at hout
    omega
  · intro par hp
    rw [hpar par hp]
    exact hroom
  · exact fun _ => hsame _
  · exact fun _ _ _ => hsame _
  · exact fun _ _ => hsame _
  · exact fun _ _ => hsame _
  · intro hcount hfound
    exact Creating.along_shaped_add h.shaped hN hcount hfound (newInode_number P hcount _ _)
      (newInode_block P v _ _) rfl
  · intro par hp hcount hkind hfound
    obtain rfl := hpar par hp
    have hc : Creating P N v dir name (newInode P v mode (w.answer .slab)) (v.cache.slot a) a :=
      ⟨h.coherent, hN, hcount, hfound, ⟨mode, _, rfl⟩, hlt, rfl, hpriv, hdir, hroom, hname, hdentry⟩
    refine ⟨hblock.1, a, ⟨hlt, rfl, ?_⟩, hc.along_shaped h.shaped ha habsent,
      hc.ready_created h hkind ha habsent, hc.tree_created h.shaped ha habsent⟩
    intro i hi heq
    have := h.shaped.number_inj i a (by omega) hlt heq
    omega

/-- Which of the two it is: an error of the checks before the allocation is returned, and behind them
an inode is counted or the create goes through. -/
structure CreateExits (P : Platform) (w : Outside) (v : Vol) (mode : U32) (r : Except Errno Unit)
    (v' : Vol) : Prop where
  refused : ∀ e, createError P w v mode = some e → r = .error e
  granted : Allocates P w v mode → r = .ok () ∨ v'.cache.count = v.cache.count + 1
  allocates : createError P w v mode = none → Allocates P w v mode

theorem xwp_create_exits (hw : w.Uninterrupted) {refs : Refs}
    (hlow : ∀ par, v.priv dir = some par → 2 ≤ par.dataBlockNumber.toNat) :
    xwp w (simplefsCreateFsObject P dir name mode)
      (fun r v' _ => CreateExits P w v mode r v') v refs := by
  apply xwp_simplefsCreateFsObject
  · intro e he
    constructor
    · intro e' he'
      cases he.symm.trans he'
      rfl
    · intro halloc
      cases halloc.createError_eq.symm.trans he
    · intro hnone
      cases hnone.symm.trans he
  · intro ino v₁ halloc hino hv₁
    have hnone := halloc.createError_eq
    have hnever : ∀ e, createError P w v mode ≠ some e := by
      intro e he
      cases hnone.symm.trans he
    have hskip : addSkips w = false := by simp [addSkips, hw .addInodes, hw .addSb]
    subst hv₁
    constructor
    · intro par v₂ _ _ _ hi
      cases (hw .createInodes).symm.trans hi
    · intro par v₂ e hpriv _ hv₂ _ _
      refine ⟨fun e he => absurd he (hnever e), fun _ => .inr ?_, fun _ => halloc⟩
      rw [hskip] at hpriv hv₂
      have hpar : v.priv dir = some par := hpriv
      show v₂.cache.count = v.cache.count + 1
      rw [hv₂, Vol.recorded_count (hlow par hpar)]
      show (Vol.setCount _ (Image.count (Vol.cache (v.after (takeScript P v))) + 1)).cache.count = _
      rw [Vol.setCount_count, Vol.count_after_takeScript]
    · intro par v₂ v' _ _ _ _ _ _
      exact ⟨fun e he => absurd he (hnever e), fun _ => .inl rfl, fun _ => halloc⟩

/-- Both together determine the result and the tree. -/
theorem CreateEnds.tree_create (ht : TreeShaped N v.cache) (hN : N ≤ 31) (hw : w.Uninterrupted)
    {r : Except Errno Unit} {v' : Vol} (hends : CreateEnds P N v dir name mode (w.answer .slab) r v')
    (hexits : CreateExits P w v mode r v') :
    v.cache.tree.create dir name mode (w.answer .newInode) = (r, v'.cache.tree) := by
  obtain ⟨-, hend⟩ := hends
  cases herr : createError P w v mode with
  | some e =>
      obtain rfl := hexits.refused e herr
      have hsame : v' = v := hend
      rw [tree_create_refused ht hN hw herr, hsame]
  | none =>
      have halloc := hexits.allocates herr
      cases r with
      | ok _ =>
          have htree : v'.cache.tree = _ := hend
          rw [tree_create_ok ht hN halloc, htree]
      | error e =>
          -- an error leaves the count alone
          have hsame : v' = v := hend
          rcases hexits.granted halloc with hok | hcount
          · cases hok
          · rw [hsame] at hcount
            have hroom := halloc.room
            exact absurd (congrArg BitVec.toNat hcount) (by bv_omega)

end Create

end Lkm.Simplefs
