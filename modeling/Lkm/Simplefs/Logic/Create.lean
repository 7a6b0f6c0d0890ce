import Lkm.Simplefs.Logic.Loops

/-!
# A create that nothing interrupts

Without interruptions a create is all or nothing: it is refused and leaves the
volume alone, or it runs through one fixed list of updates (`createScript`).
`CreateOk.of_quiet` reduces its specification to that, and the lemmas about
`Vol.after` of the script say what the volume is afterwards: one more inode, one
bit fewer, one more record in the parent's block, and the parent's count one up,
in memory and in the table.
-/

namespace Lkm.Simplefs

open Base

/-- `par` with one more entry. -/
def SimplefsInode.bump (par : SimplefsInode) : SimplefsInode :=
  par.setDirChildrenCount (par.dirChildrenCount + 1)

/-- The updates of a successful create in the directory `par`, which is in slot
`j` of the table. -/
def createScript (P : Platform) (v : Vol) (dir : Path) (dentry : Name) (ino par : SimplefsInode)
    (j : Nat) : List (Vol → Vol) :=
  takeScript P v ++ addScript v ino ++
    recordScript par.dataBlockNumber.toNat par.dirChildrenCount.toNat ino.inodeNo dentry.bytes ++
    (·.bumpChildren dir) :: saveScript j par.bump ++ [(·.dAdd (dentry :: dir) (vfsInode ino))]

/-- The volume after a successful create. -/
def Vol.created (v : Vol) (P : Platform) (dir : Path) (dentry : Name) (ino par : SimplefsInode)
    (j : Nat) : Vol :=
  v.after (createScript P v dir dentry ino par j)

theorem Vol.after_append (v : Vol) (s t : List (Vol → Vol)) :
    v.after (s ++ t) = (v.after s).after t := by
  induction s generalizing v with
  | nil => rfl
  | cons f s ih => exact ih (f v)

theorem along_append {S : Vol → Prop} {v : Vol} {s t : List (Vol → Vol)} :
    Along S v (s ++ t) ↔ Along S v s ∧ Along S (v.after s) t := by
  induction s generalizing v with
  | nil => simp [along_nil]
  | cons f s ih =>
      rw [List.cons_append, along_cons, along_cons, ih, Vol.after_cons, and_assoc]

theorem Vol.bumpChildren_priv_self {v : Vol} {dir : Path} {par : SimplefsInode}
    (h : v.priv dir = some par) : (v.bumpChildren dir).priv dir = some par.bump := by
  unfold Vol.bumpChildren
  rw [Vol.setPrivate_priv_self, h]
  rfl

/-! ## The parent's block -/

section Recorded

variable {v : Vol} {b k : Nat} {no : U64} {name : List Byte}

theorem Vol.recorded_cache : (v.after (recordScript b k no name)).cache =
    ((v.modify b (setRecordInodeNo · k no)).modify b (strcpyFilename · k name)).cache := rfl

theorem Vol.recorded_block : (v.after (recordScript b k no name)).cache b =
    strcpyFilename (setRecordInodeNo (v.cache b) k no) k name := by
  rw [Vol.recorded_cache, Vol.modify_cache_self, Vol.modify_cache_self]

variable (hb : 2 ≤ b)

include hb

theorem Vol.recorded_count :
    (v.after (recordScript b k no name)).cache.count = v.cache.count := by
  rw [Vol.recorded_cache, Vol.modify_count _ hb, Vol.modify_count _ hb]

theorem Vol.recorded_slot (j : Nat) :
    (v.after (recordScript b k no name)).cache.slot j = v.cache.slot j := by
  rw [Vol.recorded_cache, Vol.modify_slot _ hb, Vol.modify_slot _ hb]

end Recorded

section Quiet

variable {P : Platform} {S : Vol → Prop} {w : Outside} {T : Fault → Prop} {v : Vol}

/-- A table with one more inode appended still has the parent in slot `j`. -/
theorem search_after_add {no : U64} {j : Nat} (hc : v.cache.count.toNat < 64)
    (hj : j < v.cache.count.toNat) (hno : (v.cache.slot j).inodeNo = no)
    (hmin : ∀ i, i < j → (v.cache.slot i).inodeNo ≠ no) {u : Vol}
    (hcount : u.cache.count = v.cache.count + 1)
    (hold : ∀ i, i < v.cache.count.toNat → u.cache.slot i = v.cache.slot i) :
    u.search no = .ok (some j) := by
  have hc' : u.cache.count.toNat = v.cache.count.toNat + 1 := by
    rw [hcount]
    bv_omega
  refine Vol.search_eq (by omega) (by omega) ?_ fun i hi => ?_
  · rw [hold j hj, hno]
  · rw [hold i (by omega)]
    exact hmin i hi

/-- Slot `j` is the first one with the number `no`. -/
structure Image.Finds (img : Image) (no : U64) (j : Nat) : Prop where
  lt : j < img.count.toNat
  number : (img.slot j).inodeNo = no
  first : ∀ i, i < j → (img.slot i).inodeNo ≠ no

/-- The part of a create behind the appended inode. -/
theorem LinkOk.of_quiet {dir : Path} {dentry : Name} {ino : SimplefsInode}
    {Q : Except Errno Unit → Vol → Prop} {u : Vol} (hw : w.Uninterrupted)
    (hbug : P.nrBlocks ≤ 1 → T .bug) (hnull : v.priv dir = none → T .nullPrivate)
    (hblk : ∀ par, v.priv dir = some par → P.nrBlocks ≤ par.dataBlockNumber.toNat → T .bug)
    (hroom : ∀ par, v.priv dir = some par → par.dirChildrenCount.toNat < 16)
    (hu : u = (v.after (takeScript P v)).after (addScript v ino))
    (hlt : v.cache.count.toNat < 64)
    (hdone : ∀ par, v.priv dir = some par → 2 ≤ par.dataBlockNumber.toNat ∧ ∃ j, v.cache.Finds par.inodeNo j ∧
      Along S v (createScript P v dir dentry ino par j) ∧
        Q (.ok ()) (v.created P dir dentry ino par j)) :
    LinkOk P S w T dir dentry ino.inodeNo (vfsInode ino) Q u := by
  have hquiet : ∀ i, w.interrupted i ≠ true := fun i hi => by simp [hw i] at hi
  have hpriv : u.priv dir = v.priv dir := hu ▸ rfl
  refine ⟨fun h => hnull (hpriv ▸ h), fun par h => hblk par (hpriv ▸ h), fun par h hge => ?_,
    fun par h _ _ => ?_, fun par _ _ _ h => absurd h (hquiet _), ?_⟩
  · have := hroom par (hpriv ▸ h)
    omega
  · obtain ⟨-, j, -, halong, -⟩ := hdone par (hpriv ▸ h)
    simp only [createScript, along_append, Vol.after_append] at halong
    rw [hu]
    exact halong.1.1.2
  · rintro par v₁ h - - rfl
    obtain ⟨hlow, j, hj, halong, hQ⟩ := hdone par (hpriv ▸ h)
    simp only [Vol.created, createScript, along_append, along_cons, Vol.after_append,
      Vol.after_cons, ← hu] at halong hQ
    obtain ⟨⟨-, hbump, hsave⟩, hadd⟩ := halong
    have hp : Vol.priv (Vol.bumpChildren (u.after (recordScript par.dataBlockNumber.toNat
        par.dirChildrenCount.toNat ino.inodeNo dentry.bytes)) dir) dir = some par.bump :=
      Vol.bumpChildren_priv_self (v := u.after _) h
    have hfind : Vol.search (Vol.bumpChildren (u.after (recordScript par.dataBlockNumber.toNat
        par.dirChildrenCount.toNat ino.inodeNo dentry.bytes)) dir) par.bump.inodeNo =
        .ok (some j) := by
      refine search_after_add (v := v) hlt hj.lt hj.number hj.first ?_ fun k hk => ?_
      · refine (Vol.recorded_count hlow).trans ?_
        rw [hu]
        exact Vol.setCount_count _
      · refine (Vol.recorded_slot hlow k).trans ?_
        rw [hu]
        show Image.slot (Vol.setCount (Vol.putSlot (Vol.setFree v _) _ _) _).cache k = _
        rw [Vol.setCount_slot, Vol.putSlot_slot_ne _ (Nat.ne_of_lt hk), Vol.setFree_slot]
    refine ⟨hbump, hbug, fun h => absurd (hp.symm.trans h) (by simp),
      fun h => absurd h (hquiet _), ?_, ?_, ?_⟩
    · intro ino' e h he
      cases hp.symm.trans h
      exact absurd (hfind.symm.trans he) (by simp)
    · intro ino' h he
      cases hp.symm.trans h
      exact absurd (hfind.symm.trans he) (by simp)
    · intro ino' k h he
      cases hp.symm.trans h
      cases hfind.symm.trans he
      exact ⟨hsave, hadd.1, hQ⟩

/-- The specification of a create without interruptions in a directory with room. -/
theorem CreateOk.of_quiet {dir : Path} {dentry : Name} {mode : U32}
    {Q : Except Errno Unit → Vol → Prop} (hw : w.Uninterrupted)
    (hbug : P.nrBlocks ≤ 1 → T .bug) (hnull : v.priv dir = none → T .nullPrivate)
    (hblk : ∀ par, v.priv dir = some par → P.nrBlocks ≤ par.dataBlockNumber.toNat → T .bug)
    (hroom : ∀ par, v.priv dir = some par → par.dirChildrenCount.toNat < 16)
    (hfull : 64 ≤ v.cache.count.toNat → Q (.error .enospc) v)
    (hmode : v.cache.count.toNat < 64 → sIsdir mode = false → sIsreg mode = false →
      Q (.error .einval) v)
    (hmem : v.cache.count.toNat < 64 → w.answer .newInode = false → Q (.error .enomem) v)
    (hnoBlock : v.cache.count.toNat < 64 → v.freeIndex P = 64 → Q (.error .enospc) v)
    (hadd : v.cache.count.toNat < 64 → v.freeIndex P ≠ 64 → Along S v
      (takeScript P v ++ addScript v (newInode P v mode (w.answer .slab))))
    (hdone : ∀ par, v.priv dir = some par → v.cache.count.toNat < 64 →
      sIsdir mode = true ∨ sIsreg mode = true → v.freeIndex P ≠ 64 →
      2 ≤ par.dataBlockNumber.toNat ∧ ∃ j, v.cache.Finds par.inodeNo j ∧
        Along S v (createScript P v dir dentry (newInode P v mode (w.answer .slab)) par j) ∧
        Q (.ok ()) (v.created P dir dentry (newInode P v mode (w.answer .slab)) par j)) :
    CreateOk P S w T dir dentry mode Q v := by
  have hquiet : ∀ i, w.interrupted i ≠ true := fun i hi => by simp [hw i] at hi
  -- the add script refers to the count only, and taking a block does not change it
  have hsame : ∀ ino, addScript (v.after (takeScript P v)) ino = addScript v ino := by
    intro ino
    unfold addScript
    rw [Vol.count_after_takeScript]
  refine ⟨hbug, ?_, hfull, hmode, hmem, hnoBlock, fun hlt _ hi => (along_append.mp (hadd hlt hi)).1,
    ?_, ?_⟩
  · rintro (h | h | h) <;> exact absurd h (hquiet _)
  · rintro v₁ hlt _ hi rfl
    rw [hsame]
    exact (along_append.mp (hadd hlt hi)).2
  · rintro skip v₁ hlt hkind hi rfl hskip
    cases skip with
    | true => rcases hskip rfl with h | h <;> exact absurd h (hquiet _)
    | false =>
        refine LinkOk.of_quiet hw hbug hnull hblk hroom ?_ hlt fun par hpar =>
          hdone par hpar hlt hkind hi
        rw [← hsame]
        rfl

end Quiet

/-! ## The volume afterwards -/

namespace Vol

variable {v : Vol} {P : Platform} {dir : Path} {dentry : Name} {ino par : SimplefsInode} {j : Nat}

/-- The blocks that a create changes, one after the other. -/
theorem created_cache :
    (v.created P dir dentry ino par j).cache =
      ((((((v.setFree (v.cache.free &&& ~~~bitMask P (v.freeIndex P))).putSlot
        v.cache.count.toNat ino).setCount (v.cache.count + 1)).modify par.dataBlockNumber.toNat
          (setRecordInodeNo · par.dirChildrenCount.toNat ino.inodeNo)).modify
            par.dataBlockNumber.toNat
              (strcpyFilename · par.dirChildrenCount.toNat dentry.bytes)).putSlot j par.bump).cache :=
  rfl

theorem created_slot_parent : (v.created P dir dentry ino par j).cache.slot j = par.bump := by
  rw [created_cache]
  simp

/-- Every other data block. -/
theorem created_cache_ne {b : Nat} (hb : 2 ≤ b) (hne : b ≠ par.dataBlockNumber.toNat) :
    (v.created P dir dentry ino par j).cache b = v.cache b := by
  rw [created_cache, putSlot_cache_ne _ (by omega), modify_cache_ne _ _ hne,
    modify_cache_ne _ _ hne, setCount_cache_ne _ (by omega), putSlot_cache_ne _ (by omega),
    setFree_cache_ne _ (by omega)]

section

variable (hlow : 2 ≤ par.dataBlockNumber.toNat)

include hlow

theorem created_count : (v.created P dir dentry ino par j).cache.count = v.cache.count + 1 := by
  rw [created_cache]
  simp [modify_count _ hlow]

theorem created_free : (v.created P dir dentry ino par j).cache.free =
    v.cache.free &&& ~~~bitMask P (v.freeIndex P) := by
  rw [created_cache]
  simp [modify_free _ hlow]

theorem created_slot_new (hj : j ≠ v.cache.count.toNat) :
    (v.created P dir dentry ino par j).cache.slot v.cache.count.toNat = ino := by
  rw [created_cache]
  simp [modify_slot _ hlow, putSlot_slot_ne _ (Ne.symm hj)]

theorem created_slot_ne {k : Nat} (hk : k ≠ v.cache.count.toNat) (hj : k ≠ j) :
    (v.created P dir dentry ino par j).cache.slot k = v.cache.slot k := by
  rw [created_cache]
  simp [modify_slot _ hlow, putSlot_slot_ne _ hj, putSlot_slot_ne _ hk]

/-- The parent's block. -/
theorem created_block : (v.created P dir dentry ino par j).cache par.dataBlockNumber.toNat =
    strcpyFilename (setRecordInodeNo (v.cache par.dataBlockNumber.toNat)
      par.dirChildrenCount.toNat ino.inodeNo) par.dirChildrenCount.toNat dentry.bytes := by
  rw [created_cache, putSlot_cache_ne _ (by omega), modify_cache_self, modify_cache_self,
    setCount_cache_ne _ (by omega), putSlot_cache_ne _ (by omega), setFree_cache_ne _ (by omega)]

end

/-- Once the record is written, everything is synced but the inode store: that is done with the
parent's inode only. -/
theorem recorded_past {b : Nat} (h : v.past b = []) (hstore : b ≠ 1) :
    (((v.after (takeScript P v)).after (addScript v ino)).after
      (recordScript par.dataBlockNumber.toNat par.dirChildrenCount.toNat ino.inodeNo
        dentry.bytes)).past b = [] := by
  have htake : (v.after (takeScript P v)).past b = [] := by
    show ((v.setFree _).after (syncScript 0)).past b = []
    apply past_sync_of _ h
    intro hb
    simp [setFree, modify, hb]
  have hadd : ((v.after (takeScript P v)).after (addScript v ino)).past b = [] := by
    show ((((v.after (takeScript P v)).putSlot v.cache.count.toNat ino).setCount
      (v.cache.count + 1)).markBufferDirty 1 |>.after (syncScript 0)).past b = []
    apply past_sync_of _ htake
    intro hb
    simp [setCount, putSlot, modify, hb, hstore]
  apply past_sync_of (v := (v.after (takeScript P v)).after (addScript v ino)) _ hadd
  intro hb
  simp [modify, hb]

/-- A create syncs all that it changes. -/
theorem created_past {b : Nat} (h : v.past b = []) :
    (v.created P dir dentry ino par j).past b = [] := by
  simp only [created, createScript, after_append, after_cons, after_nil, dAdd_past]
  show (Vol.after (putSlot _ j par.bump) (syncScript 1)).past b = []
  rw [past_sync]
  by_cases hstore : b = 1
  · rw [hstore, Function.update_self]
  · rw [Function.update_of_ne hstore]
    simp only [putSlot, modify, Function.update_of_ne hstore]
    exact recorded_past h hstore

theorem created_dcache :
    (v.created P dir dentry ino par j).dcache =
      ((v.bumpChildren dir).dAdd (dentry :: dir) (vfsInode ino)).dcache := rfl

theorem created_dcache_ne {q : Path} (hdir : q ≠ dir) (hnew : q ≠ dentry :: dir) :
    (v.created P dir dentry ino par j).dcache q = v.dcache q := by
  rw [created_dcache, dAdd_dcache_ne _ _ hnew]
  exact setPrivate_dcache_ne _ _ hdir

theorem created_dcache_new (hnone : v.dcache (dentry :: dir) = none) :
    (v.created P dir dentry ino par j).dcache (dentry :: dir) = some (vfsInode ino) := by
  rw [created_dcache, dAdd_dcache_self]
  have : (v.bumpChildren dir).dcache (dentry :: dir) = none := by
    rw [← hnone]
    exact setPrivate_dcache_ne _ _ (by simp)
  rw [this]
  rfl

theorem created_dcache_dir {d : Inode} (hd : v.dcache dir = some d) (hpar : d.iPrivate = some par) :
    (v.created P dir dentry ino par j).dcache dir = some { d with iPrivate := some par.bump } := by
  rw [created_dcache, dAdd_dcache_ne _ _ (by simp)]
  simp [Vol.bumpChildren, setPrivate, hd, hpar, SimplefsInode.bump]

end Vol

end Lkm.Simplefs
