import Lkm.Simplefs.Logic.Sequential

/-!
# One specification for each function

What each function of the driver does to the volume, step by step: a *script*
is the list of its updates, `Along S v script` says that every volume on the
way satisfies `S`. The conditions under which a function meets a postcondition
are collected in a structure with one field for each exit (`SaveOk`, `LinkOk`,
`CreateOk`; `LookupOk`, `WriteOk` and the others are in `Logic.Calls`), and one
theorem each walks through the code. Everything said later about the volumes of
single calls goes through these theorems; the use of locks, the references to
buffers and the exact results have walks of their own.
-/

namespace Lkm.Simplefs

open Base

namespace Vol

/-! ## Reading the volume -/

/-- `simplefs_inode_search`. -/
def search (v : Vol) (no : U64) : Except Fault (Option Nat) :=
  simplefsInodeSearch (v.cache 0) (v.cache 1) no

/-- The loop of `simplefs_get_inode`. -/
def getInode (v : Vol) (no : U64) : Except Fault (Option SimplefsInode) :=
  getInodeFrom (v.cache 1) no v.cache.count.toNat 0

/-- The value of `i` after the loop of `simplefs_sb_get_a_freeblock`. -/
def freeIndex (P : Platform) (v : Vol) : Nat :=
  freeblockFrom P v.cache.free (simplefsMaxFilesystemObjectsSupported - 2) 2

/-! ## Scripts -/

/-- The volumes after each of a list of updates. -/
def trace (v : Vol) : List (Vol → Vol) → List Vol
  | [] => []
  | f :: fs => f v :: trace (f v) fs

/-- The volume after all of them. -/
def after (v : Vol) : List (Vol → Vol) → Vol
  | [] => v
  | f :: fs => after (f v) fs

@[simp] theorem after_nil (v : Vol) : v.after [] = v := rfl
@[simp] theorem after_cons (v : Vol) (f : Vol → Vol) (fs : List (Vol → Vol)) :
    v.after (f :: fs) = (f v).after fs := rfl

def putSlot (v : Vol) (k : Nat) (ino : SimplefsInode) : Vol := v.modify 1 (putInode · k ino)
def setCount (v : Vol) (c : U64) : Vol := v.modify 0 (setInodesCount · c)
def setFree (v : Vol) (f : U64) : Vol := v.modify 0 (setFreeBlocks · f)

end Vol

/-- Every volume on the way satisfies `S`. -/
def Along (S : Vol → Prop) (v : Vol) (script : List (Vol → Vol)) : Prop :=
  ∀ s ∈ v.trace script, S s

theorem along_nil {S : Vol → Prop} {v : Vol} : Along S v [] := by
  intro s hs
  cases hs

theorem along_cons {S : Vol → Prop} {v : Vol} {f : Vol → Vol} {fs : List (Vol → Vol)} :
    Along S v (f :: fs) ↔ S (f v) ∧ Along S (f v) fs := by
  simp [Along, Vol.trace]

/-- The last volume of a script satisfies what all of them do. -/
theorem Along.last {S : Vol → Prop} {v : Vol} {script : List (Vol → Vol)}
    (h : Along S v script) (hS : S v) : S (v.after script) := by
  induction script generalizing v with
  | nil => exact hS
  | cons f fs ih => exact ih (along_cons.mp h).2 (along_cons.mp h).1

theorem Along.mono {S S' : Vol → Prop} {v : Vol} {script : List (Vol → Vol)}
    (h : Along S v script) (hS : ∀ u, S u → S' u) : Along S' v script :=
  fun u hu => hS u (h u hu)

def syncScript (b : Nat) : List (Vol → Vol) := [(·.markBufferDirty b), (·.syncDirtyBuffer b)]

/-- After a sync a block has no older version. -/
theorem Vol.past_sync (v : Vol) (b : Nat) :
    (v.after (syncScript b)).past = Function.update v.past b [] := by
  simp [syncScript, Vol.syncDirtyBuffer]

/-- A block that is changed and then synced has none either. -/
theorem Vol.past_sync_of {v u : Vol} {b c : Nat} (hother : c ≠ b → u.past c = v.past c)
    (h : v.past c = []) : (u.after (syncScript b)).past c = [] := by
  rw [Vol.past_sync]
  by_cases hc : c = b
  · rw [hc, Function.update_self]
  · rw [Function.update_of_ne hc, hother hc, h]

/-- Clear the bit of the block found, from volume `v`. -/
def takeScript (P : Platform) (v : Vol) : List (Vol → Vol) :=
  (·.setFree (v.cache.free &&& ~~~bitMask P (v.freeIndex P))) :: syncScript 0

/-- Append an inode to the store of volume `v`. -/
def addScript (v : Vol) (ino : SimplefsInode) : List (Vol → Vol) :=
  (·.putSlot v.cache.count.toNat ino) :: (·.setCount (v.cache.count + 1)) :: (·.markBufferDirty 1) ::
    syncScript 0

/-- Fill record `k` of block `blk`. -/
def recordScript (blk k : Nat) (no : U64) (name : List Byte) : List (Vol → Vol) :=
  (·.modify blk (setRecordInodeNo · k no)) :: (·.modify blk (strcpyFilename · k name)) ::
    syncScript blk

/-- Write an inode back to its slot. -/
def saveScript (k : Nat) (ino : SimplefsInode) : List (Vol → Vol) :=
  (·.putSlot k ino) :: syncScript 1

/-- `dir_children_count++` on the private inode of `dir`. -/
def Vol.bumpChildren (v : Vol) (dir : Path) : Vol :=
  v.setPrivate dir fun i => i.setDirChildrenCount (i.dirChildrenCount + 1)

/-- The inode that a create on volume `v` makes out of a slab object. -/
def newInode (P : Platform) (v : Vol) (mode : U32) (slab : SimplefsInode) : SimplefsInode :=
  { slab with
    inodeNo := v.cache.count + simplefsStartIno - simplefsReservedInodes + 1
    mode := mode
    fileSize := 0
    dataBlockNumber := BitVec.ofNat 64 (v.freeIndex P) }

/-- The VFS inode around it. -/
def vfsInode (ino : SimplefsInode) : Inode where
  iIno := ino.inodeNo
  iMode := ino.mode
  iFop := some (if sIsdir ino.mode then .dir else .file)
  iPrivate := some ino

section Specs

variable {P : Platform} {S : Vol → Prop} {w : Outside} {T : Fault → Prop} {v : Vol}

/-! ## The super block and the inode store -/

theorem vwp_simplefsSbSync {Q : Unit → Vol → Prop} (hS : S v) (hT : P.nrBlocks ≤ 0 → T .bug)
    (hs : Along S v (syncScript 0)) (h : Q () (v.after (syncScript 0))) :
    vwp S w T (simplefsSbSync P) Q v := by
  obtain ⟨hs₁, hs₂, -⟩ := (along_cons.trans (and_congr_right fun _ => along_cons)).mp hs
  refine vwp_bind (vwp_sbBreadOrBug hS hT fun _ => ?_)
  refine vwp_bind (vwp_updateVol hs₁ ?_)
  refine vwp_bind (vwp_updateVol hs₂ ?_)
  exact vwp_brelse hs₂ h

theorem vwp_simplefsInodeAdd {Q : Unit → Vol → Prop} {ino : SimplefsInode} (hS : S v)
    (hT : P.nrBlocks ≤ 1 → T .bug) (hcount : v.cache.count.toNat < 64)
    (hs : Along S v (addScript v ino)) (h : Q () (v.after (addScript v ino)))
    (hskip : w.interrupted .addInodes = true ∨ w.interrupted .addSb = true → Q () v) :
    vwp S w T (simplefsInodeAdd P ino) Q v := by
  simp only [addScript, along_cons] at hs
  obtain ⟨hs₁, hs₂, hs₃, hs₄⟩ := hs
  unfold simplefsInodeAdd
  refine vwp_lockOr hS (fun hi => vwp_pure (hskip (.inl hi))) ?_
  refine vwp_bind (vwp_sbBreadOrBug hS hT fun _ => ?_)
  refine vwp_lockOr hS (fun hi => vwp_pure (hskip (.inr hi))) ?_
  refine vwp_bind (vwp_update Mem.beginAppend_toVol hS ?_)
  refine vwp_bind (vwp_readMem fun m hm => ?_)
  have hm' : inodesCount (m.cache simplefsSuperblockBlockNumber) = v.cache.count := by
    rw [hm]; rfl
  rw [hm']
  refine vwp_bind (vwp_inBlock (fun hout => ?_) fun _ => ?_)
  · -- the table has 128 slots and the count is below 64
    unfold sizeofInode simplefsDefaultBlockSize at hout
    omega
  refine vwp_bind (vwp_updateVol hs₁ ?_)
  refine vwp_bind (vwp_readMem fun m hm => ?_)
  have hm' : inodesCount (m.cache simplefsSuperblockBlockNumber) = v.cache.count := by
    rw [hm]; rfl
  rw [hm']
  refine vwp_bind (vwp_updateVol hs₂ ?_)
  refine vwp_bind (vwp_updateVol hs₃ ?_)
  have hend : S (v.after (addScript v ino)) := hs₄.last hs₃
  refine vwp_bind (vwp_simplefsSbSync hs₃ (fun hN => hT (by omega)) hs₄ ?_)
  refine vwp_bind (vwp_brelse hend ?_)
  refine vwp_bind (vwp_update Mem.endAppend_toVol hend ?_)
  refine vwp_bind (vwp_unlock hend ?_)
  exact vwp_unlock hend h

theorem vwp_simplefsSbGetAFreeblock {Q : Except Errno U64 → Vol → Prop} (hS : S v)
    (hT : P.nrBlocks ≤ 0 → T .bug)
    (hintr : w.interrupted .freeblock = true → Q (.error .eintr) v)
    (hfull : v.freeIndex P = simplefsMaxFilesystemObjectsSupported → Q (.error .enospc) v)
    (hfound : v.freeIndex P ≠ simplefsMaxFilesystemObjectsSupported →
      Along S v (takeScript P v) ∧
        Q (.ok (BitVec.ofNat 64 (v.freeIndex P))) (v.after (takeScript P v))) :
    vwp S w T (simplefsSbGetAFreeblock P) Q v := by
  unfold simplefsSbGetAFreeblock
  refine vwp_lockOr hS (fun hi => vwp_bind (vwp_unlock hS (vwp_pure (hintr hi)))) ?_
  · refine vwp_bind (vwp_readMem fun m hm => ?_)
    have hm' : freeBlocks (m.cache simplefsSuperblockBlockNumber) = v.cache.free := by
      rw [hm]; rfl
    rw [hm']
    show vwp S w T (if v.freeIndex P = _ then _ else _) Q v
    by_cases hi : v.freeIndex P = simplefsMaxFilesystemObjectsSupported
    · rw [if_pos hi]
      exact vwp_bind (vwp_unlock hS (vwp_pure (hfull hi)))
    · rw [if_neg hi]
      obtain ⟨hs, hQ⟩ := hfound hi
      obtain ⟨hs₁, hs₂⟩ := along_cons.mp hs
      refine vwp_bind (vwp_readMem fun m hm => ?_)
      have hm' : freeBlocks (m.cache simplefsSuperblockBlockNumber) = v.cache.free := by
        rw [hm]; rfl
      rw [hm']
      have hend : S (v.after (takeScript P v)) := hs₂.last hs₁
      refine vwp_bind (vwp_updateVol hs₁ ?_)
      refine vwp_bind (vwp_simplefsSbSync hs₁ hT hs₂ ?_)
      exact vwp_bind (vwp_unlock hend (vwp_pure hQ))

theorem vwp_simplefsSbGetObjectsCount {Q : Except Errno U64 → Vol → Prop} (hS : S v)
    (hintr : w.interrupted .objectsCount = true → Q (.error .eintr) v) (h : Q (.ok v.cache.count) v) :
    vwp S w T simplefsSbGetObjectsCount Q v := by
  unfold simplefsSbGetObjectsCount
  refine vwp_lockOr hS (fun hi => vwp_pure (hintr hi)) ?_
  refine vwp_bind (vwp_readMem fun m hm => ?_)
  have hm' : inodesCount (m.cache simplefsSuperblockBlockNumber) = v.cache.count := by
    rw [hm]; rfl
  rw [hm']
  exact vwp_bind (vwp_unlock hS (vwp_pure h))

/-- The exits of `simplefs_inode_save` for the dentry `p`. -/
structure SaveOk (P : Platform) (S : Vol → Prop) (w : Outside) (T : Fault → Prop)
    (p : Path) (Q : Except Errno Unit → Vol → Prop) (v : Vol) : Prop where
  bug : P.nrBlocks ≤ 1 → T .bug
  null : v.priv p = none → T .nullPrivate
  interrupted : w.interrupted .saveSb = true → Q (.error .eintr) v
  fault : ∀ ino e, v.priv p = some ino → v.search ino.inodeNo = .error e → T e
  missing : ∀ ino, v.priv p = some ino → v.search ino.inodeNo = .ok none → Q (.error .eio) v
  found : ∀ ino k, v.priv p = some ino → v.search ino.inodeNo = .ok (some k) →
    Along S v (saveScript k ino) ∧ Q (.ok ()) (v.after (saveScript k ino))

theorem vwp_simplefsInodeSave {Q : Except Errno Unit → Vol → Prop} {p : Path} (hS : S v)
    (h : SaveOk P S w T p Q v) : vwp S w T (simplefsInodeSave P p) Q v := by
  unfold simplefsInodeSave
  refine vwp_bind (vwp_sbBreadOrBug hS h.bug fun _ => ?_)
  refine vwp_lockOr hS (fun hi => vwp_pure (h.interrupted hi)) ?_
  refine vwp_bind (vwp_simplefsInode h.null fun ino hino => ?_)
  refine vwp_bind (vwp_readMem fun m hm => ?_)
  have hm' : simplefsInodeSearch (m.cache simplefsSuperblockBlockNumber)
      (m.cache simplefsInodestoreBlockNumber) ino.inodeNo = v.search ino.inodeNo := by
    rw [hm]; rfl
  rw [hm']
  refine vwp_bind (vwp_liftFault (fun r hr => ?_) fun e he => h.fault ino e hino he)
  cases r with
  | none => exact vwp_bind (vwp_unlock hS (vwp_pure (h.missing ino hino hr)))
  | some k =>
      obtain ⟨hs, hQ⟩ := h.found ino k hino hr
      simp only [saveScript, syncScript, along_cons] at hs
      obtain ⟨hs₁, hs₂, hs₃, -⟩ := hs
      refine vwp_bind (vwp_simplefsInode h.null fun ino' hino' => ?_)
      obtain rfl : ino = ino' := Option.some.inj (hino.symm.trans hino')
      refine vwp_bind (vwp_updateVol hs₁ ?_)
      refine vwp_bind (vwp_updateVol hs₂ ?_)
      refine vwp_bind (vwp_updateVol hs₃ ?_)
      refine vwp_bind (vwp_brelse hs₃ ?_)
      exact vwp_bind (vwp_unlock hs₃ (vwp_pure hQ))

/-! ## Creating -/

/-- The exits of `linkChild`, which gives the inode numbered `no` the name
`dentry` in `dir`. -/
structure LinkOk (P : Platform) (S : Vol → Prop) (w : Outside) (T : Fault → Prop)
    (dir : Path) (dentry : Name) (no : U64) (inode : Inode)
    (Q : Except Errno Unit → Vol → Prop) (v : Vol) : Prop where
  null : v.priv dir = none → T .nullPrivate
  bug : ∀ par, v.priv dir = some par → P.nrBlocks ≤ par.dataBlockNumber.toNat → T .bug
  overflow : ∀ par, v.priv dir = some par → 16 ≤ par.dirChildrenCount.toNat →
    T (.outOfBlock par.dataBlockNumber.toNat (sizeofDirRecord * par.dirChildrenCount.toNat)
      sizeofDirRecord)
  record : ∀ par, v.priv dir = some par → par.dataBlockNumber.toNat < P.nrBlocks →
    par.dirChildrenCount.toNat < 16 →
    Along S v (recordScript par.dataBlockNumber.toNat par.dirChildrenCount.toNat no dentry.bytes)
  interrupted : ∀ par, v.priv dir = some par → par.dataBlockNumber.toNat < P.nrBlocks →
    par.dirChildrenCount.toNat < 16 → w.interrupted .createInodes = true → Q (.error .eintr)
      (v.after (recordScript par.dataBlockNumber.toNat par.dirChildrenCount.toNat no dentry.bytes))
  bump : ∀ par v₁, v.priv dir = some par → par.dataBlockNumber.toNat < P.nrBlocks →
    par.dirChildrenCount.toNat < 16 →
    v₁ = v.after (recordScript par.dataBlockNumber.toNat par.dirChildrenCount.toNat no
      dentry.bytes) →
    S (v₁.bumpChildren dir) ∧ SaveOk P S w T dir
      (fun r v' => match r with
        | .error e => Q (.error e) v'
        | .ok () => S (v'.dAdd (dentry :: dir) inode) ∧ Q (.ok ()) (v'.dAdd (dentry :: dir) inode))
      (v₁.bumpChildren dir)

theorem vwp_linkChild {Q : Except Errno Unit → Vol → Prop} {dir : Path} {dentry : Name}
    {sfsInode : SimplefsInode} {inode : Inode} (hS : S v)
    (h : LinkOk P S w T dir dentry sfsInode.inodeNo inode Q v) :
    vwp S w T (linkChild P dir dentry sfsInode inode) Q v := by
  unfold linkChild
  refine vwp_bind (vwp_simplefsInode h.null fun par hpar => ?_)
  refine vwp_bind (vwp_sbBreadOrBug hS (h.bug par hpar) fun hblk => ?_)
  refine vwp_bind (vwp_simplefsInode h.null fun par' hpar' => ?_)
  obtain rfl : par = par' := Option.some.inj (hpar.symm.trans hpar')
  refine vwp_bind (vwp_inBlock (fun hout => h.overflow par hpar ?_) fun hin => ?_)
  · unfold sizeofDirRecord simplefsDefaultBlockSize at hout
    omega
  have hk : par.dirChildrenCount.toNat < 16 := by
    unfold sizeofDirRecord simplefsDefaultBlockSize at hin
    omega
  have hs := h.record par hpar hblk hk
  simp only [recordScript, syncScript, along_cons] at hs
  obtain ⟨hs₁, hs₂, hs₃, hs₄, -⟩ := hs
  refine vwp_bind (vwp_updateVol hs₁ ?_)
  refine vwp_bind (vwp_updateVol hs₂ ?_)
  refine vwp_bind (vwp_updateVol hs₃ ?_)
  refine vwp_bind (vwp_updateVol hs₄ ?_)
  refine vwp_bind (vwp_brelse hs₄ ?_)
  refine vwp_lockOr hs₄ (fun hi => ?_) ?_
  · exact vwp_bind (vwp_unlock hs₄ (vwp_pure (h.interrupted par hpar hblk hk hi)))
  obtain ⟨hbump, hsave⟩ := h.bump par _ hpar hblk hk rfl
  refine vwp_bind (vwp_updateVol hbump ?_)
  refine vwp_bind (vwp_mono (fun r v' hr => ?_)
    (vwp_keep hbump (vwp_simplefsInodeSave hbump hsave)))
  obtain ⟨hS', hr⟩ := hr
  cases r with
  | error e => exact vwp_bind (vwp_unlock hS' (vwp_bind (vwp_unlock hS' (vwp_pure hr))))
  | ok u =>
      refine vwp_bind (vwp_unlock hS' (vwp_bind (vwp_unlock hS' ?_)))
      exact vwp_bind (vwp_updateVol hr.1 (vwp_pure hr.2))

/-- The volume after `simplefs_inode_add`, which does nothing when one of its two
waits is interrupted. -/
def Vol.added (v : Vol) (ino : SimplefsInode) (skip : Bool) : Vol :=
  if skip then v else v.after (addScript v ino)

/-- The exits of `simplefs_create_fs_object`. -/
structure CreateOk (P : Platform) (S : Vol → Prop) (w : Outside) (T : Fault → Prop)
    (dir : Path) (dentry : Name) (mode : U32) (Q : Except Errno Unit → Vol → Prop)
    (v : Vol) : Prop where
  bug : P.nrBlocks ≤ 1 → T .bug
  interrupted : w.interrupted .createDirectory = true ∨ w.interrupted .objectsCount = true ∨ w.interrupted .freeblock = true →
    Q (.error .eintr) v
  full : 64 ≤ v.cache.count.toNat → Q (.error .enospc) v
  badMode : v.cache.count.toNat < 64 → sIsdir mode = false → sIsreg mode = false →
    Q (.error .einval) v
  noMemory : v.cache.count.toNat < 64 → w.answer .newInode = false → Q (.error .enomem) v
  noBlock : v.cache.count.toNat < 64 → v.freeIndex P = 64 → Q (.error .enospc) v
  take : v.cache.count.toNat < 64 → sIsdir mode = true ∨ sIsreg mode = true →
    v.freeIndex P ≠ 64 → Along S v (takeScript P v)
  add : ∀ v₁, v.cache.count.toNat < 64 → sIsdir mode = true ∨ sIsreg mode = true →
    v.freeIndex P ≠ 64 → v₁ = v.after (takeScript P v) →
    Along S v₁ (addScript v₁ (newInode P v mode (w.answer .slab)))
  link : ∀ skip v₁, v.cache.count.toNat < 64 → sIsdir mode = true ∨ sIsreg mode = true →
    v.freeIndex P ≠ 64 → v₁ = v.after (takeScript P v) →
    (skip = true → w.interrupted .addInodes = true ∨ w.interrupted .addSb = true) →
    LinkOk P S w T dir dentry (newInode P v mode (w.answer .slab)).inodeNo
      (vfsInode (newInode P v mode (w.answer .slab))) Q (v₁.added (newInode P v mode (w.answer .slab)) skip)

/-- Taking a block leaves the count alone. -/
theorem Vol.count_after_takeScript (P : Platform) (v : Vol) :
    (v.after (takeScript P v)).cache.count = v.cache.count := by
  show inodesCount ((v.setFree _).cache 0) = inodesCount (v.cache 0)
  unfold Vol.setFree
  rw [Vol.modify_cache_self, inodesCount_setFreeBlocks]

theorem vwp_simplefsCreateFsObject {Q : Except Errno Unit → Vol → Prop} {dir : Path}
    {dentry : Name} {mode : U32} (hS : S v) (h : CreateOk P S w T dir dentry mode Q v) :
    vwp S w T (simplefsCreateFsObject P dir dentry mode) Q v := by
  unfold simplefsCreateFsObject
  refine vwp_lockOr hS (fun hi => vwp_pure (h.interrupted (.inl hi))) ?_
  refine vwp_bind (vwp_simplefsSbGetObjectsCount hS (fun hi => ?_) ?_)
  · exact vwp_bind (vwp_unlock hS (vwp_pure (h.interrupted (.inr (.inl hi)))))
  show vwp S w T (if 64 ≤ v.cache.count.toNat then _ else _) Q v
  by_cases hfull : 64 ≤ v.cache.count.toNat
  · rw [if_pos hfull]
    exact vwp_bind (vwp_unlock hS (vwp_pure (h.full hfull)))
  rw [if_neg hfull]
  have hlt : v.cache.count.toNat < 64 := by omega
  by_cases hmode : (!sIsdir mode && !sIsreg mode) = true
  · rw [if_pos hmode]
    simp only [Bool.and_eq_true, Bool.not_eq_true'] at hmode
    exact vwp_bind (vwp_unlock hS (vwp_pure (h.badMode hlt hmode.1 hmode.2)))
  rw [if_neg hmode]
  have hkind : sIsdir mode = true ∨ sIsreg mode = true := by
    cases hd : sIsdir mode <;> cases hr : sIsreg mode <;> simp_all
  refine vwp_bind (vwp_ask ?_)
  by_cases hok : (!w.answer .newInode) = true
  · rw [if_pos hok]
    exact vwp_bind (vwp_unlock hS (vwp_pure (h.noMemory hlt (by simpa using hok))))
  rw [if_neg hok]
  refine vwp_bind (vwp_ask ?_)
  refine vwp_bind (vwp_simplefsSbGetAFreeblock hS (fun hN => h.bug (by omega)) (fun hi => ?_)
    (fun hi => ?_) (fun hi => ⟨h.take hlt hkind hi, ?_⟩))
  · exact vwp_bind (vwp_unlock hS (vwp_pure (h.interrupted (.inr (.inr hi)))))
  · exact vwp_bind (vwp_unlock hS (vwp_pure (h.noBlock hlt hi)))
  have htake : S (v.after (takeScript P v)) := (h.take hlt hkind hi).last hS
  have hadd := h.add _ hlt hkind hi rfl
  have hcount : (v.after (takeScript P v)).cache.count.toNat < 64 := by
    rwa [Vol.count_after_takeScript]
  refine vwp_bind (vwp_simplefsInodeAdd htake h.bug hcount hadd ?_ fun hskip => ?_)
  · exact vwp_linkChild (hadd.last htake) (h.link false _ hlt hkind hi rfl (by simp))
  · exact vwp_linkChild htake (h.link true _ hlt hkind hi rfl fun _ => hskip)

end Specs

end Lkm.Simplefs
