import Lkm.Simplefs.Logic.Specs

/-!
# Specifications of the calls

The functions behind the VFS that do not create (`LookupOk`, `WriteOk`,
`ReadOk`, `IterateOk`, `simplefs_fill_super`), in the same form as in
`Logic.Specs`, and the VFS's own checks in front of each call.
-/

namespace Lkm.Simplefs

open Base

section Calls

variable {P : Platform} {S : Vol → Prop} {w : Outside} {T : Fault → Prop} {v : Vol}

/-! ## Looking up -/

theorem vwp_simplefsGetInode {Q : Option SimplefsInode → Vol → Prop} {no : U64} (hS : S v)
    (hbug : P.nrBlocks ≤ 1 → T .bug) (hfault : ∀ e, v.getInode no = .error e → T e)
    (h : ∀ r, v.getInode no = .ok r → Q r v) :
    vwp S w T (simplefsGetInode P no) Q v := by
  unfold simplefsGetInode
  refine vwp_bind (vwp_sbBreadOrBug hS hbug fun _ => ?_)
  refine vwp_bind (vwp_readMem fun m hm => ?_)
  have hm' : getInodeFrom (m.cache simplefsInodestoreBlockNumber) no
      (inodesCount (m.cache simplefsSuperblockBlockNumber)).toNat 0 = v.getInode no := by
    rw [hm]; rfl
  rw [hm']
  refine vwp_bind (vwp_liftFault (fun r hr => ?_) hfault)
  exact vwp_bind (vwp_brelse hS (vwp_pure (h r hr)))

/-- The VFS inode that `simplefs_lookup` makes of a stored inode. -/
def igetInode (no : U64) (ino : SimplefsInode) : Inode where
  iIno := asInt no
  iMode := ino.mode
  iFop := if sIsdir ino.mode then some .dir else if sIsreg ino.mode then some .file else none
  iPrivate := some ino

/-- The record that `simplefs_lookup` finds for a name in the directory `par`. -/
def Vol.findRecord (v : Vol) (par : SimplefsInode) (name : Name) : Except Fault (Option Nat) :=
  lookupFrom par.dataBlockNumber.toNat (v.cache par.dataBlockNumber.toNat) name.bytes
    par.dirChildrenCount.toNat 0

/-- The inode number in record `k` of the directory `par`. -/
def Image.recordNo (img : Image) (par : SimplefsInode) (k : Nat) : U64 :=
  recordInodeNo (img par.dataBlockNumber.toNat) k

/-- The exits of `simplefs_lookup`. -/
structure LookupOk (P : Platform) (S : Vol → Prop) (T : Fault → Prop) (parent : Path)
    (name : Name) (Q : Unit → Vol → Prop) (v : Vol) : Prop where
  bug : P.nrBlocks ≤ 1 → T .bug
  null : v.priv parent = none → T .nullPrivate
  noBuffer : ∀ par, v.priv parent = some par → P.nrBlocks ≤ par.dataBlockNumber.toNat →
    T .nullBuffer
  overflow : ∀ par e, v.priv parent = some par → v.findRecord par name = .error e → T e
  absent : ∀ par, v.priv parent = some par → v.findRecord par name = .ok none → Q () v
  fault : ∀ par k e, v.priv parent = some par → v.findRecord par name = .ok (some k) →
    v.getInode (asInt (v.cache.recordNo par k)) = .error e → T e
  noInode : ∀ par k, v.priv parent = some par → v.findRecord par name = .ok (some k) →
    v.getInode (asInt (v.cache.recordNo par k)) = .ok none → T .nullInode
  found : ∀ par k ino, v.priv parent = some par → v.findRecord par name = .ok (some k) →
    v.getInode (asInt (v.cache.recordNo par k)) = .ok (some ino) →
    S (v.dAdd (name :: parent) (igetInode (v.cache.recordNo par k) ino)) ∧
      Q () (v.dAdd (name :: parent) (igetInode (v.cache.recordNo par k) ino))

theorem vwp_simplefsLookup {Q : Unit → Vol → Prop} {parent : Path} {name : Name} (hS : S v)
    (h : LookupOk P S T parent name Q v) :
    vwp S w T (simplefsLookup P parent name) Q v := by
  unfold simplefsLookup
  refine vwp_bind (vwp_simplefsInode h.null fun par hpar => ?_)
  refine vwp_bind (vwp_sbBread hS (fun hin => ?_) fun hout => vwp_stop (h.noBuffer par hpar hout))
  refine vwp_bind (vwp_readMem fun m hm => ?_)
  have hcache : m.cache = v.cache := by rw [hm]
  rw [hcache]
  refine vwp_bind (vwp_liftFault (fun r hr => ?_) fun e he => h.overflow par e hpar he)
  cases r with
  | none => exact vwp_pure (h.absent par hpar hr)
  | some k =>
      refine vwp_bind ?_
      unfold simplefsIget
      refine vwp_bind (vwp_simplefsGetInode hS h.bug (fun e he => h.fault par k e hpar hr he)
        fun r hget => ?_)
      cases r with
      | none => exact vwp_stop (h.noInode par k hpar hr hget)
      | some ino =>
          obtain ⟨hS', hQ⟩ := h.found par k ino hpar hr hget
          exact vwp_pure (vwp_updateVol hS' hQ)

theorem vwp_simplefsFillSuper {Q : Unit → Vol → Prop} (hS : S v)
    (hbug : P.nrBlocks ≤ 1 → T .bug)
    (hfault : ∀ e, v.getInode simplefsRootdirInodeNumber = .error e → T e)
    (h : ∀ r, v.getInode simplefsRootdirInodeNumber = .ok r →
      S (v.dAdd [] ⟨simplefsRootdirInodeNumber, sIfdir, some .dir, r⟩) ∧
        Q () (v.dAdd [] ⟨simplefsRootdirInodeNumber, sIfdir, some .dir, r⟩)) :
    vwp S w T (simplefsFillSuper P) Q v := by
  unfold simplefsFillSuper
  refine vwp_bind (vwp_sbBreadOrBug hS (fun hN => hbug (Nat.le_succ_of_le hN)) fun _ => ?_)
  refine vwp_bind (vwp_simplefsGetInode hS hbug hfault fun r hr => ?_)
  exact vwp_updateVol (h r hr).1 (h r hr).2

/-! ## Reading and writing -/

/-- The volume after `copy_from_user` into a block. -/
def Vol.copied (v : Vol) (blk off : Nat) (buf : Buf) (len copied : Nat) : Vol :=
  if len = 0 then v else v.modify blk (put · off (copiedBytes buf len copied))

/-- `sfs_inode->file_size = size`. -/
def Vol.setSize (v : Vol) (p : Path) (size : U64) : Vol :=
  v.setPrivate p fun i => { i with fileSize := size }

/-- The exits of `simplefs_write`. -/
structure WriteOk (P : Platform) (S : Vol → Prop) (w : Outside) (T : Fault → Prop)
    (p : Path) (buf : Buf) (len ppos : U64) (Q : Except Errno U64 × U64 → Vol → Prop)
    (v : Vol) : Prop where
  null : v.priv p = none → T .nullPrivate
  noBuffer : ∀ ino, v.priv p = some ino → P.nrBlocks ≤ ino.dataBlockNumber.toNat →
    Q (.ok 0, ppos) v
  overflow : ∀ ino, v.priv p = some ino → len ≠ 0 → 4096 < ppos.toNat + len.toNat →
    T (.outOfBlock ino.dataBlockNumber.toNat ppos.toNat len.toNat)
  copy : ∀ ino, v.priv p = some ino → ino.dataBlockNumber.toNat < P.nrBlocks →
    len = 0 ∨ ppos.toNat + len.toNat ≤ 4096 →
    S (v.copied ino.dataBlockNumber.toNat ppos.toNat buf len.toNat (w.answer .copyFromUser))
  badAddress : ∀ ino, v.priv p = some ino → ino.dataBlockNumber.toNat < P.nrBlocks →
    ppos.toNat + len.toNat ≤ 4096 → w.answer .copyFromUser < len.toNat →
    Q (.error .efault, ppos)
      (v.copied ino.dataBlockNumber.toNat ppos.toNat buf len.toNat (w.answer .copyFromUser))
  save : ∀ ino v₁, v.priv p = some ino → ino.dataBlockNumber.toNat < P.nrBlocks →
    len = 0 ∨ ppos.toNat + len.toNat ≤ 4096 → len.toNat ≤ w.answer .copyFromUser →
    v₁ = v.copied ino.dataBlockNumber.toNat ppos.toNat buf len.toNat (w.answer .copyFromUser) →
    Along S v₁ (syncScript ino.dataBlockNumber.toNat) ∧
    (w.interrupted .writeInodes = true →
      Q (.error .eintr, ppos + len) (v₁.after (syncScript ino.dataBlockNumber.toNat))) ∧
    S ((v₁.after (syncScript ino.dataBlockNumber.toNat)).setSize p (ppos + len)) ∧
    SaveOk P S w T p
      (fun r v' => match r with
        | .error e => Q (.error e, ppos + len) v'
        | .ok () => Q (.ok len, ppos + len) v')
      ((v₁.after (syncScript ino.dataBlockNumber.toNat)).setSize p (ppos + len))

theorem vwp_copyFromUser {Q : Unit → Vol → Prop} {blk off : Nat} {buf : Buf} {len copied : Nat}
    (hout : len ≠ 0 → 4096 < off + len → T (.outOfBlock blk off len))
    (hS : len ≠ 0 → off + len ≤ 4096 → S (v.copied blk off buf len copied))
    (h : len = 0 ∨ off + len ≤ 4096 → Q () (v.copied blk off buf len copied)) :
    vwp S w T (copyFromUser blk off buf len copied) Q v := by
  unfold copyFromUser
  unfold Vol.copied at hS h
  by_cases hlen : len = 0
  · rw [if_pos hlen]
    rw [if_pos hlen] at h
    exact vwp_pure (h (.inl hlen))
  · rw [if_neg hlen]
    rw [if_neg hlen] at hS h
    refine vwp_bind (vwp_inBlock (fun hlt => hout hlen hlt) fun hin => ?_)
    exact vwp_updateVol (hS hlen hin) (h (.inr hin))

theorem vwp_simplefsWrite {Q : Except Errno U64 × U64 → Vol → Prop} {p : Path} {buf : Buf}
    {len ppos : U64} (hS : S v) (h : WriteOk P S w T p buf len ppos Q v) :
    vwp S w T (simplefsWrite P p buf len ppos) Q v := by
  unfold simplefsWrite
  refine vwp_bind (vwp_simplefsInode h.null fun ino hino => ?_)
  refine vwp_bind (vwp_sbBread hS (fun hin => ?_)
    fun hout => vwp_pure (h.noBuffer ino hino hout))
  refine vwp_bind (vwp_ask ?_)
  have hlen : len.toNat ≠ 0 → len ≠ 0 := by
    rintro hne rfl
    exact hne rfl
  have hzero : len.toNat = 0 → len = 0 := fun h0 => BitVec.eq_of_toNat_eq h0
  refine vwp_bind (vwp_copyFromUser (fun hne hlt => h.overflow ino hino (hlen hne) hlt)
    (fun _ hle => h.copy ino hino hin (.inr hle)) fun hrange => ?_)
  have hcopy := h.copy ino hino hin (hrange.imp_left hzero)
  by_cases hfault : w.answer .copyFromUser < len.toNat
  · rw [if_pos hfault]
    have hpos : 0 < len.toNat := Nat.zero_lt_of_lt hfault
    have hle : ppos.toNat + len.toNat ≤ 4096 := by omega
    exact vwp_bind (vwp_brelse hcopy (vwp_pure (h.badAddress ino hino hin hle hfault)))
  · rw [if_neg hfault]
    obtain ⟨hsync, hintr, hsize, hsave⟩ :=
      h.save ino _ hino hin (hrange.imp_left hzero) (Nat.le_of_not_lt hfault) rfl
    have hend := hsync.last hcopy
    simp only [syncScript, along_cons] at hsync
    refine vwp_bind (vwp_updateVol hsync.1 ?_)
    refine vwp_bind (vwp_updateVol hsync.2.1 ?_)
    refine vwp_bind (vwp_brelse hend ?_)
    refine vwp_lockOr hend (fun hi => vwp_pure (hintr hi)) ?_
    refine vwp_bind (vwp_updateVol hsize ?_)
    refine vwp_bind (vwp_mono (fun r v' hr => ?_)
      (vwp_keep hsize (vwp_simplefsInodeSave hsize hsave)))
    refine vwp_bind (vwp_unlock hr.1 ?_)
    cases r with
    | error e => exact vwp_pure hr.2
    | ok u => exact vwp_pure hr.2

/-- The exits of `simplefs_read`, which leaves the volume alone. -/
structure ReadOk (P : Platform) (T : Fault → Prop) (p : Path) (len ppos : U64)
    (Q : Except Errno (List Byte) × U64 → Vol → Prop) (v : Vol) : Prop where
  null : v.priv p = none → T .nullPrivate
  overflow : ∀ ino n, v.priv p = some ino →
    n = (asInt (if ino.fileSize ≤ len then ino.fileSize else len)).toNat →
    4096 < n → T (.outOfBlock ino.dataBlockNumber.toNat 0 n)
  ret : ∀ r, Q r v

theorem vwp_simplefsRead {Q : Except Errno (List Byte) × U64 → Vol → Prop} {p : Path}
    {len ppos : U64} (hS : S v) (h : ReadOk P T p len ppos Q v) :
    vwp S w T (simplefsRead P p len ppos) Q v := by
  unfold simplefsRead
  refine vwp_bind (vwp_simplefsInode h.null fun ino hino => ?_)
  split
  · exact vwp_pure (h.ret _)
  refine vwp_bind (vwp_sbBread hS (fun hin => ?_) fun hout => vwp_pure (h.ret _))
  show vwp S w T (if (asInt (if ino.fileSize ≤ len then _ else _)).msb = true then _ else _) Q v
  -- the `int` that `min` is stored in
  generalize hn : asInt (if ino.fileSize ≤ len then ino.fileSize else len) = nbytes
  split
  · exact vwp_bind (vwp_brelse hS (vwp_pure (h.ret _)))
  refine vwp_bind (vwp_inBlock (fun hout => ?_) fun _ => ?_)
  · refine h.overflow ino _ hino (by rw [hn]) ?_
    unfold simplefsDefaultBlockSize at hout
    omega
  refine vwp_bind (vwp_readMem fun m _ => ?_)
  refine vwp_bind (vwp_ask ?_)
  split
  · exact vwp_bind (vwp_brelse hS (vwp_pure (h.ret _)))
  · exact vwp_bind (vwp_brelse hS (vwp_pure (h.ret _)))

/-! ## Listing -/

/-- The exits of `simplefs_iterate`, which leaves the volume alone. -/
structure IterateOk (P : Platform) (T : Fault → Prop) (p : Path) (ctx : DirContext)
    (Q : Except Errno DirContext → Vol → Prop) (v : Vol) : Prop where
  null : v.priv p = none → T .nullPrivate
  bug : ∀ ino, v.priv p = some ino → sIsdir ino.mode = true →
    P.nrBlocks ≤ ino.dataBlockNumber.toNat → T .bug
  overflow : ∀ ino e, v.priv p = some ino → sIsdir ino.mode = true →
    iterateFrom ino.dataBlockNumber.toNat (v.cache ino.dataBlockNumber.toNat)
      ino.dirChildrenCount.toNat 0 ctx = .error e → T e
  ret : ∀ r, Q r v

theorem vwp_simplefsIterate {Q : Except Errno DirContext → Vol → Prop} {p : Path}
    {ctx : DirContext} (hS : S v) (h : IterateOk P T p ctx Q v) :
    vwp S w T (simplefsIterate P p ctx) Q v := by
  unfold simplefsIterate
  split
  · exact vwp_pure (h.ret _)
  refine vwp_bind (vwp_simplefsInode h.null fun ino hino => ?_)
  split
  · exact vwp_pure (h.ret _)
  rename_i hdir
  have hdir : sIsdir ino.mode = true := by simpa using hdir
  refine vwp_bind (vwp_sbBreadOrBug hS (h.bug ino hino hdir) fun _ => ?_)
  refine vwp_bind (vwp_readMem fun m hm => ?_)
  have hcache : m.cache = v.cache := by rw [hm]
  rw [hcache]
  refine vwp_bind (vwp_liftFault (fun r _ => ?_) fun e he => h.overflow ino e hino hdir he)
  exact vwp_bind (vwp_brelse hS (vwp_pure (h.ret _)))

/-! ## The VFS in front -/

theorem vwp_vfsDirectory {Q : Res → Vol → Prop} {dir : Path} {k : Sfs Res}
    (hnone : v.dcache dir = none → Q (.status (.error .enoent)) v)
    (hnot : ∀ d, v.dcache dir = some d → sIsdir d.iMode = false → Q (.status (.error .enotdir)) v)
    (hk : ∀ d, v.dcache dir = some d → sIsdir d.iMode = true → vwp S w T k Q v) :
    vwp S w T (vfsDirectory dir k) Q v := by
  unfold vfsDirectory
  refine vwp_bind (vwp_readMem fun m hm => ?_)
  rw [show m.dcache dir = v.dcache dir by rw [hm]]
  cases hd : v.dcache dir with
  | none => exact vwp_pure (hnone hd)
  | some d =>
      show vwp S w T (if sIsdir d.iMode = true then k else _) Q v
      by_cases hdir : sIsdir d.iMode = true
      · rw [if_pos hdir]
        exact hk d hd hdir
      · rw [if_neg hdir]
        exact vwp_pure (hnot d hd (by simpa using hdir))

theorem vwp_vfsCreate {Q : Res → Vol → Prop} {dir : Path} {name : Name}
    {k : Sfs (Except Errno Unit)}
    (hnone : v.dcache dir = none → Q (.status (.error .enoent)) v)
    (hnot : ∀ d, v.dcache dir = some d → sIsdir d.iMode = false → Q (.status (.error .enotdir)) v)
    (hexists : ∀ i, v.dcache (name :: dir) = some i → Q (.status (.error .eexist)) v)
    (hk : ∀ d, v.dcache dir = some d → sIsdir d.iMode = true → v.dcache (name :: dir) = none →
      vwp S w T k (fun r v' => Q (.status r) v') v) :
    vwp S w T (vfsCreate dir name k) Q v := by
  unfold vfsCreate
  refine vwp_vfsDirectory hnone hnot fun d hd hdir => ?_
  refine vwp_bind (vwp_readMem fun m hm => ?_)
  rw [show m.dcache (name :: dir) = v.dcache (name :: dir) by rw [hm]]
  cases hn : v.dcache (name :: dir) with
  | some i => exact vwp_pure (hexists i hn)
  | none => exact vwp_bind (vwp_mono (fun r v' hr => vwp_pure hr) (hk d hd hdir hn))

theorem vwp_vfsLookup {Q : Res → Vol → Prop} {dir : Path} {name : Name} (hS : S v)
    (hnone : v.dcache dir = none → Q (.status (.error .enoent)) v)
    (hnot : ∀ d, v.dcache dir = some d → sIsdir d.iMode = false → Q (.status (.error .enotdir)) v)
    (hcached : ∀ i, v.dcache (name :: dir) = some i → Q (.found (some i)) v)
    (h : ∀ d, v.dcache dir = some d → sIsdir d.iMode = true → v.dcache (name :: dir) = none →
      LookupOk P S T dir name (fun _ v' => Q (.found (v'.dcache (name :: dir))) v') v) :
    vwp S w T (vfsLookup P dir name) Q v := by
  unfold vfsLookup
  refine vwp_vfsDirectory hnone hnot fun d hd hdir => ?_
  refine vwp_bind (vwp_readMem fun m hm => ?_)
  rw [show m.dcache (name :: dir) = v.dcache (name :: dir) by rw [hm]]
  cases hn : v.dcache (name :: dir) with
  | some i => exact vwp_pure (hcached i hn)
  | none =>
      refine vwp_bind (vwp_mono (fun _ v' hv' => ?_) (vwp_simplefsLookup hS (h d hd hdir hn)))
      refine vwp_bind (vwp_readMem fun m hm => vwp_pure ?_)
      rw [show m.dcache (name :: dir) = v'.dcache (name :: dir) by rw [hm]]
      exact hv'

theorem vwp_vfsFile {Q : Res → Vol → Prop} {file : Path} {k : Sfs Res}
    (hnone : v.dcache file = none → Q (.status (.error .enoent)) v)
    (hnot : ∀ i, v.dcache file = some i → i.iFop ≠ some .file → Q (.status (.error .einval)) v)
    (hk : ∀ i, v.dcache file = some i → i.iFop = some .file → vwp S w T k Q v) :
    vwp S w T (vfsFile file k) Q v := by
  unfold vfsFile
  refine vwp_bind (vwp_readMem fun m hm => ?_)
  rw [show m.dcache file = v.dcache file by rw [hm]]
  cases hi : v.dcache file with
  | none => exact vwp_pure (hnone hi)
  | some i =>
      show vwp S w T (if i.iFop = some .file then k else _) Q v
      by_cases hf : i.iFop = some .file
      · rw [if_pos hf]
        exact hk i hi hf
      · rw [if_neg hf]
        exact vwp_pure (hnot i hi hf)

/-- The VFS has the file. -/
theorem vwp_vfsFile_some {Q : Res → Vol → Prop} {file : Path} {k : Sfs Res} {i : Inode}
    (hi : v.dcache file = some i) (hf : i.iFop = some .file) (hk : vwp S w T k Q v) :
    vwp S w T (vfsFile file k) Q v := by
  apply vwp_vfsFile
  · intro hnone
    cases hi.symm.trans hnone
  · intro i' hi' hnot
    cases hi.symm.trans hi'
    exact absurd hf hnot
  · intro _ _ _
    exact hk

end Calls

end Lkm.Simplefs
