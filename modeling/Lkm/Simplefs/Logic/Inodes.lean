import Lkm.Simplefs.Logic.Tables

/-!
# Invariants about single inodes

Many properties of a freshly formatted device speak about one inode at a time:
its file fits the block, its directory does, its data block exists. For such a
property `G`, `Inodes G B v` says that every inode stored in the table of `v` or
held in memory has it, that slot `k` holds the number `slotNo k`, and that the
super block's two words satisfy `B`. What a call has to keep is then only what
it does to the inodes it changes itself (`Inodes.create`, `Inodes.write`);
looking up copies inodes from the table (`Inodes.lookup`). The one thing that
makes this work is that data never reaches the super block or the inode store:
`G` includes a data block from 2 up.
-/

namespace Lkm.Simplefs

open Base

/-- The VFS inode has the type that its private inode has. -/
def Inode.Typed (d : Inode) : Prop :=
  ∀ i, d.iPrivate = some i → (sIsdir d.iMode = true → sIsdir i.mode = true) ∧
    (d.iFop = some .file → sIsreg i.mode = true)

/-- The number in slot `k`: three from `mkfs`, then `inodes_count + 8` at the time
of the create. -/
def slotNo (k : Nat) : U64 := BitVec.ofNat 64 (if k < 3 then k + 1 else k + 8)

/-- Every inode stored or in memory satisfies `G`, the super block `B`. -/
structure Inodes (G : SimplefsInode → Prop) (B : U64 → U64 → Prop) (v : Vol) : Prop where
  super : B v.cache.count v.cache.free
  count_ge : 3 ≤ v.cache.count.toNat
  count_le : v.cache.count.toNat ≤ 64
  stored : ∀ k, k < v.cache.count.toNat → G (v.cache.slot k)
  numbered : ∀ k, k < v.cache.count.toNat → (v.cache.slot k).inodeNo = slotNo k
  loaded : ∀ p i, v.priv p = some i → G i
  typed : ∀ p d, v.dcache p = some d → d.Typed

/-- No file is a directory. -/
theorem sIsdir_eq_false_of_sIsreg {mode : U32} (h : sIsreg mode = true) : sIsdir mode = false := by
  unfold sIsreg sIsdir at *
  rw [beq_iff_eq] at h
  rw [h]
  decide

namespace Inodes

variable {G : SimplefsInode → Prop} {B B' : U64 → U64 → Prop} {v u : Vol}

/-! ## One update at a time -/

/-- Only the cached blocks and the dentries matter. -/
theorem congr (h : Inodes G B v) (hcache : u.cache = v.cache) (hdcache : u.dcache = v.dcache) :
    Inodes G B u := by
  obtain ⟨hsuper, hge, hle, hstored, hnumbered, hloaded, htyped⟩ := h
  unfold Vol.priv at hloaded
  rw [← hcache] at hsuper hge hle hstored hnumbered
  rw [← hdcache] at hloaded htyped
  exact ⟨hsuper, hge, hle, hstored, hnumbered, hloaded, htyped⟩

/-- The super block's words may satisfy more than one thing. -/
theorem mono (hB : B v.cache.count v.cache.free → B' v.cache.count v.cache.free)
    (h : Inodes G B v) : Inodes G B' v :=
  ⟨hB h.super, h.count_ge, h.count_le, h.stored, h.numbered, h.loaded, h.typed⟩

theorem setFree (h : Inodes G B v) {f : U64} (hB : B' v.cache.count f) :
    Inodes G B' (v.setFree f) := by
  refine ⟨by simpa using hB, by simpa using h.count_ge, by simpa using h.count_le, fun k hk => ?_,
    fun k hk => ?_, h.loaded, h.typed⟩
  · rw [Vol.setFree_slot]
    exact h.stored k (by simpa using hk)
  · rw [Vol.setFree_slot]
    exact h.numbered k (by simpa using hk)

/-- A slot of the table is overwritten with an inode of the same number. -/
theorem putSlot (h : Inodes G B v) (k : Nat) {ino : SimplefsInode} (hino : G ino)
    (hno : k < v.cache.count.toNat → (v.cache.slot k).inodeNo = ino.inodeNo) :
    Inodes G B (v.putSlot k ino) := by
  refine ⟨by simpa using h.super, by simpa using h.count_ge, by simpa using h.count_le,
    fun j hj => ?_, fun j hj => ?_, h.loaded, h.typed⟩
  · by_cases hjk : j = k
    · subst hjk
      rwa [Vol.putSlot_slot_self]
    · rw [Vol.putSlot_slot_ne v hjk]
      exact h.stored j (by simpa using hj)
  · rw [Vol.putSlot_count] at hj
    by_cases hjk : j = k
    · subst hjk
      rw [Vol.putSlot_slot_self, ← hno hj]
      exact h.numbered j hj
    · rw [Vol.putSlot_slot_ne v hjk]
      exact h.numbered j hj

/-- The slot just past the table becomes part of it. -/
theorem setCount (h : Inodes G B v) (hlt : v.cache.count.toNat < 64)
    (hlast : G (v.cache.slot v.cache.count.toNat))
    (hno : (v.cache.slot v.cache.count.toNat).inodeNo = slotNo v.cache.count.toNat)
    (hB : B' (v.cache.count + 1) v.cache.free) :
    Inodes G B' (v.setCount (v.cache.count + 1)) := by
  have hge := h.count_ge
  have hcount : (v.cache.count + 1).toNat = v.cache.count.toNat + 1 := by bv_omega
  refine ⟨by simpa using hB, by rw [Vol.setCount_count, hcount]; omega,
    by rw [Vol.setCount_count, hcount]; omega, fun k hk => ?_, fun k hk => ?_, h.loaded, h.typed⟩
  · rw [Vol.setCount_slot]
    rw [Vol.setCount_count, hcount] at hk
    by_cases hlast' : k = v.cache.count.toNat
    · rw [hlast']
      exact hlast
    · exact h.stored k (by omega)
  · rw [Vol.setCount_slot]
    rw [Vol.setCount_count, hcount] at hk
    by_cases hlast' : k = v.cache.count.toNat
    · rw [hlast']
      exact hno
    · exact h.numbered k (by omega)

/-- A store to a data block. -/
theorem modify (h : Inodes G B v) {b : Nat} (hb : 2 ≤ b) (f : Buf → Buf) :
    Inodes G B (v.modify b f) := by
  refine ⟨?_, ?_, ?_, fun k hk => ?_, fun k hk => ?_, h.loaded, h.typed⟩
  · rw [Vol.modify_count v hb, Vol.modify_free v hb]
    exact h.super
  · rw [Vol.modify_count v hb]
    exact h.count_ge
  · rw [Vol.modify_count v hb]
    exact h.count_le
  · rw [Vol.modify_slot v hb]
    exact h.stored k (by rwa [Vol.modify_count v hb] at hk)
  · rw [Vol.modify_slot v hb]
    exact h.numbered k (by rwa [Vol.modify_count v hb] at hk)

theorem setPrivate (h : Inodes G B v) {p : Path} {f : SimplefsInode → SimplefsInode}
    (hG : ∀ i, v.priv p = some i → G (f i)) (hmode : ∀ i, (f i).mode = i.mode) :
    Inodes G B (v.setPrivate p f) := by
  refine ⟨h.super, h.count_ge, h.count_le, h.stored, h.numbered, fun q i hi => ?_,
    fun q d hd => ?_⟩
  · by_cases hqp : q = p
    · subst hqp
      rw [Vol.setPrivate_priv_self, Option.map_eq_some_iff] at hi
      obtain ⟨j, hj, rfl⟩ := hi
      exact hG j hj
    · unfold Vol.priv at hi
      rw [Vol.setPrivate_dcache_ne v f hqp] at hi
      exact h.loaded q i hi
  · by_cases hqp : q = p
    · subst hqp
      simp only [Vol.setPrivate, Function.update_self, Option.map_eq_some_iff] at hd
      obtain ⟨d', hd', rfl⟩ := hd
      intro i hi
      obtain ⟨j, hj, rfl⟩ := Option.map_eq_some_iff.mp hi
      rw [hmode]
      exact h.typed q d' hd' j hj
    · rw [Vol.setPrivate_dcache_ne v f hqp] at hd
      exact h.typed q d hd

theorem dAdd (h : Inodes G B v) {p : Path} {d : Inode} (hG : ∀ i, d.iPrivate = some i → G i)
    (htyped : d.Typed) : Inodes G B (v.dAdd p d) := by
  have hcases : ∀ q e, (v.dAdd p d).dcache q = some e → v.dcache q = some e ∨ e = d := by
    intro q e he
    by_cases hqp : q = p
    · subst hqp
      rw [Vol.dAdd_dcache_self] at he
      cases hq : v.dcache q with
      | none =>
          rw [hq] at he
          exact .inr (Option.some.inj he).symm
      | some e' =>
          rw [hq] at he
          exact .inl he
    · rw [Vol.dAdd_dcache_ne v d hqp] at he
      exact .inl he
  refine ⟨h.super, h.count_ge, h.count_le, h.stored, h.numbered, fun q i hi => ?_,
    fun q e he => ?_⟩
  · obtain ⟨e, he, hei⟩ := Option.bind_eq_some_iff.mp hi
    rcases hcases q e he with hq | rfl
    · exact h.loaded q i (Option.bind_eq_some_iff.mpr ⟨e, hq, hei⟩)
    · exact hG i hei
  · rcases hcases q e he with hq | rfl
    · exact h.typed q e hq
    · exact htyped

/-- What `simplefs_get_inode` returns is stored. -/
theorem getInode (h : Inodes G B v) {no : U64} {ino : SimplefsInode}
    (hget : v.getInode no = .ok (some ino)) : G ino := by
  obtain ⟨j, hj, rfl, -, -⟩ := Vol.getInode_some hget
  exact h.stored j hj

end Inodes

/-! ## Whole functions -/

section Functions

variable {P : Platform} {G : SimplefsInode → Prop} {B B' : U64 → U64 → Prop} {w : Outside}
  {T : Fault → Prop} {v : Vol}

/-- Marking and syncing a buffer does not change what is cached. -/
theorem Inodes.along_sync (h : Inodes G B v) (b : Nat) : Along (Inodes G B) v (syncScript b) := by
  simp only [syncScript, along_cons]
  exact ⟨h.congr rfl rfl, h.congr rfl rfl, along_nil⟩

theorem Inodes.save (h : Inodes G B v) {p : Path} {Q : Except Errno Unit → Vol → Prop}
    (hbug : P.nrBlocks ≤ 1 → T .bug) (hnull : v.priv p = none → T .nullPrivate)
    (hQ : ∀ r u, Inodes G B u → u.cache.count = v.cache.count → u.cache.free = v.cache.free →
      Q r u) :
    SaveOk P (Inodes G B) w T p Q v where
  bug := hbug
  null := hnull
  interrupted := fun _ => hQ _ v h rfl rfl
  fault := by
    intro ino e _ he
    obtain ⟨r, hr⟩ := Vol.search_total h.count_le ino.inodeNo
    rw [hr] at he
    cases he
  missing := fun _ _ _ => hQ _ v h rfl rfl
  found := by
    intro ino k hino hk
    have hput := h.putSlot k (h.loaded p ino hino) fun _ => (Vol.search_some hk).2.1
    refine ⟨along_cons.mpr ⟨hput, hput.along_sync 1⟩, hQ _ _ (hput.congr rfl rfl) ?_ ?_⟩
    · exact Vol.putSlot_count v
    · exact Vol.putSlot_free v

/-- What a create in `dir` does to the inodes and the super block, and where it may
fault: `B` holds throughout, `B'` when it returns. -/
structure CreateKeeps (P : Platform) (T : Fault → Prop) (G : SimplefsInode → Prop)
    (B B' : U64 → U64 → Prop) (w : Outside) (dir : Path) (mode : U32) (v : Vol) : Prop where
  small : P.nrBlocks ≤ 1 → T .bug
  null : v.priv dir = none → T .nullPrivate
  bug : ∀ par, v.priv dir = some par → P.nrBlocks ≤ par.dataBlockNumber.toNat → T .bug
  overflow : ∀ par off len, v.priv dir = some par → 16 ≤ par.dirChildrenCount.toNat →
    T (.outOfBlock par.dataBlockNumber.toNat off len)
  fresh : ∀ slab, v.freeIndex P ≠ 64 → G (newInode P v mode slab)
  bump : ∀ par, v.priv dir = some par → par.dirChildrenCount.toNat < 16 →
    G (par.setDirChildrenCount (par.dirChildrenCount + 1))
  weaken : ∀ c f, B' c f → B c f
  take : v.freeIndex P ≠ 64 → B v.cache.count (v.cache.free &&& ~~~bitMask P (v.freeIndex P))
  skip : v.freeIndex P ≠ 64 → w.interrupted .addInodes = true ∨ w.interrupted .addSb = true →
    B' v.cache.count (v.cache.free &&& ~~~bitMask P (v.freeIndex P))
  append : v.freeIndex P ≠ 64 →
    B' (v.cache.count + 1) (v.cache.free &&& ~~~bitMask P (v.freeIndex P))

theorem newInode_no {P : Platform} {mode : U32} {slab : SimplefsInode}
    (hge : 3 ≤ v.cache.count.toNat) (hlt : v.cache.count.toNat < 64) :
    (newInode P v mode slab).inodeNo = slotNo v.cache.count.toNat := by
  show v.cache.count + 10 - 3 + 1 = _
  unfold slotNo
  rw [if_neg (by omega)]
  bv_omega

theorem Inodes.added (h : Inodes G B v) {ino : SimplefsInode} (hino : G ino)
    (hno : ino.inodeNo = slotNo v.cache.count.toNat) (hlt : v.cache.count.toNat < 64)
    (hB : B' (v.cache.count + 1) v.cache.free) :
    Inodes G B (v.putSlot v.cache.count.toNat ino) ∧
      Inodes G B' ((v.putSlot v.cache.count.toNat ino).setCount (v.cache.count + 1)) := by
  have hput := h.putSlot v.cache.count.toNat hino fun hk => absurd hk (by omega)
  refine ⟨hput, ?_⟩
  have hcount : Inodes G B' _ := hput.setCount (by simpa using hlt) (by simpa using hino)
    (by simpa using hno) (by simpa using hB)
  simpa using hcount

theorem Inodes.along_add (h : Inodes G B v) {ino : SimplefsInode} (hino : G ino)
    (hno : ino.inodeNo = slotNo v.cache.count.toNat) (hlt : v.cache.count.toNat < 64)
    (hB : B (v.cache.count + 1) v.cache.free) : Along (Inodes G B) v (addScript v ino) := by
  obtain ⟨hput, hcount⟩ := h.added hino hno hlt hB
  have hdirty : Inodes G B
      (((v.putSlot v.cache.count.toNat ino).setCount (v.cache.count + 1)).markBufferDirty 1) :=
    hcount.congr rfl rfl
  simp only [addScript, along_cons]
  exact ⟨hput, hcount, hdirty, hdirty.along_sync 0⟩

theorem Inodes.along_take (h : Inodes G B' v) {P : Platform}
    (hB : B v.cache.count (v.cache.free &&& ~~~bitMask P (v.freeIndex P))) :
    Along (Inodes G B) v (takeScript P v) := by
  have hfree := h.setFree hB
  exact along_cons.mpr ⟨hfree, hfree.along_sync 0⟩

theorem Inodes.link (hG : ∀ i, G i → 2 ≤ i.dataBlockNumber.toNat) (h : Inodes G B v) {dir : Path}
    {dentry : Name} {no : U64} {inode : Inode} {mode : U32} {u : Vol}
    (hk : CreateKeeps P T G B B' w dir mode u) (hpriv : v.dcache = u.dcache)
    (hB : B' v.cache.count v.cache.free) (hinode : ∀ i, inode.iPrivate = some i → G i)
    (htyped : inode.Typed) :
    LinkOk P (Inodes G B) w T dir dentry no inode (fun _ v' => Inodes G B' v') v := by
  have hu : ∀ {par}, v.priv dir = some par → u.priv dir = some par := by
    intro par hpar
    unfold Vol.priv at hpar ⊢
    rwa [← hpriv]
  have h' : Inodes G B' v := h.mono fun _ => hB
  have hscript : ∀ par k, v.priv dir = some par → Along (Inodes G B') v
      (recordScript par.dataBlockNumber.toNat k no dentry.bytes) := by
    intro par k hpar
    have hb := hG par (h.loaded dir par hpar)
    have h₁ := h'.modify hb (setRecordInodeNo · k no)
    have h₂ := h₁.modify hb (strcpyFilename · k dentry.bytes)
    simp only [recordScript, along_cons]
    exact ⟨h₁, h₂, h₂.along_sync _⟩
  have hweaken : ∀ u, Inodes G B' u → Inodes G B u := fun u hu => hu.mono (hk.weaken _ _)
  refine ⟨fun hn => hk.null ?_, fun par hpar => hk.bug par (hu hpar),
    fun par hpar => hk.overflow par _ _ (hu hpar),
    fun par hpar _ _ s hs => hweaken s (hscript par _ hpar s hs),
    fun par hpar _ _ _ => (hscript par _ hpar).last h', ?_⟩
  · unfold Vol.priv at hn ⊢
    rwa [← hpriv]
  · rintro par v₁ hpar hblk hlt rfl
    have h₁ := (hscript par par.dirChildrenCount.toNat hpar).last h'
    have hbump : Inodes G B' (Vol.bumpChildren (v.after (recordScript par.dataBlockNumber.toNat
        par.dirChildrenCount.toNat no dentry.bytes)) dir) := by
      refine h₁.setPrivate (fun i hi => ?_) (fun i => rfl)
      -- the records leave the dentries alone: this is still `par`
      have hi' : v.priv dir = some i := hi
      obtain rfl : par = i := Option.some.inj (hpar.symm.trans hi')
      exact hk.bump par (hu hpar) hlt
    have hnotnull : Vol.priv (Vol.bumpChildren (v.after (recordScript par.dataBlockNumber.toNat
        par.dirChildrenCount.toNat no dentry.bytes)) dir) dir = none → T .nullPrivate := by
      intro hn
      unfold Vol.bumpChildren at hn
      rw [Vol.setPrivate_priv_self, Option.map_eq_none_iff] at hn
      exact absurd (show v.priv dir = none from hn) (by simp [hpar])
    refine ⟨hweaken _ hbump, (hweaken _ hbump).save hk.small hnotnull fun r v' hv' hc hf => ?_⟩
    have hv'' : Inodes G B' v' := hv'.mono fun _ => by
      rw [hc, hf]
      exact hbump.super
    cases r with
    | error e => exact hv''
    | ok u =>
        exact ⟨hweaken _ (hv''.dAdd hinode htyped), hv''.dAdd hinode htyped⟩

theorem vfsInode_typed {ino : SimplefsInode} (hkind : sIsdir ino.mode = true ∨ sIsreg ino.mode = true) :
    (vfsInode ino).Typed := by
  rintro i ⟨⟩
  refine ⟨fun hd => hd, fun hf => ?_⟩
  rcases hkind with hd | hr
  · simp [vfsInode, hd] at hf
  · exact hr

/-- The create rule. -/
theorem Inodes.create (hG : ∀ i, G i → 2 ≤ i.dataBlockNumber.toNat) (h : Inodes G B' v)
    {dir : Path} {dentry : Name} {mode : U32} (hk : CreateKeeps P T G B B' w dir mode v) :
    CreateOk P (Inodes G B) w T dir dentry mode (fun _ v' => Inodes G B' v') v := by
  have htaken : v.freeIndex P ≠ 64 → Inodes G B (v.after (takeScript P v)) := fun hi =>
    (h.along_take (hk.take hi)).last (h.mono (hk.weaken _ _))
  have hsame : (v.after (takeScript P v)).cache.free =
      v.cache.free &&& ~~~bitMask P (v.freeIndex P) := Vol.setFree_free v
  have hcount := Vol.count_after_takeScript P v
  refine ⟨hk.small, fun _ => h, fun _ => h, fun _ _ _ => h, fun _ _ => h, fun _ _ => h,
    fun _ _ hi => h.along_take (hk.take hi), ?_, ?_⟩
  · rintro v₁ hlt hkind hi rfl
    refine (htaken hi).along_add (hk.fresh _ hi) ?_ (hcount ▸ hlt) ?_
    · rw [hcount]
      exact newInode_no h.count_ge hlt
    · rw [hcount, hsame]
      exact hk.weaken _ _ (hk.append hi)
  · rintro skip v₁ hlt hkind hi rfl hskip
    have hnew := hk.fresh (w.answer .slab) hi
    have hprivate : ∀ i, (vfsInode (newInode P v mode (w.answer .slab))).iPrivate = some i → G i := by
      rintro i ⟨⟩
      exact hnew
    cases skip with
    | true =>
        refine (htaken hi).link hG hk rfl ?_ hprivate (vfsInode_typed hkind)
        rw [hcount, hsame]
        exact hk.skip hi (hskip rfl)
    | false =>
        have hadded : Inodes G B' ((v.after (takeScript P v)).added
            (newInode P v mode (w.answer .slab)) false) := by
          refine Inodes.congr ((htaken hi).added hnew ?_ (hcount ▸ hlt) ?_).2 rfl rfl
          · rw [hcount]
            exact newInode_no h.count_ge hlt
          · rw [hcount, hsame]
            exact hk.append hi
        exact (hadded.mono (hk.weaken _ _)).link hG hk rfl hadded.super hprivate
          (vfsInode_typed hkind)

/-- The lookup rule: what is loaded was stored. -/
theorem Inodes.lookup (h : Inodes G B v) {parent : Path} {name : Name}
    (hsmall : P.nrBlocks ≤ 1 → T .bug) (hnull : T .nullPrivate) (hnoInode : T .nullInode)
    (hbuffer : ∀ par, v.priv parent = some par → P.nrBlocks ≤ par.dataBlockNumber.toNat →
      T .nullBuffer)
    (hoverflow : ∀ par off, v.priv parent = some par → 16 < par.dirChildrenCount.toNat →
      T (.outOfBlock par.dataBlockNumber.toNat off sizeofDirRecord)) :
    LookupOk P (Inodes G B) T parent name (fun _ v' => Inodes G B v') v where
  bug := hsmall
  null := fun _ => hnull
  noBuffer := hbuffer
  overflow := by
    intro par e hpar he
    obtain ⟨hgt, off, rfl⟩ := lookupFrom_error he
    exact hoverflow par off hpar (by omega)
  absent := fun _ _ _ => h
  fault := by
    intro par k e _ _ he
    obtain ⟨r, hr⟩ := Vol.getInode_total (Nat.le_trans h.count_le (by decide))
      (asInt (v.cache.recordNo par k))
    rw [hr] at he
    cases he
  noInode := fun _ _ _ _ _ => hnoInode
  found := by
    intro par k ino _ _ hget
    have hadd : Inodes G B (v.dAdd (name :: parent) (igetInode (v.cache.recordNo par k) ino)) := by
      refine h.dAdd ?_ ?_
      · rintro i ⟨⟩
        exact h.getInode hget
      · rintro i ⟨⟩
        refine ⟨fun hd => hd, fun hf => ?_⟩
        simp only [igetInode] at hf
        split at hf
        · cases hf
        · split at hf
          · assumption
          · cases hf
    exact ⟨hadd, hadd⟩

/-- The write rule. -/
theorem Inodes.write (hG : ∀ i, G i → 2 ≤ i.dataBlockNumber.toNat) (h : Inodes G B v) {p : Path}
    {buf : Buf} {len ppos : U64} (hsmall : P.nrBlocks ≤ 1 → T .bug) (hnull : T .nullPrivate)
    (hoverflow : ∀ ino, v.priv p = some ino → len ≠ 0 → 4096 < ppos.toNat + len.toNat →
      T (.outOfBlock ino.dataBlockNumber.toNat ppos.toNat len.toNat))
    (hsize : ∀ ino, v.priv p = some ino → G { ino with fileSize := ppos + len }) :
    WriteOk P (Inodes G B) w T p buf len ppos (fun _ v' => Inodes G B v') v := by
  have hcopied : ∀ ino, v.priv p = some ino → Inodes G B (v.copied ino.dataBlockNumber.toNat
      ppos.toNat buf len.toNat (w.answer .copyFromUser)) := by
    intro ino hino
    unfold Vol.copied
    split
    · exact h
    · exact h.modify (hG ino (h.loaded p ino hino)) _
  refine ⟨fun _ => hnull, fun _ _ _ => h, hoverflow, fun ino hino _ _ => hcopied ino hino,
    fun ino hino _ _ _ => hcopied ino hino, ?_⟩
  rintro ino v₁ hino _ _ _ rfl
  have h₁ := hcopied ino hino
  have hsync := h₁.along_sync ino.dataBlockNumber.toNat
  have hsame : ∀ q, ((v.copied ino.dataBlockNumber.toNat ppos.toNat buf len.toNat
      (w.answer .copyFromUser)).after (syncScript ino.dataBlockNumber.toNat)).priv q = v.priv q := by
    intro q
    unfold Vol.copied
    split <;> rfl
  have hset := (hsync.last h₁).setPrivate (p := p)
    (f := fun i => { i with fileSize := ppos + len })
    (fun i hi => hsize i ((hsame p).symm.trans hi)) (fun _ => rfl)
  refine ⟨hsync, fun _ => hsync.last h₁, hset, hset.save hsmall (fun _ => hnull) fun r u hu _ _ => ?_⟩
  cases r with
  | error e => exact hu
  | ok _ => exact hu

end Functions

/-! ## Whole calls -/

section Calls

variable {P : Platform} {G : SimplefsInode → Prop} {B B' : U64 → U64 → Prop} {w : Outside}
  {T : Fault → Prop} {v : Vol}

theorem Inodes.loaded_of_dcache (h : Inodes G B v) {p : Path} {d : Inode} {i : SimplefsInode}
    (hd : v.dcache p = some d) (hi : v.priv p = some i) : G i ∧ d.iPrivate = some i := by
  refine ⟨h.loaded p i hi, ?_⟩
  unfold Vol.priv at hi
  rwa [hd] at hi

theorem Inodes.vwp_create (hG : ∀ i, G i → 2 ≤ i.dataBlockNumber.toNat) (h : Inodes G B' v)
    {dir : Path} {name : Name} {mode : U32} (hk : CreateKeeps P T G B B' w dir mode v) :
    vwp (Inodes G B) w T (vfsCreate dir name (simplefsCreateFsObject P dir name mode))
      (fun _ v' => Inodes G B' v') v :=
  vwp_vfsCreate (fun _ => h) (fun _ _ _ => h) (fun _ _ => h) fun _ _ _ _ =>
    vwp_simplefsCreateFsObject (h.mono (hk.weaken _ _)) (h.create hG hk)

theorem Inodes.vwp_lookup (h : Inodes G B v) {dir : Path} {name : Name}
    (hsmall : P.nrBlocks ≤ 1 → T .bug) (hnull : T .nullPrivate) (hnoInode : T .nullInode)
    (hbuffer : ∀ par, v.priv dir = some par → P.nrBlocks ≤ par.dataBlockNumber.toNat →
      T .nullBuffer)
    (hoverflow : ∀ par off, v.priv dir = some par → sIsdir par.mode = true →
      16 < par.dirChildrenCount.toNat →
      T (.outOfBlock par.dataBlockNumber.toNat off sizeofDirRecord)) :
    vwp (Inodes G B) w T (vfsLookup P dir name) (fun _ v' => Inodes G B v') v := by
  refine vwp_vfsLookup h (fun _ => h) (fun _ _ _ => h) (fun _ _ => h) fun d hd hdir _ => ?_
  refine h.lookup hsmall hnull hnoInode hbuffer fun par off hpar => hoverflow par off hpar ?_
  -- the VFS looks up in directories only
  exact (h.typed dir d hd par (h.loaded_of_dcache hd hpar).2).1 hdir

theorem Inodes.vwp_iterate (h : Inodes G B v) {dir : Path} {ctx : DirContext}
    (hnull : T .nullPrivate)
    (hbug : ∀ ino, v.priv dir = some ino → P.nrBlocks ≤ ino.dataBlockNumber.toNat → T .bug)
    (hoverflow : ∀ ino off, v.priv dir = some ino → sIsdir ino.mode = true →
      16 < ino.dirChildrenCount.toNat →
      T (.outOfBlock ino.dataBlockNumber.toNat off sizeofDirRecord)) :
    vwp (Inodes G B) w T (Call.prog P (.iterate dir ctx)) (fun _ v' => Inodes G B v') v := by
  refine vwp_vfsDirectory (fun _ => h) (fun _ _ _ => h) fun _ _ _ => vwp_bind (vwp_simplefsIterate h
    ⟨fun _ => hnull, fun ino hino _ => hbug ino hino, fun ino e hino hdir he => ?_,
      fun _ => vwp_pure h⟩)
  obtain ⟨hgt, off, rfl⟩ := iterateFrom_error he
  exact hoverflow ino off hino hdir (by omega)

theorem Inodes.vwp_write (hG : ∀ i, G i → 2 ≤ i.dataBlockNumber.toNat) (h : Inodes G B v)
    {file : Path} {buf : Buf} {len pos : U64} (hsmall : P.nrBlocks ≤ 1 → T .bug)
    (hnull : T .nullPrivate)
    (hoverflow : ∀ ino off n, v.priv file = some ino → 4096 < pos.toNat + len.toNat →
      T (.outOfBlock ino.dataBlockNumber.toNat off n))
    (hresize : ∀ ino, v.priv file = some ino → sIsreg ino.mode = true →
      G { ino with fileSize := pos + len }) :
    vwp (Inodes G B) w T (Call.prog P (.write file buf len pos)) (fun _ v' => Inodes G B v') v := by
  refine vwp_vfsFile (fun _ => h) (fun _ _ _ => h) fun d hd hf =>
    vwp_bind (vwp_mono (fun _ _ hv' => vwp_pure hv') (vwp_simplefsWrite h
      (h.write hG hsmall hnull (fun ino hino _ => hoverflow ino _ _ hino)
        fun ino hino => hresize ino hino ?_)))
  -- the VFS writes to regular files only
  exact (h.typed file d hd ino (h.loaded_of_dcache hd hino).2).2 hf

end Calls

/-- The invariant where the super block does not matter. -/
abbrev AllInodes (G : SimplefsInode → Prop) (v : Vol) : Prop := Inodes G (fun _ _ => True) v

end Lkm.Simplefs
