import Lkm.Simplefs.Logic.Tables

/-!
# Memory and table agree

Without interruptions the inodes in memory never lag behind the table, provided
that no directory is in memory twice. That is a property of the records: they
have to hang every inode at one place only (`Linked`), and nobody may walk
through one that names the root. `Coherent` says of a volume at the end of a
call that every inode in memory is an exact copy of its slot and that each
dentry below the root stands for a record of its parent; `Coherent.path_inj`
draws the conclusion that a path is determined by the inode. The section
`Creating` is about the volume after a create that nothing interrupts.
-/

namespace Lkm.Simplefs

open Base

theorem Name.eq_of_bytes {n m : Name} (h : n.bytes = m.bytes) : n = m := by
  cases n
  cases m
  cases h
  rfl

/-! ## Records of the table -/

/-- Record `r` counts in the directory in slot `a`. -/
structure Image.Lists (img : Image) (a r : Nat) : Prop where
  lt : a < img.count.toNat
  isdir : sIsdir (img.slot a).mode = true
  record : r < (img.slot a).dirChildrenCount.toNat

/-- The number it names. -/
def Image.entry (img : Image) (a r : Nat) : U64 := img.recordNo (img.slot a) r

/-- Its name is `n`. -/
def Image.Named (img : Image) (a r : Nat) (n : Name) : Prop :=
  filenameMatches (img (img.slot a).dataBlockNumber.toNat) r n.bytes = true

/-- Every record names a stored inode, and no two the same. -/
structure Linked (img : Image) : Prop where
  stored : ∀ a r, img.Lists a r → ∃ k, k < img.count.toNat ∧ (img.slot k).inodeNo = img.entry a r
  distinct : ∀ a b r s, img.Lists a r → img.Lists b s → img.entry a r = img.entry b s →
    a = b ∧ r = s

theorem Image.Named.unique {img : Image} {a r : Nat} {n m : Name} (h : img.Named a r n)
    (h' : img.Named a r m) : n = m :=
  Name.eq_of_bytes (filenameMatches_unique n.noNul m.noNul h h')

/-! ## Inodes in memory -/

/-- The volume at the end of a call. -/
structure Coherent (hi : Nat) (v : Vol) : Prop where
  tables : Tables hi v.cache
  linked : Linked v.cache
  copy : ∀ p i, v.priv p = some i → ∃ k, k < v.cache.count.toNat ∧ v.cache.slot k = i
  root : ∀ i, v.priv [] = some i → i.inodeNo = simplefsRootdirInodeNumber
  named : ∀ n p d, v.dcache (n :: p) = some d → ∃ a r i, v.priv p = some (v.cache.slot a) ∧
    v.cache.Lists a r ∧ v.cache.Named a r n ∧ d.iPrivate = some i ∧
      v.cache.entry a r = i.inodeNo ∧ i.inodeNo ≠ simplefsRootdirInodeNumber

namespace Coherent

variable {hi : Nat} {v : Vol}

theorem dcache_of_priv {p : Path} {i : SimplefsInode} (h : v.priv p = some i) :
    ∃ d, v.dcache p = some d ∧ d.iPrivate = some i :=
  Option.bind_eq_some_iff.mp h

/-- A dentry below the root, seen from its inode. -/
theorem listed (h : Coherent hi v) {n : Name} {p : Path} {i : SimplefsInode}
    (hi : v.priv (n :: p) = some i) : ∃ a r, v.priv p = some (v.cache.slot a) ∧
      v.cache.Lists a r ∧ v.cache.Named a r n ∧ v.cache.entry a r = i.inodeNo ∧
        i.inodeNo ≠ simplefsRootdirInodeNumber := by
  obtain ⟨d, hd, hdi⟩ := dcache_of_priv hi
  obtain ⟨a, r, i', hpar, hlists, hname, hi', hentry, hne⟩ := h.named n p d hd
  cases hdi.symm.trans hi'
  exact ⟨a, r, hpar, hlists, hname, hentry, hne⟩

/-- Slots with one number are the same. -/
theorem slot_inj (h : Coherent hi v) {a b : Nat} (ha : a < v.cache.count.toNat)
    (hb : b < v.cache.count.toNat)
    (hno : (v.cache.slot a).inodeNo = (v.cache.slot b).inodeNo) : a = b :=
  h.tables.number_inj a b ha hb hno

/-- No inode is in memory twice. -/
theorem path_inj (h : Coherent hi v) {p q : Path} {i j : SimplefsInode} (hp : v.priv p = some i)
    (hq : v.priv q = some j) (hno : i.inodeNo = j.inodeNo) : p = q := by
  induction p generalizing q i j with
  | nil =>
      cases q with
      | nil => rfl
      | cons m q =>
          obtain ⟨-, -, -, -, -, -, hne⟩ := h.listed hq
          exact absurd (hno.symm.trans (h.root i hp)) hne
  | cons n p ih =>
      obtain ⟨a, r, hpar, hlists, hname, hentry, hne⟩ := h.listed hp
      cases q with
      | nil => exact absurd (hno.trans (h.root j hq)) hne
      | cons m q =>
          obtain ⟨b, s, hpar', hlists', hname', hentry', -⟩ := h.listed hq
          -- one number, so one record, so one parent and one name
          obtain ⟨rfl, rfl⟩ := h.linked.distinct a b r s hlists hlists' (by
            rw [hentry, hentry', hno])
          rw [ih hpar hpar' rfl, hname.unique hname']

end Coherent

section Lookup

variable {hi : Nat} {v : Vol}

/-- The inode that a record names, as `simplefs_lookup` gets it. -/
theorem Coherent.found (h : Coherent hi v) (hcount : v.cache.count.toNat ≤ 128) {a r : Nat}
    (hl : v.cache.Lists a r) {ino : SimplefsInode}
    (hget : v.getInode (asInt (v.cache.entry a r)) = .ok (some ino)) :
    ino.inodeNo = v.cache.entry a r ∧ ∃ k, k < v.cache.count.toNat ∧ v.cache.slot k = ino := by
  obtain ⟨k, hk, hslot, hno, -⟩ := Vol.getInode_some hget
  obtain ⟨l, hlt, hl'⟩ := h.linked.stored a r hl
  rw [← hl', h.tables.asInt_number hcount hlt, hl'] at hno
  exact ⟨hno, k, hk, hslot⟩

/-- A lookup adds a dentry for a record that counts and does not name the root. -/
theorem Coherent.lookup (h : Coherent hi v) (hcount : v.cache.count.toNat ≤ 128) {dir : Path}
    {name : Name} {par : SimplefsInode} {r : Nat} {ino : SimplefsInode}
    (hpar : v.priv dir = some par) (hdir : sIsdir par.mode = true)
    (habsent : v.dcache (name :: dir) = none) (hrec : v.findRecord par name = .ok (some r))
    (hne : v.cache.recordNo par r ≠ simplefsRootdirInodeNumber)
    (hget : v.getInode (asInt (v.cache.recordNo par r)) = .ok (some ino)) :
    Coherent hi (v.dAdd (name :: dir) (igetInode (v.cache.recordNo par r) ino)) := by
  obtain ⟨a, ha, rfl⟩ := h.copy dir par hpar
  obtain ⟨hr, hmatch⟩ := Vol.findRecord_some hrec
  have hl : v.cache.Lists a r := ⟨ha, hdir, hr⟩
  obtain ⟨hno, hstored⟩ := h.found hcount hl hget
  have hnew : (v.dAdd (name :: dir) (igetInode (v.cache.recordNo (v.cache.slot a) r) ino)).dcache
      (name :: dir) = some (igetInode (v.cache.recordNo (v.cache.slot a) r) ino) := by
    rw [Vol.dAdd_dcache_self, habsent]
    rfl
  have hpriv : ∀ p, p ≠ name :: dir →
      (v.dAdd (name :: dir) (igetInode (v.cache.recordNo (v.cache.slot a) r) ino)).priv p =
        v.priv p := by
    intro p hp
    unfold Vol.priv
    rw [Vol.dAdd_dcache_ne _ _ hp]
  refine ⟨h.tables, h.linked, fun p i hp => ?_, fun i hi => ?_, fun n p d hd => ?_⟩
  · by_cases hpn : p = name :: dir
    · unfold Vol.priv at hp
      rw [hpn, hnew] at hp
      cases hp
      exact hstored
    · rw [hpriv p hpn] at hp
      exact h.copy p i hp
  · rw [hpriv [] (by simp)] at hi
    exact h.root i hi
  · -- a dentry below the new one would have had a parent in memory before
    have hp : p ≠ name :: dir := by
      rintro rfl
      rw [Vol.dAdd_dcache_ne _ _ (by simp)] at hd
      obtain ⟨b, s, i, hpar', -⟩ := h.named n _ d hd
      unfold Vol.priv at hpar'
      rw [habsent] at hpar'
      cases hpar'
    rw [hpriv p hp]
    by_cases hnp : n :: p = name :: dir
    · obtain ⟨rfl, rfl⟩ := List.cons.inj hnp
      rw [hnew] at hd
      cases hd
      refine ⟨a, r, ino, hpar, hl, hmatch, rfl, hno.symm, ?_⟩
      rw [hno]
      exact hne
    · rw [Vol.dAdd_dcache_ne _ _ hnp] at hd
      exact h.named n p d hd

/-- A mounted image with sound tables and records: only the root is in memory. -/
theorem Coherent.mounted {img : Image} (htables : Tables hi img) (hlinked : Linked img)
    {d : Inode} (hd : (Vol.ofImage img).getInode simplefsRootdirInodeNumber = .ok d.iPrivate) :
    Coherent hi ((Vol.ofImage img).dAdd [] d) := by
  have hroot : ∀ i, d.iPrivate = some i → i.inodeNo = simplefsRootdirInodeNumber ∧
      ∃ k, k < img.count.toNat ∧ img.slot k = i := by
    intro i hi
    rw [hi] at hd
    obtain ⟨k, hk, hslot, hno, -⟩ := Vol.getInode_some hd
    exact ⟨hno, k, hk, hslot⟩
  have hpriv : ∀ p i, ((Vol.ofImage img).dAdd [] d).priv p = some i →
      p = [] ∧ d.iPrivate = some i := by
    intro p i hp
    by_cases hnil : p = []
    · subst hnil
      exact ⟨rfl, hp⟩
    · unfold Vol.priv at hp
      rw [Vol.dAdd_dcache_ne _ _ hnil] at hp
      cases hp
  refine ⟨htables, hlinked, fun p i hp => (hroot i (hpriv p i hp).2).2,
    fun i hi => (hroot i (hpriv [] i hi).2).1, fun n p e he => ?_⟩
  rw [Vol.dAdd_dcache_ne _ _ (by simp)] at he
  cases he

end Lookup

/-! ## After a create -/

/-- A create on `v` that will succeed: `ino` is the new inode, `par` its parent in
slot `j`. -/
structure Creating (P : Platform) (hi : Nat) (v : Vol) (dir : Path) (name : Name)
    (ino par : SimplefsInode) (j : Nat) : Prop where
  coherent : Coherent hi v
  hi_le : hi ≤ 31
  room : v.cache.count.toNat < 64
  found : v.freeIndex P ≠ 64
  isNew : ∃ mode slab, ino = newInode P v mode slab
  lt : j < v.cache.count.toNat
  slot : v.cache.slot j = par
  priv : v.priv dir = some par
  isdir : sIsdir par.mode = true
  children : par.dirChildrenCount.toNat < 16
  short : name.bytes.length < simplefsFilenameMaxlen
  absent : v.dcache (name :: dir) = none

namespace Creating

variable {P : Platform} {hi : Nat} {v : Vol} {dir : Path} {name : Name} {ino par : SimplefsInode}
  {j : Nat}

theorem block_ge (h : Creating P hi v dir name ino par j) : 2 ≤ par.dataBlockNumber.toNat := by
  have := h.coherent.tables.block_ge j h.lt
  rwa [h.slot] at this

theorem number (h : Creating P hi v dir name ino par j) :
    ino.inodeNo.toNat = v.cache.count.toNat + 8 := by
  obtain ⟨mode, slab, rfl⟩ := h.isNew
  exact newInode_number P h.room mode slab

theorem block (h : Creating P hi v dir name ino par j) :
    ino.dataBlockNumber.toNat = v.freeIndex P := by
  obtain ⟨mode, slab, rfl⟩ := h.isNew
  exact newInode_block P v mode slab

theorem empty (h : Creating P hi v dir name ino par j) : ino.dirChildrenCount = 0 := by
  obtain ⟨mode, slab, rfl⟩ := h.isNew
  rfl

/-- No slot of the table has the new number. -/
theorem number_new (h : Creating P hi v dir name ino par j) {k : Nat}
    (hk : k < v.cache.count.toNat) : (v.cache.slot k).inodeNo ≠ ino.inodeNo := by
  intro heq
  have hle := h.coherent.tables.number_le k hk
  rw [heq, h.number] at hle
  omega

theorem bump_children (h : Creating P hi v dir name ino par j) :
    par.bump.dirChildrenCount.toNat = par.dirChildrenCount.toNat + 1 := by
  have := h.children
  show (par.dirChildrenCount + 1).toNat = _
  bv_omega

theorem count (h : Creating P hi v dir name ino par j) :
    (v.created P dir name ino par j).cache.count.toNat = v.cache.count.toNat + 1 := by
  have := h.room
  rw [Vol.created_count h.block_ge]
  bv_omega

theorem slot_new (h : Creating P hi v dir name ino par j) :
    (v.created P dir name ino par j).cache.slot v.cache.count.toNat = ino :=
  Vol.created_slot_new h.block_ge (Nat.ne_of_lt h.lt)

theorem slot_old (h : Creating P hi v dir name ino par j) {k : Nat}
    (hk : k < v.cache.count.toNat) (hne : k ≠ j) :
    (v.created P dir name ino par j).cache.slot k = v.cache.slot k :=
  Vol.created_slot_ne h.block_ge (Nat.ne_of_lt hk) hne

theorem same (h : Creating P hi v dir name ino par j) {k : Nat} (hk : k < v.cache.count.toNat) :
    ((v.created P dir name ino par j).cache.slot k).Same (v.cache.slot k) := by
  by_cases hkj : k = j
  · rw [hkj, Vol.created_slot_parent, h.slot]
    exact .bump par
  · rw [h.slot_old hk hkj]
    exact .refl _

/-- Another inode of the table has another block. -/
theorem block_ne (h : Creating P hi v dir name ino par j) {k : Nat}
    (hk : k < v.cache.count.toNat) (hne : k ≠ j) :
    (v.cache.slot k).dataBlockNumber.toNat ≠ par.dataBlockNumber.toNat := by
  intro heq
  refine hne (h.coherent.tables.block_inj k j hk h.lt (BitVec.eq_of_toNat_eq ?_))
  rw [heq, h.slot]

/-- The new number is in the record after the last. -/
theorem entry_new (h : Creating P hi v dir name ino par j) :
    (v.created P dir name ino par j).cache.entry j par.dirChildrenCount.toNat = ino.inodeNo := by
  unfold Image.entry Image.recordNo
  rw [Vol.created_slot_parent]
  show recordInodeNo (Vol.cache _ par.dataBlockNumber.toNat) _ = _
  rw [Vol.created_block h.block_ge, recordInodeNo_strcpyFilename h.short,
    recordInodeNo_setRecordInodeNo_self]

theorem named_new (h : Creating P hi v dir name ino par j) :
    (v.created P dir name ino par j).cache.Named j par.dirChildrenCount.toNat name := by
  unfold Image.Named
  rw [Vol.created_slot_parent]
  show filenameMatches (Vol.cache _ par.dataBlockNumber.toNat) _ _ = true
  rw [Vol.created_block h.block_ge]
  exact filenameMatches_strcpyFilename _ _ _

/-- The records that counted before are as they were. -/
theorem lists_old (h : Creating P hi v dir name ino par j) {a r : Nat}
    (hl : v.cache.Lists a r) :
    (v.created P dir name ino par j).cache.Lists a r ∧
      (v.created P dir name ino par j).cache.entry a r = v.cache.entry a r ∧
      ∀ n, (v.created P dir name ino par j).cache.Named a r n ↔ v.cache.Named a r n := by
  have hlt : a < (v.created P dir name ino par j).cache.count.toNat := by
    rw [h.count]
    have := hl.lt
    omega
  unfold Image.entry Image.recordNo Image.Named
  by_cases haj : a = j
  · subst haj
    have hr : r < par.dirChildrenCount.toNat := h.slot ▸ hl.record
    have hne : r ≠ par.dirChildrenCount.toNat := Nat.ne_of_lt hr
    rw [Vol.created_slot_parent, h.slot]
    refine ⟨⟨hlt, ?_, ?_⟩, ?_, fun n => ?_⟩
    · rw [Vol.created_slot_parent]
      exact h.isdir
    · rw [Vol.created_slot_parent, h.bump_children]
      omega
    · show recordInodeNo (Vol.cache _ par.dataBlockNumber.toNat) r = _
      rw [Vol.created_block h.block_ge, recordInodeNo_strcpyFilename h.short,
        recordInodeNo_setRecordInodeNo_ne hne]
    · show filenameMatches (Vol.cache _ par.dataBlockNumber.toNat) r _ = true ↔ _
      rw [Vol.created_block h.block_ge, filenameMatches_setRecord_ne name.short n.short hne]
  · have hblk := h.block_ne hl.lt haj
    rw [h.slot_old hl.lt haj, Vol.created_cache_ne (h.coherent.tables.block_ge a hl.lt) hblk]
    refine ⟨⟨hlt, ?_, ?_⟩, rfl, fun n => Iff.rfl⟩
    · rw [h.slot_old hl.lt haj]
      exact hl.isdir
    · rw [h.slot_old hl.lt haj]
      exact hl.record

/-- What counts afterwards: what did before, and one record more. -/
theorem lists_cases (h : Creating P hi v dir name ino par j) {a r : Nat}
    (hl : (v.created P dir name ino par j).cache.Lists a r) :
    v.cache.Lists a r ∨ (a = j ∧ r = par.dirChildrenCount.toNat) := by
  obtain ⟨hlt, hdir, hr⟩ := hl
  rw [h.count] at hlt
  by_cases hnew : a = v.cache.count.toNat
  · rw [hnew, h.slot_new, h.empty] at hr
    exact absurd hr (Nat.not_lt_zero r)
  · have ha : a < v.cache.count.toNat := by omega
    by_cases haj : a = j
    · rw [haj, Vol.created_slot_parent, h.bump_children] at hr
      by_cases hlast : r = par.dirChildrenCount.toNat
      · exact .inr ⟨haj, hlast⟩
      · refine .inl ⟨ha, ?_, ?_⟩
        · rw [haj, h.slot]
          exact h.isdir
        · rw [haj, h.slot]
          omega
    · rw [h.slot_old ha haj] at hdir hr
      exact .inl ⟨ha, hdir, hr⟩

theorem lists_new (h : Creating P hi v dir name ino par j) :
    (v.created P dir name ino par j).cache.Lists j par.dirChildrenCount.toNat := by
  refine ⟨?_, ?_, ?_⟩
  · rw [h.count]
    have := h.lt
    omega
  · rw [Vol.created_slot_parent]
    exact h.isdir
  · rw [Vol.created_slot_parent, h.bump_children]
    omega

/-! ### Tables, links and memory after the create -/

theorem tables (h : Creating P hi v dir name ino par j) :
    Tables hi (v.created P dir name ino par j).cache := by
  have hfree := h.coherent.tables.freeIndex h.hi_le h.found
  refine h.coherent.tables.append h.room (Vol.created_count h.block_ge) (fun k hk => h.same hk)
    ?_ ?_ (fun k hk => ?_) fun b hb => ?_
  · rw [h.slot_new, h.number]
  · rw [h.slot_new, h.block]
    exact Vol.freeIndex_ge P v
  · rw [h.slot_new, h.block]
    exact hfree.2 k hk
  · rw [Vol.created_free h.block_ge] at hb
    rw [h.slot_new, h.block]
    exact h.coherent.tables.taken h.hi_le h.found hb

theorem linked (h : Creating P hi v dir name ino par j) :
    Linked (v.created P dir name ino par j).cache := by
  have hold := h.coherent.linked
  -- no record named the new number
  have hunnamed : ∀ a r, v.cache.Lists a r → v.cache.entry a r ≠ ino.inodeNo := by
    intro a r hl heq
    obtain ⟨k, hk, hno⟩ := hold.stored a r hl
    exact h.number_new hk (hno.trans heq)
  refine ⟨fun a r hl => ?_, fun a b r s hl hl' heq => ?_⟩
  · rcases h.lists_cases hl with hl | ⟨rfl, rfl⟩
    · obtain ⟨k, hk, hno⟩ := hold.stored a r hl
      refine ⟨k, ?_, ?_⟩
      · rw [h.count]
        omega
      · rw [(h.lists_old hl).2.1, ← hno, (h.same hk).number]
    · refine ⟨v.cache.count.toNat, ?_, ?_⟩
      · rw [h.count]
        omega
      · rw [h.entry_new, h.slot_new]
  · rcases h.lists_cases hl with ha | ⟨rfl, rfl⟩ <;> rcases h.lists_cases hl' with hb | ⟨rfl, rfl⟩
    · rw [(h.lists_old ha).2.1, (h.lists_old hb).2.1] at heq
      exact hold.distinct a b r s ha hb heq
    · rw [(h.lists_old ha).2.1, h.entry_new] at heq
      exact absurd heq (hunnamed a r ha)
    · rw [(h.lists_old hb).2.1, h.entry_new] at heq
      exact absurd heq.symm (hunnamed b s hb)
    · exact ⟨rfl, rfl⟩

theorem number_ne_root (h : Creating P hi v dir name ino par j) :
    ino.inodeNo ≠ simplefsRootdirInodeNumber := by
  intro heq
  have hno := h.number
  rw [heq, show simplefsRootdirInodeNumber.toNat = 1 from rfl] at hno
  omega

/-- The inodes in memory: the parent and the child are new, the others are not. -/
theorem priv_cases (h : Creating P hi v dir name ino par j) (p : Path) :
    (p = dir ∧ (v.created P dir name ino par j).priv p = some par.bump) ∨
      (p = name :: dir ∧ (v.created P dir name ino par j).priv p = some ino) ∨
      (p ≠ dir ∧ p ≠ name :: dir ∧
        (v.created P dir name ino par j).dcache p = v.dcache p) := by
  by_cases hdir : p = dir
  · subst hdir
    obtain ⟨d, hd, hdp⟩ := Coherent.dcache_of_priv h.priv
    refine .inl ⟨rfl, ?_⟩
    unfold Vol.priv
    rw [Vol.created_dcache_dir hd hdp]
    rfl
  · by_cases hnew : p = name :: dir
    · subst hnew
      refine .inr (.inl ⟨rfl, ?_⟩)
      unfold Vol.priv
      rw [Vol.created_dcache_new h.absent]
      rfl
    · exact .inr (.inr ⟨hdir, hnew, Vol.created_dcache_ne hdir hnew⟩)

theorem priv_dir (h : Creating P hi v dir name ino par j) :
    (v.created P dir name ino par j).priv dir = some par.bump := by
  rcases h.priv_cases dir with ⟨-, h'⟩ | ⟨hne, -⟩ | ⟨hne, -⟩
  · exact h'
  · exact absurd hne (by simp)
  · exact absurd rfl hne

/-- Another directory in memory keeps its slot. -/
theorem slot_of_priv (h : Creating P hi v dir name ino par j) {p : Path} {k : Nat}
    (hp : v.priv p = some (v.cache.slot k)) (hk : k < v.cache.count.toNat) (hne : p ≠ dir) :
    (v.created P dir name ino par j).cache.slot k = v.cache.slot k := by
  refine h.slot_old hk fun hkj => hne (h.coherent.path_inj hp h.priv ?_)
  rw [hkj, h.slot]

theorem copy (h : Creating P hi v dir name ino par j) {p : Path} {i : SimplefsInode}
    (hp : (v.created P dir name ino par j).priv p = some i) :
    ∃ k, k < (v.created P dir name ino par j).cache.count.toNat ∧
      (v.created P dir name ino par j).cache.slot k = i := by
  rw [h.count]
  rcases h.priv_cases p with ⟨-, hpar⟩ | ⟨-, hnew⟩ | ⟨hdir, hne, hsame⟩
  · cases hpar.symm.trans hp
    exact ⟨j, Nat.lt_succ_of_lt h.lt, Vol.created_slot_parent⟩
  · cases hnew.symm.trans hp
    exact ⟨_, Nat.lt_succ_self _, h.slot_new⟩
  · unfold Vol.priv at hp
    rw [hsame] at hp
    obtain ⟨k, hk, hslot⟩ := h.coherent.copy p i hp
    refine ⟨k, Nat.lt_succ_of_lt hk, ?_⟩
    rw [h.slot_of_priv (p := p) (by rw [hslot]; exact hp) hk hdir, hslot]

/-- An old dentry still stands for its record. -/
theorem named_old (h : Creating P hi v dir name ino par j) {n : Name} {p : Path} {d : Inode}
    {i : SimplefsInode} (hd : v.dcache (n :: p) = some d)
    (hsame : ∀ i₀, d.iPrivate = some i₀ → i₀.inodeNo = i.inodeNo) :
    ∃ a r, (v.created P dir name ino par j).priv p =
        some ((v.created P dir name ino par j).cache.slot a) ∧
      (v.created P dir name ino par j).cache.Lists a r ∧
      (v.created P dir name ino par j).cache.Named a r n ∧
      (v.created P dir name ino par j).cache.entry a r = i.inodeNo ∧
      i.inodeNo ≠ simplefsRootdirInodeNumber := by
  obtain ⟨a, r, i₀, hpar, hl, hname, hi₀, hentry, hne⟩ := h.coherent.named n p d hd
  obtain ⟨hl', hentry', hname'⟩ := h.lists_old hl
  refine ⟨a, r, ?_, hl', (hname' n).mpr hname, ?_, hsame i₀ hi₀ ▸ hne⟩
  · by_cases hp : p = dir
    · subst hp
      have hslot : v.cache.slot a = v.cache.slot j := by
        rw [h.slot]
        exact Option.some.inj (hpar.symm.trans h.priv)
      obtain rfl : a = j := h.coherent.slot_inj hl.lt h.lt (by rw [hslot])
      rw [h.priv_dir, Vol.created_slot_parent]
    · have hpn : p ≠ name :: dir := by
        rintro rfl
        unfold Vol.priv at hpar
        rw [h.absent] at hpar
        cases hpar
      rw [h.slot_of_priv hpar hl.lt hp]
      unfold Vol.priv
      rw [Vol.created_dcache_ne hp hpn]
      exact hpar
  · rw [hentry', hentry, hsame i₀ hi₀]

/-- Dentries below the root stand for records. -/
theorem named (h : Creating P hi v dir name ino par j) {n : Name} {p : Path} {d : Inode}
    (hd : (v.created P dir name ino par j).dcache (n :: p) = some d) :
    ∃ a r i, (v.created P dir name ino par j).priv p =
        some ((v.created P dir name ino par j).cache.slot a) ∧
      (v.created P dir name ino par j).cache.Lists a r ∧
      (v.created P dir name ino par j).cache.Named a r n ∧ d.iPrivate = some i ∧
      (v.created P dir name ino par j).cache.entry a r = i.inodeNo ∧
      i.inodeNo ≠ simplefsRootdirInodeNumber := by
  rcases h.priv_cases (n :: p) with ⟨hdir, hpar⟩ | ⟨hnew, hino⟩ | ⟨hdir, hne, hsame⟩
  · obtain ⟨d₀, hd₀, hdp₀⟩ := Coherent.dcache_of_priv h.priv
    rw [← hdir] at hd₀
    obtain ⟨d', hd', hdp'⟩ := Coherent.dcache_of_priv hpar
    cases hd.symm.trans hd'
    obtain ⟨a, r, hp, hl, hname, hentry⟩ := h.named_old (i := par.bump) hd₀ fun i₀ hi₀ => by
      cases hdp₀.symm.trans hi₀
      rfl
    exact ⟨a, r, par.bump, hp, hl, hname, hdp', hentry⟩
  · obtain ⟨rfl, rfl⟩ := List.cons.inj hnew
    obtain ⟨d', hd', hdp'⟩ := Coherent.dcache_of_priv hino
    cases hd.symm.trans hd'
    refine ⟨j, par.dirChildrenCount.toNat, ino, ?_, h.lists_new, h.named_new, hdp', h.entry_new,
      h.number_ne_root⟩
    rw [h.priv_dir, Vol.created_slot_parent]
  · rw [hsame] at hd
    obtain ⟨-, -, i, -, -, -, hi, -⟩ := h.coherent.named n p d hd
    obtain ⟨a, r, hp, hl, hname, hentry⟩ := h.named_old (i := i) hd fun i₀ hi₀ => by
      cases hi.symm.trans hi₀
      rfl
    exact ⟨a, r, i, hp, hl, hname, hi, hentry⟩

/-- The create keeps memory and table together. -/
theorem coherent_created (h : Creating P hi v dir name ino par j) :
    Coherent hi (v.created P dir name ino par j) := by
  refine ⟨h.tables, h.linked, fun p i hp => h.copy hp, fun i hroot => ?_, fun n p d hd => h.named hd⟩
  rcases h.priv_cases [] with ⟨hdir, hpar⟩ | ⟨hnew, -⟩ | ⟨-, -, hsame⟩
  · cases hpar.symm.trans hroot
    have hpriv := h.priv
    rw [← hdir] at hpriv
    exact h.coherent.root par hpriv
  · cases hnew
  · unfold Vol.priv at hroot
    rw [hsame] at hroot
    exact h.coherent.root i hroot

end Creating

end Lkm.Simplefs
