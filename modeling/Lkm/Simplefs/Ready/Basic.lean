import Lkm.Simplefs.WellFormed

/-!
# Between two calls on a tree-shaped image

`Ready` is what holds of the volume between two calls: the image is tree-shaped, every
inode in memory is a copy of its slot and stands at the path that leads there, and only
data blocks of files may differ from the device. For each call there is one lemma, here
or in the other modules of this directory: it cannot fault, every volume on the way is
tree-shaped, the volume at the end is ready again, and its tree is the one that
`Tree.Next` asks for.
-/

namespace Lkm.Simplefs

open Base

/-- The volume between two calls. -/
structure Ready (N : Nat) (v : Vol) : Prop where
  shaped : TreeShaped N v.cache
  coherent : Coherent N v
  root : ∃ i, v.dcache [] = some ⟨simplefsRootdirInodeNumber, sIfdir, some .dir, some i⟩
  below : ∀ n p d, v.dcache (n :: p) = some d → ∃ i, d = igetInode i.inodeNo i
  synced : ∀ b, v.past b ≠ [] → ∃ k, k < v.cache.count.toNat ∧
    sIsdir (v.cache.slot k).mode = false ∧ (v.cache.slot k).dataBlockNumber.toNat = b

/-- The inode in slot `k` as the VFS sees it. -/
theorem WellFormed.shows {N : Nat} {img : Image} (h : WellFormed N img) {k : Nat}
    (hk : k < img.count.toNat) :
    (igetInode (img.slot k).inodeNo (img.slot k)).Shows (img.slot k).node := by
  have hcount := h.count_le
  refine ⟨?_, rfl, rfl, (img.slot k), rfl, rfl⟩
  exact h.tables.asInt_number (by omega) hk

namespace Ready

variable {N : Nat} {v : Vol}

theorem count_le (h : Ready N v) : v.cache.count.toNat ≤ 64 := h.shaped.count_le

/-- An inode in memory stands at the path that leads to its slot. -/
theorem resolve_of_priv (h : Ready N v) {p : Path} {i : SimplefsInode} (hp : v.priv p = some i) :
    ∃ k, v.cache.resolve p = some k ∧ v.cache.slot k = i := by
  induction p generalizing i with
  | nil =>
      obtain ⟨k, hk, hslot⟩ := h.coherent.copy [] i hp
      have hno := h.coherent.root i hp
      refine ⟨k, h.shaped.find_iff.mpr ⟨hk, ?_⟩, hslot⟩
      rw [hslot, hno]
  | cons n p ih =>
      obtain ⟨a, r, hpar, hl, hname, hentry, -⟩ := h.coherent.listed hp
      obtain ⟨k, hk, hslot⟩ := h.coherent.copy _ i hp
      obtain ⟨a', ha', hslot'⟩ := ih hpar
      have heq : a' = a := by
        apply h.shaped.number_inj a' a (h.shaped.resolve_lt ha') hl.lt
        rw [hslot']
      subst heq
      refine ⟨k, h.shaped.resolve_cons_iff.mpr ⟨a', r, ha', hl, hname, hk, ?_⟩, hslot⟩
      rw [hslot, hentry]

/-- Every dentry has its inode. -/
theorem priv_of_dcache (h : Ready N v) {p : Path} {d : Inode} (hd : v.dcache p = some d) :
    ∃ i, d.iPrivate = some i ∧ v.priv p = some i := by
  cases p with
  | nil =>
      obtain ⟨i, hroot⟩ := h.root
      cases hroot.symm.trans hd
      refine ⟨i, rfl, ?_⟩
      unfold Vol.priv
      rw [hd]
      rfl
  | cons n p =>
      obtain ⟨i, rfl⟩ := h.below n p d hd
      refine ⟨i, rfl, ?_⟩
      unfold Vol.priv
      rw [hd]
      rfl

/-- A directory in memory, and its slot. -/
theorem directory (h : Ready N v) {dir : Path} {d : Inode} (hd : v.dcache dir = some d)
    (hdir : sIsdir d.iMode = true) :
    ∃ a, v.cache.resolve dir = some a ∧ a < v.cache.count.toNat ∧
      v.priv dir = some (v.cache.slot a) ∧ sIsdir (v.cache.slot a).mode = true := by
  obtain ⟨i, hi, hpriv⟩ := h.priv_of_dcache hd
  obtain ⟨a, ha, rfl⟩ := h.resolve_of_priv hpriv
  refine ⟨a, ha, h.shaped.resolve_lt ha, hpriv, ?_⟩
  cases dir with
  | nil =>
      -- the VFS inode of the root does not have the mode from the table
      obtain ⟨k, hk, hno, hkdir⟩ := h.shaped.root
      have hroot := (h.shaped.find_iff.mp ha).2
      rwa [h.shaped.number_inj a k (h.shaped.resolve_lt ha) hk (hroot.trans hno.symm)]
  | cons n p =>
      obtain ⟨i, rfl⟩ := h.below n p d hd
      cases hi
      exact hdir

/-- A file in memory, and its slot. -/
theorem file (h : Ready N v) {p : Path} {d : Inode} (hd : v.dcache p = some d)
    (hfop : d.iFop = some .file) :
    ∃ k, v.cache.resolve p = some k ∧ k < v.cache.count.toNat ∧
      v.priv p = some (v.cache.slot k) ∧ sIsdir (v.cache.slot k).mode = false ∧ p ≠ [] := by
  obtain ⟨i, hi, hpriv⟩ := h.priv_of_dcache hd
  obtain ⟨k, hk, rfl⟩ := h.resolve_of_priv hpriv
  cases p with
  | nil =>
      obtain ⟨i, hroot⟩ := h.root
      cases hroot.symm.trans hd
      cases hfop
  | cons n p =>
      refine ⟨k, hk, h.shaped.resolve_lt hk, hpriv, ?_, by simp⟩
      obtain ⟨i, rfl⟩ := h.below n p d hd
      cases hi
      by_contra hdir
      rw [Bool.not_eq_false] at hdir
      simp [igetInode, hdir] at hfop

/-- What the VFS has of a path below the root is the object there. -/
theorem finds_of_dcache (h : Ready N v) {n : Name} {p : Path} {d : Inode}
    (hd : v.dcache (n :: p) = some d) : Finds (some d) (v.cache.tree.node (n :: p)) := by
  obtain ⟨i, hi, hpriv⟩ := h.priv_of_dcache hd
  obtain ⟨k, hk, rfl⟩ := h.resolve_of_priv hpriv
  obtain ⟨i, rfl⟩ := h.below n p d hd
  cases hi
  rw [TreeShaped.node_iff.mpr ⟨k, hk, rfl⟩]
  exact h.shaped.shows (h.shaped.resolve_lt hk)

/-! ## Lookups -/

section Lookup

variable {P : Platform} {w : Outside}

theorem findRecord_ok (h : Ready N v) {a : Nat} (ha : a < v.cache.count.toNat)
    (hdir : sIsdir (v.cache.slot a).mode = true) (name : Name) :
    ∃ r, v.findRecord (v.cache.slot a) name = .ok r :=
  Vol.findRecord_total (h.shaped.children_le a ha hdir) name

/-- A record that is found leads to an inode of the table. -/
theorem getInode_entry (h : Ready N v) {a r : Nat} (hl : v.cache.Lists a r) :
    ∃ k, k < v.cache.count.toNat ∧ (v.cache.slot k).inodeNo = v.cache.entry a r ∧
      v.getInode (asInt (v.cache.entry a r)) = .ok (some (v.cache.slot k)) := by
  obtain ⟨k, hk, hno⟩ := h.shaped.stored a r hl
  have hcount := h.count_le
  refine ⟨k, hk, hno, ?_⟩
  rw [← hno, h.shaped.tables.asInt_number (by omega) hk]
  apply Vol.getInode_eq (Nat.le_trans h.count_le (by decide)) hk rfl
  intro i hi heq
  have := h.shaped.number_inj i k (by omega) hk heq
  omega

/-- A name without a record is not in the tree. -/
theorem node_none (h : Ready N v) {dir : Path} {name : Name} {a : Nat}
    (ha : v.cache.resolve dir = some a) (hnone : v.findRecord (v.cache.slot a) name = .ok none) :
    v.cache.tree.node (name :: dir) = none := by
  by_contra hne
  obtain ⟨n, hnode⟩ := Option.ne_none_iff_exists'.mp hne
  obtain ⟨k, hk, -⟩ := TreeShaped.node_iff.mp hnode
  obtain ⟨b, r, hb, hl, hname, -⟩ := h.shaped.resolve_cons_iff.mp hk
  cases ha.symm.trans hb
  cases hname.symm.trans (Vol.findRecord_none hnone r hl.record)

/-- The VFS has got one inode more. -/
theorem dAdd (h : Ready N v) {dir : Path} {name : Name} {ino : SimplefsInode}
    (habsent : v.dcache (name :: dir) = none)
    (hcoherent : Coherent N (v.dAdd (name :: dir) (igetInode ino.inodeNo ino))) :
    Ready N (v.dAdd (name :: dir) (igetInode ino.inodeNo ino)) := by
  constructor
  · exact h.shaped
  · exact hcoherent
  · obtain ⟨i, hroot⟩ := h.root
    refine ⟨i, ?_⟩
    rw [Vol.dAdd_dcache_ne _ _ (by simp), hroot]
  · intro n p e he
    by_cases hp : n :: p = name :: dir
    · rw [hp, Vol.dAdd_dcache_self, habsent] at he
      cases he
      exact ⟨_, rfl⟩
    · rw [Vol.dAdd_dcache_ne _ _ hp] at he
      exact h.below n p e he
  · exact h.synced

theorem lookup (h : Ready N v) {dir : Path} {name : Name} {d : Inode} (hd : v.dcache dir = some d)
    (hdir : sIsdir d.iMode = true) (habsent : v.dcache (name :: dir) = none)
    (hN : 2 ≤ P.nrBlocks) (hle : N ≤ P.nrBlocks) :
    LookupOk P (fun u => TreeShaped N u.cache) (fun _ => False) dir name (fun _ v' =>
      Ready N v' ∧ v.cache.tree.Next (w, .lookup dir name) (.found (v'.dcache (name :: dir)))
        v'.cache.tree) v := by
  obtain ⟨a, ha, hlt, hpriv, hisdir⟩ := h.directory hd hdir
  have hpar : ∀ par, v.priv dir = some par → par = v.cache.slot a :=
    fun par hp => Option.some.inj (hp.symm.trans hpriv)
  constructor
  case bug => intro hsmall; omega
  case null =>
    intro hnone
    cases hnone.symm.trans hpriv
  case noBuffer =>
    intro par hp hout
    have := (h.shaped.block_range a hlt).2
    rw [hpar par hp] at hout
    omega
  case overflow =>
    intro par e hp he
    obtain ⟨r, hr⟩ := h.findRecord_ok hlt hisdir name
    rw [hpar par hp] at he
    cases hr.symm.trans he
  case absent =>
    intro par hp hnone
    rw [hpar par hp] at hnone
    refine ⟨h, .lookup ?_⟩
    rw [habsent, h.node_none ha hnone]
    trivial
  case fault =>
    intro par r e hp hr he
    rw [hpar par hp] at hr he
    obtain ⟨k, -, -, hget⟩ := h.getInode_entry ⟨hlt, hisdir, (Vol.findRecord_some hr).1⟩
    cases hget.symm.trans he
  case noInode =>
    intro par r hp hr he
    rw [hpar par hp] at hr he
    obtain ⟨k, -, -, hget⟩ := h.getInode_entry ⟨hlt, hisdir, (Vol.findRecord_some hr).1⟩
    cases hget.symm.trans he
  case found =>
    intro par r ino hp hr hget
    rw [hpar par hp] at hr hget ⊢
    obtain ⟨hrec, hname⟩ := Vol.findRecord_some hr
    have hl : v.cache.Lists a r := ⟨hlt, hisdir, hrec⟩
    obtain ⟨k, hk, hno, hget'⟩ := h.getInode_entry hl
    cases hget'.symm.trans hget
    have hentry : v.cache.recordNo (v.cache.slot a) r = (v.cache.slot k).inodeNo := hno.symm
    have hcount := h.count_le
    have hcoherent := h.coherent.lookup (by omega) hpriv hisdir habsent hr
      (h.shaped.not_root a r hl) hget
    rw [hentry] at hcoherent ⊢
    have hnew : (v.dAdd (name :: dir) (igetInode (v.cache.slot k).inodeNo (v.cache.slot k))).dcache
        (name :: dir) = some (igetInode (v.cache.slot k).inodeNo (v.cache.slot k)) := by
      rw [Vol.dAdd_dcache_self, habsent]
      rfl
    refine ⟨h.shaped, h.dAdd habsent hcoherent, .lookup ?_⟩
    rw [hnew, TreeShaped.node_iff.mpr
      ⟨k, h.shaped.resolve_cons_iff.mpr ⟨a, r, ha, hl, hname, hk, hno⟩, rfl⟩]
    exact h.shaped.shows hk

end Lookup

end Ready

end Lkm.Simplefs
