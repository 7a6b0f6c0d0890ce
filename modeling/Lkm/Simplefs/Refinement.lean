import Lkm.Simplefs.Format
import Lkm.Simplefs.Ready.Create
import Lkm.Simplefs.Ready.Mount
import Lkm.Simplefs.Ready.Write

/-!
# The driver refines the tree

Each call that nothing interrupts returns, keeps the volume ready for the next one and is
a step of `Tree.Next` on the tree of the cached image (`ready_step`); `runs_refines`
makes a run of it.

The shape of the image is needed: in `sharedImage` two directories have a record of a
third, which is then in memory twice, and a file created through one path is not found
through the other.
-/

namespace Lkm.Simplefs

open Base

/-! ## Which calls -/

/-- A call that nothing interrupts, on inodes that the VFS has in memory. What is created has a
name of at most 247 bytes that is not in its parent yet, and the parent has room for it;
a write ends within the block. -/
def Proper (v : Vol) (s : Step) : Prop :=
  s.1.Uninterrupted ∧
    match s.2 with
    | .create dir name _ | .mkdir dir name _ =>
        (v.dcache dir).any (fun d => sIsdir d.iMode) = true ∧ name.bytes.length ≤ 247 ∧
          v.cache.tree.node (name :: dir) = none ∧
          (v.cache.tree.node dir).all (fun d => decide (d.extent.toNat < 16)) = true
    | .lookup dir _ => (v.dcache dir).any (fun d => sIsdir d.iMode) = true
    | .write file _ len pos =>
        (v.dcache file).any (fun i => decide (i.iFop = some .file)) = true ∧
          pos.toNat + len.toNat ≤ 4096
    | .remount => True
    | .iterate .. | .read .. => False

/-- The waits of the driver. -/
def Site.all : List Site :=
  [.createDirectory, .objectsCount, .freeblock, .addInodes, .addSb, .createInodes, .saveSb,
    .writeInodes]

theorem Site.mem_all (i : Site) : i ∈ Site.all := by
  cases i <;> decide

instance (w : Outside) : Decidable w.Uninterrupted :=
  decidable_of_iff (∀ i ∈ Site.all, w.interrupted i = false)
    ⟨fun h i => h i i.mem_all, fun h i _ => h i⟩

instance decidableProper (v : Vol) : ∀ s, Decidable (Proper v s)
  | (w, .create _ _ _) => inferInstanceAs (Decidable (w.Uninterrupted ∧ _ ∧ _ ∧ _ ∧ _))
  | (w, .mkdir _ _ _) => inferInstanceAs (Decidable (w.Uninterrupted ∧ _ ∧ _ ∧ _ ∧ _))
  | (w, .lookup _ _) => inferInstanceAs (Decidable (w.Uninterrupted ∧ _))
  | (w, .write _ _ _ _) => inferInstanceAs (Decidable (w.Uninterrupted ∧ _ ∧ _))
  | (w, .remount) => inferInstanceAs (Decidable (w.Uninterrupted ∧ True))
  | (w, .iterate _ _) => inferInstanceAs (Decidable (w.Uninterrupted ∧ False))
  | (w, .read _ _ _) => inferInstanceAs (Decidable (w.Uninterrupted ∧ False))

/-! ## One call -/

section Step

variable {P : Platform} {m : Machine} {w : Outside}

/-- The device has a super block, an inode store and a root directory. -/
theorem Ready.two_le {N : Nat} {v : Vol} (h : Ready N v) : 2 ≤ N := by
  obtain ⟨k, hk, -⟩ := h.shaped.root
  have := h.shaped.block_range k hk
  omega

/-- The machine between two calls. -/
def Idle (P : Platform) (m : Machine) : Prop :=
  Ready P.nrBlocks m.mem.toVol ∧ ∀ x, m.owner x = none

/-- A call returns with `Q` of its result and the volume it leaves, which is ready; every volume
on the way is tree-shaped. -/
def Serves (P : Platform) (p : Sfs Res) (w : Outside) (m : Machine) (Q : Res → Tree → Prop) : Prop :=
  (∀ m' ∈ p.visits w 0 m, TreeShaped P.nrBlocks m'.mem.cache) ∧
    ∃ r m', p.run w 0 m = .done r m' ∧ Idle P m' ∧ Q r m'.mem.cache.tree

theorem Serves.mono {p : Sfs Res} {Q Q' : Res → Tree → Prop} (hQ : ∀ r t', Q r t' → Q' r t')
    (h : Serves P p w m Q) : Serves P p w m Q' := by
  obtain ⟨hvisits, r, m', hrun, hidle, hr⟩ := h
  exact ⟨hvisits, r, m', hrun, hidle, hQ _ _ hr⟩

theorem Idle.serves_of_vwp (h : Idle P m) (hw : w.Uninterrupted) {p : Sfs Res} (hp : Keeps safePolicy p .empty)
    {Q : Res → Tree → Prop}
    (hvwp : vwp (fun u => TreeShaped P.nrBlocks u.cache) w (fun _ => False) p
      (fun r v' => Ready P.nrBlocks v' ∧ Q r v'.cache.tree) m.mem.toVol) :
    Serves P p w m Q := by
  obtain ⟨hvisits, r, m', hrun, ⟨hready, hQ⟩, hfree⟩ :=
    vwp_returns hp hw h.2 h.1.shaped hvwp
  exact ⟨hvisits, r, m', hrun, ⟨hready, hfree⟩, hQ⟩

theorem Idle.create (h : Idle P m) (hN : P.nrBlocks ≤ 31) (hw : w.Uninterrupted) {dir : Path}
    {name : Name} {mode : U32}
    (hmem : (m.mem.dcache dir).any (fun d => sIsdir d.iMode) = true)
    (hname : name.bytes.length ≤ 247) (habsent : m.mem.cache.tree.node (name :: dir) = none)
    (hroom : (m.mem.cache.tree.node dir).all (fun d => decide (d.extent.toNat < 16)) = true) :
    Serves P (vfsCreate dir name (simplefsCreateFsObject P dir name mode)) w m (fun r t' =>
      ∃ r', r = .status r' ∧
        m.mem.cache.tree.create dir name mode (w.answer .newInode) = (r', t')) := by
  obtain ⟨hready, hfree⟩ := h
  obtain ⟨d, hd, hdir⟩ := (Option.any_eq_true _ _).mp hmem
  obtain ⟨a, ha, hlt, hpriv, hisdir⟩ := hready.directory hd hdir
  have hresolve : m.mem.cache.resolve (name :: dir) = none := Option.map_eq_none_iff.mp habsent
  have hdentry : m.mem.dcache (name :: dir) = none := by
    by_contra hne
    obtain ⟨e, he⟩ := Option.ne_none_iff_exists'.mp hne
    have hfinds := hready.finds_of_dcache he
    rw [habsent] at hfinds
    exact hfinds
  have hchildren : (m.mem.cache.slot a).dirChildrenCount.toNat < 16 := by
    rw [TreeShaped.node_iff.mpr ⟨a, ha, rfl⟩] at hroom
    exact of_decide_eq_true hroom
  have hok : CreateOk P (fun u => TreeShaped P.nrBlocks u.cache) w (fun _ => False) dir name mode
      (CreateEnds P P.nrBlocks m.mem.toVol dir name mode (w.answer .slab)) m.mem.toVol :=
    hready.create hN (Nat.le_refl _) hw ha hpriv hisdir hchildren (Nat.lt_succ_of_le hname) hresolve
      hdentry
  have hends : vwp (fun u => TreeShaped P.nrBlocks u.cache) w (fun _ => False)
      (vfsCreate dir name (simplefsCreateFsObject P dir name mode))
      (fun r v' => ∃ r', r = .status r' ∧
        CreateEnds P P.nrBlocks m.mem.toVol dir name mode (w.answer .slab) r' v') m.mem.toVol := by
    apply vwp_vfsCreate
    · intro hnone
      cases hd.symm.trans hnone
    · intro d' hd' hnot
      cases hd.symm.trans hd'
      cases hdir.symm.trans hnot
    · intro i hi
      cases hdentry.symm.trans hi
    · intro _ _ _ _
      apply vwp_mono _ (vwp_simplefsCreateFsObject hready.shaped hok)
      intro r v' hr
      exact ⟨r, rfl, hr⟩
  obtain ⟨hvisits, r, m', hrun, ⟨r', rfl, hend⟩, hfree'⟩ :=
    vwp_returns (keeps_call P (.create dir name mode)) hw hfree hready.shaped hends
  refine ⟨hvisits, _, m', hrun, ⟨hend.1, hfree'⟩, r', rfl, ?_⟩
  have hlow : ∀ par, m.mem.toVol.priv dir = some par → 2 ≤ par.dataBlockNumber.toNat := by
    intro par hp
    cases hpriv.symm.trans hp
    exact (hready.shaped.block_range a hlt).1
  have hexits : xwp w (vfsCreate dir name (simplefsCreateFsObject P dir name mode))
      (fun r v' _ => ∀ r', r = .status r' → CreateExits P w m.mem.toVol mode r' v')
      m.mem.toVol m.mem.refs := by
    apply xwp_vfsCreate hd hdir hdentry
    apply xwp_mono _ (xwp_create_exits hw hlow)
    rintro r v' _ hr r' ⟨⟩
    exact hr
  exact hend.tree_create hready.shaped hN hw (xwp_done hexits hrun r' rfl)

theorem Idle.lookup (h : Idle P m) (hw : w.Uninterrupted) {dir : Path} {name : Name}
    (hmem : (m.mem.dcache dir).any (fun d => sIsdir d.iMode) = true) :
    Serves P (Call.prog P (.lookup dir name)) w m
      (m.mem.cache.tree.Next (w, .lookup dir name)) := by
  obtain ⟨d, hd, hdir⟩ := (Option.any_eq_true _ _).mp hmem
  apply h.serves_of_vwp hw (keeps_call P _)
  apply vwp_vfsLookup h.1.shaped
  · intro hnone
    cases hd.symm.trans hnone
  · intro d' hd' hnot
    cases hd.symm.trans hd'
    cases hdir.symm.trans hnot
  · intro i hi
    exact ⟨h.1, .lookup (h.1.finds_of_dcache hi)⟩
  · intro _ _ _ habsent
    exact h.1.lookup hd hdir habsent h.1.two_le (Nat.le_refl _)

theorem Idle.write (h : Idle P m) (hw : w.Uninterrupted) {file : Path} {buf : Buf} {len pos : U64}
    (hmem : (m.mem.dcache file).any (fun i => decide (i.iFop = some .file)) = true)
    (hfits : pos.toNat + len.toNat ≤ 4096) :
    Serves P (Call.prog P (.write file buf len pos)) w m
      (m.mem.cache.tree.Next (w, .write file buf len pos)) := by
  obtain ⟨i, hi, hfop⟩ := (Option.any_eq_true _ _).mp hmem
  have hfile := of_decide_eq_true hfop
  obtain ⟨k, hk, -, hpriv, hnotdir, hroot⟩ := h.1.file hi hfile
  apply h.serves_of_vwp hw (keeps_call P _)
  apply vwp_vfsFile_some hi hfile
  apply vwp_bind
  apply vwp_mono _ (vwp_simplefsWrite h.1.shaped
    (h.1.write (Nat.le_refl _) hw hk hpriv hnotdir hroot hfits))
  intro r v' hr
  exact vwp_pure hr

/-- A proper call is a step of the tree. -/
theorem ready_step (hN : P.nrBlocks ≤ 31) {s : Step} (h : Idle P m) (hs : Proper m.mem.toVol s) :
    Serves P (s.2.prog P) s.1 m (m.mem.cache.tree.Next s) := by
  obtain ⟨w, c⟩ := s
  obtain ⟨hw, hc⟩ := hs
  cases c with
  | create dir name mode =>
      obtain ⟨hmem, hname, habsent, hroom⟩ := hc
      apply (h.create hN hw hmem hname habsent hroom).mono
      rintro r t' ⟨r', rfl, hcreate⟩
      exact .create hcreate
  | mkdir dir name mode =>
      obtain ⟨hmem, hname, habsent, hroom⟩ := hc
      apply (h.create hN hw hmem hname habsent hroom).mono
      rintro r t' ⟨r', rfl, hcreate⟩
      exact .mkdir hcreate
  | lookup dir name => exact h.lookup hw hc
  | iterate dir ctx => exact hc.elim
  | read file len pos => exact hc.elim
  | write file buf len pos => exact h.write hw hc.1 hc.2
  | remount => exact h.serves_of_vwp hw (keeps_call P _) (h.1.remount h.1.two_le)

end Step

/-! ## Runs -/

theorem TreeShaped.idle {P : Platform} {img : Image} (h : TreeShaped P.nrBlocks img) :
    Idle P (mount P img) ∧ (mount P img).mem.cache = img := by
  obtain ⟨i, hget, hready⟩ := h.mounted
  obtain ⟨hmount, hfree⟩ := mount_eq (P := P) hready.two_le hget
  refine ⟨⟨?_, hfree⟩, ?_⟩
  · rw [hmount]
    exact hready
  · exact congrArg Vol.cache hmount

/-- From a tree-shaped image, every run of proper calls returns, passes through tree-shaped images
only, and does to the tree what the tree's own operations do. -/
theorem refines_tree (P : Platform) (hN : P.nrBlocks ≤ 31) (img : Image)
    (h : TreeShaped P.nrBlocks img) (steps : List Step)
    (hs : Issues P Proper steps (mount P img)) :
    (∀ m ∈ states P steps (mount P img),
      TreeShaped P.nrBlocks m.mem.cache ∧ m.mem.cache.tree.Formed) ∧
    ∃ rs m', outcome P steps (mount P img) = .done rs m' ∧
      SpecRun Tree.Next img.tree steps rs m'.mem.cache.tree := by
  obtain ⟨hidle, himg⟩ := h.idle
  constructor
  · have hvisits := (runs_inv (J := Idle P) (I := fun m => TreeShaped P.nrBlocks m.mem.cache)
      (H := fun _ => True) (F := fun _ _ => True) (fun m hm => hm.1.shaped)
      (fun m s hm hp => by
        obtain ⟨hvisits, r, m', hrun, hm', -⟩ := ready_step hN hm hp
        rw [hrun]
        exact ⟨hvisits, hm'⟩) steps _ hidle hs).1
    intro m hm
    exact ⟨hvisits m hm, (hvisits m hm).formed⟩
  · have hstep : ∀ m s, Idle P m → Proper m.mem.toVol s →
        ∃ r m', (s.2.prog P).run s.1 0 m = .done r m' ∧ Idle P m' ∧
          m.mem.cache.tree.Next s r m'.mem.cache.tree :=
      fun m s hm hp => (ready_step hN hm hp).2
    obtain ⟨rs, m', hruns, -, hspec⟩ := runs_refines hstep steps _ hidle hs
    rw [himg] at hspec
    exact ⟨rs, m', hruns, hspec⟩

theorem emptyRoot_treeShaped : TreeShaped 16 emptyRoot := by
  refine ⟨wellFormed_of_checked ?_ ?_ ?_ ?_, ?_⟩
  · decide +kernel
  · decide +kernel
  · decide +kernel
  · decide +kernel
  · rintro a b r s ⟨ha, -, hr⟩
    rw [emptyRoot_zero ha, emptyRoot_slot] at hr
    exact absurd hr (Nat.not_lt_zero r)

/-- A file in a directory, looked up again after the volume was unmounted. -/
def remountSteps : List Step :=
  [(calm, .mkdir [] nameA 0), (calm, .create [nameA] nameF sIfreg),
    (calm, .write [nameF, nameA] (fun _ => 0x78) 3 0), (calm, .remount),
    (calm, .lookup [] nameA), (calm, .lookup [nameA] nameF)]

theorem remountSteps_proper :
    Issues demoPlatform Proper remountSteps (mount demoPlatform emptyRoot) := by
  decide +kernel

theorem refines_tree_remount :
    TreeShaped 16 emptyRoot ∧
      ∃ rs m', outcome demoPlatform remountSteps (mount demoPlatform emptyRoot) = .done rs m' ∧
        SpecRun Tree.Next emptyRoot.tree remountSteps rs m'.mem.cache.tree :=
  ⟨emptyRoot_treeShaped, (refines_tree demoPlatform (by decide) emptyRoot emptyRoot_treeShaped
    remountSteps remountSteps_proper).2⟩

/-- The root has the directories `a` and `g`, and `a` has a record of `g`, too, as `f`. -/
def sharedImage : Image
  | 0 => setFreeBlocks (setInodesCount (fun _ => 0) 3) 0xFFE0
  | 1 => putInode (putInode (putInode (fun _ => 0) 0 ⟨sIfdir, 0, 1, 2, 2⟩) 1 ⟨sIfdir, 0, 2, 3, 1⟩)
      2 ⟨sIfdir, 0, 3, 4, 0⟩
  | 2 => strcpyFilename (setRecordInodeNo
      (strcpyFilename (setRecordInodeNo (fun _ => 0) 0 2) 0 nameA.bytes) 1 3) 1 nameG.bytes
  | 3 => strcpyFilename (setRecordInodeNo (fun _ => 0) 0 3) 0 nameF.bytes
  | _ => fun _ => 0

/-- Walk to the shared directory on both ways, make a file on one and look for it on the other. -/
def sharedSteps : List Step :=
  [(calm, .lookup [] nameA), (calm, .lookup [nameA] nameF), (calm, .lookup [] nameG),
    (calm, .create [nameG] nameA sIfreg), (calm, .lookup [nameF, nameA] nameA)]

def sharedRun : Outcome Mem Mutex Fault (List Res) :=
  outcome demoPlatform sharedSteps (mount demoPlatform sharedImage)

/-- A directory with two records: what was created in it is there and is not found. -/
theorem shared_not_found :
    WellFormed 16 sharedImage ∧
      Issues demoPlatform Proper sharedSteps (mount demoPlatform sharedImage) ∧
      sharedRun.result?.bind (·.getLast?) = some (.found none) ∧
      (sharedRun.mach.mem.cache.tree.node [nameA, nameF, nameA]).isSome = true := by
  refine ⟨wellFormed_of_checked ?_ ?_ ?_ ?_, ?_, ?_, ?_⟩
  · decide +kernel
  · decide +kernel
  · decide +kernel
  · decide +kernel
  · decide +kernel
  · decide +kernel
  · decide +kernel

end Lkm.Simplefs
