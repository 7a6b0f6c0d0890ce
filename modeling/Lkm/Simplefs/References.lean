import Lkm.Simplefs.Format
import Lkm.Simplefs.Logic.Exact

/-!
# Buffer references

`sb_bread` takes a reference to a block's buffer and `brelse` drops it. Two functions
return with a reference that nobody else drops:

* `simplefs_lookup`, always: the parent's buffer is never released;
* `simplefs_inode_save`, when it returns an error: its wait was interrupted, or no slot that
  it looks at has the number of the inode (`SaveFails`).

`simplefs_inode_add` would be a third one, if its second wait were interrupted; but that
wait always finds its mutex free (`add_never_waits_for_sb`), and is not interrupted here.
All else is in balance, and no function drops what it did not take. So a call leaves the
counts as they were unless it runs into one of the two, and over a run the counts stay
what they were exactly when no call does.
-/

namespace Lkm.Simplefs

open Base

/-- A call of one of the driver's operations. -/
inductive Op where
  | create (dir : Path) (dentry : Name) (mode : U32)
  | mkdir (dir : Path) (dentry : Name) (mode : U32)
  | lookup (parent : Path) (child : Name)
  | iterate (dir : Path) (ctx : DirContext)
  | read (file : Path) (len ppos : U64)
  | write (file : Path) (buf : Buf) (len ppos : U64)

/-- The error that was returned, if any. -/
def errorOf {α : Type} : Except Errno α → Option Errno
  | .error e => some e
  | .ok _ => none

/-- The code of an operation; the result is the error that it returns. -/
def Op.prog (P : Platform) : Op → Sfs (Option Errno)
  | .create dir dentry mode => do
      let r ← simplefsCreate P dir dentry mode
      return errorOf r
  | .mkdir dir dentry mode => do
      let r ← simplefsMkdir P dir dentry mode
      return errorOf r
  | .lookup parent child => do
      simplefsLookup P parent child
      return none
  | .iterate dir ctx => do
      let r ← simplefsIterate P dir ctx
      return errorOf r
  | .read file len ppos => do
      let r ← simplefsRead P file len ppos
      return errorOf r.1
  | .write file buf len ppos => do
      let r ← simplefsWrite P file buf len ppos
      return errorOf r.1

/-- What a create has made of the volume when it comes to save the parent's inode: a block
is taken, the new inode is in the store unless `simplefs_inode_add` was interrupted, the
record is written and the parent's count has gone up. -/
def Vol.linking (P : Platform) (w : Outside) (v : Vol) (dir : Path) (dentry : Name) (mode : U32) : Vol :=
  let ino := newInode P v mode (w.answer .slab)
  let v₁ := (v.after (takeScript P v)).added ino (addSkips w)
  match v₁.priv dir with
  | some par => (v₁.after (recordScript par.dataBlockNumber.toNat par.dirChildrenCount.toNat
      ino.inodeNo dentry.bytes)).bumpChildren dir
  | none => v₁

/-- What a write has made of it when it comes to save the inode of the file. -/
def Vol.writing (w : Outside) (v : Vol) (p : Path) (ino : SimplefsInode) (buf : Buf) (len ppos : U64) :
    Vol :=
  ((v.copied ino.dataBlockNumber.toNat ppos.toNat buf len.toNat (w.answer .copyFromUser)).after
    (syncScript ino.dataBlockNumber.toNat)).setSize p (ppos + len)

/-- A create that takes a block and gets the mutex for the parent's inode, which cannot be
saved. -/
structure CreateLeaks (P : Platform) (w : Outside) (v : Vol) (dir : Path) (dentry : Name) (mode : U32) :
    Prop where
  allocates : Allocates P w v mode
  createInodes : w.interrupted .createInodes = false
  fails : SaveFails w (v.linking P w dir dentry mode) dir

/-- A write that has a block, all of its bytes and the mutex, and whose inode cannot be
saved. -/
structure WriteLeaks (P : Platform) (w : Outside) (v : Vol) (p : Path) (buf : Buf) (len ppos : U64) :
    Prop where
  block : ∀ ino, v.priv p = some ino → ino.dataBlockNumber.toNat < P.nrBlocks
  copied : len.toNat ≤ w.answer .copyFromUser
  writeInodes : w.interrupted .writeInodes = false
  fails : ∀ ino, v.priv p = some ino → SaveFails w (v.writing w p ino buf len ppos) p

/-- The operation, begun on volume `v` in the world `w`, keeps a reference. -/
def Op.Leaks (P : Platform) (w : Outside) (v : Vol) : Op → Prop
  | .create dir dentry mode => CreateLeaks P w v dir dentry mode
  | .mkdir dir dentry mode => CreateLeaks P w v dir dentry (sIfdir ||| mode)
  | .lookup _ _ => True
  | .iterate _ _ => False
  | .read _ _ _ => False
  | .write file buf len ppos => WriteLeaks P w v file buf len ppos

/-! ## One operation -/

/-- From `refs` to `refs'`, no count goes down, and all are as before unless `leak`. -/
structure Balance (refs : Refs) (leak : Prop) (refs' : Refs) : Prop where
  grows : ∀ b, refs b ≤ refs' b
  same_iff : refs' = refs ↔ ¬ leak

section Balance

variable {refs refs' : Refs} {leak : Prop} {b : Nat}

theorem Refs.le_get (refs : Refs) (b c : Nat) : refs c ≤ Refs.get refs b c := by
  by_cases hc : c = b
  · subst hc
    simp only [Refs.get, Function.update_self]
    omega
  · simp [Refs.get, hc]

theorem Balance.refl (h : ¬ leak) : Balance refs leak refs := by
  refine ⟨fun b => Int.le_refl _, ?_⟩
  exact iff_of_true rfl h

/-- One more reference than there were, at least. -/
theorem Balance.get (hgrows : ∀ c, refs c ≤ refs' c) (h : leak) :
    Balance refs leak (Refs.get refs' b) := by
  constructor
  · intro c
    exact Int.le_trans (hgrows c) (Refs.le_get refs' b c)
  · refine iff_of_false ?_ (not_not.mpr h)
    intro heq
    have hb := congrFun heq b
    have hle := hgrows b
    simp only [Refs.get, Function.update_self] at hb
    omega

theorem Balance.trans {leak' : Prop} {refs'' : Refs} (h : Balance refs leak refs')
    (h' : Balance refs' leak' refs'') : Balance refs (leak ∨ leak') refs'' := by
  have hgrows : ∀ b, refs b ≤ refs'' b := fun b => Int.le_trans (h.grows b) (h'.grows b)
  refine ⟨hgrows, ?_⟩
  rw [not_or, ← h.same_iff, ← h'.same_iff]
  constructor
  · intro heq
    -- the counts in the middle lie between equal ones
    have hmid : refs' = refs := by
      funext b
      have hup := h'.grows b
      rw [heq] at hup
      exact Int.le_antisymm hup (h.grows b)
    exact ⟨hmid, heq.trans hmid.symm⟩
  · rintro ⟨hmid, hend⟩
    exact hend.trans hmid

end Balance

section Operations

variable {P : Platform} {w : Outside} {v : Vol} {refs : Refs}

theorem addRefs_eq (hadd : w.interrupted .addSb = false) (refs : Refs) : addRefs w refs = refs := by
  simp [addRefs, AddKeeps, hadd]

theorem xwp_create_balance (hadd : w.interrupted .addSb = false) (dir : Path) (dentry : Name)
    (mode : U32) :
    xwp w (simplefsCreateFsObject P dir dentry mode)
      (fun _ _ refs' => Balance refs (CreateLeaks P w v dir dentry mode) refs') v refs := by
  apply xwp_simplefsCreateFsObject
  · intro e hearly
    apply Balance.refl
    intro hleak
    cases hleak.allocates.createError_eq.symm.trans hearly
  · intro ino v₁ halloc hino hv₁
    rw [addRefs_eq hadd]
    -- the volume on which the parent's inode is saved
    have hlinking : ∀ par v₂, (v₁.added ino (addSkips w)).priv dir = some par →
        v₂ = (v₁.added ino (addSkips w)).after (recordScript par.dataBlockNumber.toNat
          par.dirChildrenCount.toNat ino.inodeNo dentry.bytes) →
        v.linking P w dir dentry mode = v₂.bumpChildren dir := by
      intro par v₂ hpar hv₂
      subst hino hv₁ hv₂
      simp only [Vol.linking, hpar]
    constructor
    case interrupted =>
      intro par v₂ _ _ _ hintr
      apply Balance.refl
      intro hleak
      cases hintr.symm.trans hleak.createInodes
    case unsaved =>
      intro par v₂ e hpar _ hv₂ hw hfails
      apply Balance.get (fun _ => Int.le_refl _)
      rw [← hlinking par v₂ hpar hv₂] at hfails
      exact ⟨halloc, hw, hfails⟩
    case linked =>
      intro par v₂ v' hpar _ hv₂ _ hsaves _
      rw [← hlinking par v₂ hpar hv₂] at hsaves
      exact Balance.refl fun hleak => hsaves hleak.fails

theorem xwp_write_balance (file : Path) (buf : Buf) (len ppos : U64) :
    xwp w (simplefsWrite P file buf len ppos)
      (fun _ _ refs' => Balance refs (WriteLeaks P w v file buf len ppos) refs') v refs := by
  apply xwp_simplefsWrite
  constructor
  case noBuffer =>
    intro ino hino hout
    apply Balance.refl
    intro hleak
    exact Nat.not_lt.mpr hout (hleak.block ino hino)
  case badAddress =>
    intro ino v₁ _ _ _ hfault
    apply Balance.refl
    intro hleak
    exact Nat.not_lt.mpr hleak.copied hfault
  case interrupted =>
    intro ino v₁ _ _ _ _ hi
    apply Balance.refl
    intro hleak
    cases hi.symm.trans hleak.writeInodes
  case unsaved =>
    rintro ino _ _ e hino hin rfl rfl hcopied hw hfails
    apply Balance.get (fun _ => Int.le_refl _)
    refine ⟨?_, hcopied, hw, ?_⟩
    · intro ino' hino'
      cases hino.symm.trans hino'
      exact hin
    · intro ino' hino'
      cases hino.symm.trans hino'
      exact hfails
  case written =>
    rintro ino _ _ ino' k hino _ rfl rfl _ _ hsaves _ _
    exact Balance.refl fun hleak => hsaves (hleak.fails ino hino)

/-- Each operation leaves the counts as they were, unless it leaks. -/
theorem xwp_op_balance (hadd : w.interrupted .addSb = false) (op : Op) :
    xwp w (op.prog P) (fun _ _ refs' => Balance refs (op.Leaks P w v) refs') v refs := by
  cases op with
  | create dir dentry mode =>
      apply xwp_bind
      apply xwp_mono _ (xwp_create_balance hadd dir dentry mode)
      intro r v' refs' h
      exact xwp_pure h
  | mkdir dir dentry mode =>
      apply xwp_bind
      apply xwp_mono _ (xwp_create_balance hadd dir dentry (sIfdir ||| mode))
      intro r v' refs' h
      exact xwp_pure h
  | lookup parent child =>
      apply xwp_bind
      apply xwp_simplefsLookup
      · intro par _ _
        exact xwp_pure (Balance.get (fun _ => Int.le_refl _) trivial)
      · intro par k ino _ _ _
        exact xwp_pure (Balance.get (fun _ => Int.le_refl _) trivial)
  | iterate dir ctx =>
      apply xwp_bind
      apply xwp_simplefsIterate
      intro r
      exact xwp_pure (Balance.refl id)
  | read file len ppos =>
      apply xwp_bind
      apply xwp_simplefsRead
      intro r
      exact xwp_pure (Balance.refl id)
  | write file buf len ppos =>
      apply xwp_bind
      apply xwp_mono _ (xwp_write_balance file buf len ppos)
      intro r v' refs' h
      exact xwp_pure h

end Operations

/-! ## Runs -/

/-- The operation of a step does not leak. -/
def Releases (P : Platform) (m : Machine) (s : Outside × Op) : Prop := ¬ s.2.Leaks P s.1 m.mem.toVol

theorem runs_balance {P : Platform} {steps : List (Outside × Op)} {m m' : Machine}
    {errs : List (Option Errno)} (hadd : ∀ s ∈ steps, s.1.interrupted .addSb = false)
    (hrun : runs (Op.prog P) 0 steps m = .done errs m') :
    Balance m.mem.refs (¬ EachStep (Op.prog P) 0 (Releases P) steps m) m'.mem.refs := by
  induction steps generalizing m errs with
  | nil =>
      cases hrun
      apply Balance.refl
      simp [EachStep]
  | cons s steps ih =>
      obtain ⟨err, errs', m₁, hop, hrest, -⟩ := runs_cons_done hrun
      have hfirst := xwp_done (xwp_op_balance (hadd s List.mem_cons_self) s.2) hop
      have hall := hfirst.trans (ih (fun s' hs' => hadd s' (List.mem_cons_of_mem _ hs')) hrest)
      -- a run leaks when its first call does or a later one
      rw [eachStep_cons_done hop, Releases]
      rwa [not_and_or, not_not]

/-- Over a run of any operations that all return, the counts are in the end what they were
at the start exactly when no call leaks. -/
theorem references_balance_iff (P : Platform) (steps : List (Outside × Op)) (m m' : Machine)
    (errs : List (Option Errno)) (hadd : ∀ s ∈ steps, s.1.interrupted .addSb = false)
    (hrun : runs (Op.prog P) 0 steps m = .done errs m') :
    m'.mem.refs = m.mem.refs ↔ EachStep (Op.prog P) 0 (Releases P) steps m := by
  rw [(runs_balance hadd hrun).same_iff, not_not]

/-- Some operations on the empty root directory. -/
def rootRun (steps : List (Outside × Op)) : Outcome Mem Mutex Fault (List (Option Errno)) :=
  runs (Op.prog demoPlatform) 0 steps (mount demoPlatform emptyRoot)

/-- A file is created, and a write to it is interrupted in its wait. -/
def createWrite : List (Outside × Op) :=
  [(calm, .create [] nameA sIfreg),
    (⟨fun i => i == .writeInodes, calm.answer⟩, .write [nameA] (fun _ => 7) 3 0)]

/-- Both calls release what they take. -/
theorem create_write_balanced :
    ∃ m', rootRun createWrite = .done [none, some .eintr] m' ∧
      m'.mem.refs = (mount demoPlatform emptyRoot).mem.refs := by
  have hresult : (rootRun createWrite).result? = some [none, some .eintr] := by decide +kernel
  have hrun := Outcome.eq_done hresult
  have hadd : ∀ s ∈ createWrite, s.1.interrupted .addSb = false := by decide
  refine ⟨_, hrun, (references_balance_iff _ _ _ _ _ hadd hrun).mpr ?_⟩
  obtain ⟨err, errs, m₁, hcreate, hrest, -⟩ := runs_cons_done hrun
  obtain ⟨err', errs', m₂, hwrite, -, -⟩ := runs_cons_done hrest
  refine (eachStep_cons_done hcreate).mpr ⟨?_, (eachStep_cons_done hwrite).mpr ⟨?_, trivial⟩⟩
  · -- the root's number is in slot 0
    have hsaves : ¬ SaveFails calm ((mount demoPlatform emptyRoot).mem.toVol.linking demoPlatform calm []
        nameA sIfreg) [] := by decide +kernel
    exact fun hleak => hsaves hleak.fails
  · intro hleak
    cases hleak.writeInodes

/-- A lookup of a name that is not there: the root's block 2 has one reference more. -/
theorem lookup_keeps_reference :
    ∃ m', rootRun [(calm, .lookup [] nameA)] = .done [none] m' ∧
      (mount demoPlatform emptyRoot).mem.refs 2 = 0 ∧ m'.mem.refs 2 = 1 := by
  apply Outcome.exists_done
  decide +kernel

end Lkm.Simplefs
