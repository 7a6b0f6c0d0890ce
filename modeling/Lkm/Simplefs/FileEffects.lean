import Lkm.Simplefs.Files

/-!
# What each call does to the files

`ready_step` says what a call does to the tree. Here each call's effect on the data blocks
is added: which blocks it changes, in memory and on the device (`SameBlocks` for the calls
that change none). No two objects share a block, so a change to one block is a change to
one page or to one directory.
-/

namespace Lkm.Simplefs

open Base

/-! ## Calls that change no block -/

/-- The blocks are the same, in memory and on the device. -/
structure SameBlocks (v v' : Vol) : Prop where
  cache : v'.cache = v.cache
  past : v'.past = v.past

theorem SameBlocks.files {v v' : Vol} (h : SameBlocks v v') : v'.files = v.files :=
  Vol.files_congr h.cache h.past

section Frames

variable {P : Platform} {w : Outside} {v : Vol}

/-- Looking up changes the dentry cache only. -/
theorem vwp_lookup_blocks (dir : Path) (name : Name) :
    vwp (fun _ => True) w AnyFault (Call.prog P (.lookup dir name)) (fun _ v' => SameBlocks v v') v := by
  have hsame : SameBlocks v v := ⟨rfl, rfl⟩
  apply vwp_vfsLookup trivial
  · exact fun _ => hsame
  · exact fun _ _ _ => hsame
  · exact fun _ _ => hsame
  · intro _ _ _ _
    constructor
    case absent => exact fun _ _ _ => hsame
    case found => exact fun _ _ _ _ _ _ => ⟨trivial, rfl, rfl⟩
    all_goals intros; trivial

/-- Mounting again puts the root into the dentry cache of what unmounting left. -/
theorem vwp_remount_blocks :
    vwp (fun _ => True) w AnyFault (Call.prog P .remount)
      (fun _ v' => SameBlocks (v.unmount (w.answer .dropped)) v') v := by
  apply vwp_bind
  apply vwp_ask
  apply vwp_bind
  apply vwp_updateVol trivial
  apply vwp_bind
  apply vwp_simplefsFillSuper trivial
  · exact fun _ => trivial
  · exact fun _ _ => trivial
  · intro r _
    exact ⟨trivial, vwp_pure ⟨rfl, rfl⟩⟩

/-- What is said about the volume a call leaves, if it returns. -/
theorem vwp_at_end {α : Type} {p : Sfs α} {Q : α → Vol → Prop} {m m' : Machine} {a : α}
    (h : vwp (fun _ => True) w AnyFault p Q m.mem.toVol) (hrun : p.run w 0 m = .done a m') :
    Q a m'.mem.toVol := by
  have hend := (vwp_run trivial h).2
  rw [hrun] at hend
  exact hend

end Frames

/-! ## Writing -/

section Write

variable {N : Nat} {v v' : Vol} {p : Path} {k : Nat} {size : U64}

/-- The files after a write: one page is different, and one size. -/
theorem Written.files (h : Written v v' p k size) (ht : TreeShaped N v.cache)
    (hk : v.cache.resolve p = some k) (hfile : sIsdir (v.cache.slot k).mode = false)
    (hpast : ∀ b, 2 ≤ b → b ≠ (v.cache.slot k).dataBlockNumber.toNat → v'.past b = v.past b) :
    v'.files =
      { tree := v.files.tree.resize p size
        page := Function.update v.files.page p (some (v'.cache (v.cache.slot k).dataBlockNumber.toNat))
        kept := Function.update v.files.kept p (some (v'.device (v.cache.slot k).dataBlockNumber.toNat))
        entries := v.files.entries } := by
  have hlt := ht.resolve_lt hk
  have hagrees := h.agrees ht hlt hfile
  have hshaped := h.shaped ht hlt hfile
  have hresolve := hagrees.resolve_eq ht.toWellFormed hshaped.toWellFormed
  -- another object has another block
  have hother : ∀ q x, q ≠ p → v.cache.resolve q = some x → 2 ≤ (v.cache.slot x).dataBlockNumber.toNat ∧
      (v.cache.slot x).dataBlockNumber.toNat ≠ (v.cache.slot k).dataBlockNumber.toNat := by
    intro q x hq hx
    have hxlt := ht.resolve_lt hx
    refine ⟨(ht.block_range x hxlt).1, ?_⟩
    intro heq
    have hxk : x = k := ht.block_inj x k hxlt hlt (BitVec.eq_of_toNat_eq heq)
    subst hxk
    exact hq (ht.resolve_inj hx hk)
  have hfile' : sIsdir (v'.cache.slot k).mode = false := (h.same k).mode ▸ hfile
  have hpage : v'.files.page = Function.update v.files.page p
      (some (v'.cache (v.cache.slot k).dataBlockNumber.toNat)) := by
    funext q
    by_cases hq : q = p
    · subst hq
      rw [Function.update_self, Vol.files_page (hresolve q ▸ hk), Image.pageIn_file hfile',
        (h.same k).block]
    · rw [Function.update_of_ne hq]
      show (v'.cache.resolve q).bind _ = (v.cache.resolve q).bind _
      rw [hresolve]
      cases hx : v.cache.resolve q with
      | none => rfl
      | some x =>
          obtain ⟨hlow, hne⟩ := hother q x hq hx
          exact Image.pageIn_congr (h.same x) fun _ => h.data _ hlow hne
  have hkept : v'.files.kept = Function.update v.files.kept p
      (some (v'.device (v.cache.slot k).dataBlockNumber.toNat)) := by
    funext q
    by_cases hq : q = p
    · subst hq
      rw [Function.update_self, Vol.files_kept (hresolve q ▸ hk), Image.pageIn_file hfile',
        (h.same k).block]
    · rw [Function.update_of_ne hq]
      show (v'.cache.resolve q).bind _ = (v.cache.resolve q).bind _
      rw [hresolve]
      cases hx : v.cache.resolve q with
      | none => rfl
      | some x =>
          obtain ⟨hlow, hne⟩ := hother q x hq hx
          apply Image.pageIn_congr (h.same x)
          intro _
          unfold Vol.device
          rw [h.data _ hlow hne, hpast _ hlow hne]
  have hentries : v'.files.entries = v.files.entries := by
    funext q
    show ((v'.cache.resolve q).map _).getD [] = ((v.cache.resolve q).map _).getD []
    rw [hresolve]
    cases hx : v.cache.resolve q with
    | none => rfl
    | some x =>
        have hxlt := ht.resolve_lt hx
        apply Image.entriesAt_congr (h.same x).mode
        · exact hagrees.children x hxlt
        · intro r hdir hr
          exact hagrees.record ⟨hxlt, hdir, hr⟩
  have htree : v'.files.tree = v.files.tree.resize p size := h.tree ht hk hfile
  rw [← hpage, ← hkept, ← hentries, ← htree]

variable {buf : Buf} {off n copied : Nat}

/-- A write syncs its block and the inode store, and no other block. -/
theorem Vol.saved_past_ne {b : Nat} (hstore : b ≠ 1)
    (hne : b ≠ (v.cache.slot k).dataBlockNumber.toNat) :
    (v.saved p k off buf n copied size).past b = v.past b := by
  show (Vol.after (Vol.putSlot _ k _) (syncScript 1)).past b = v.past b
  rw [Vol.past_sync, Function.update_of_ne hstore]
  simp only [Vol.putSlot, Vol.modify, Function.update_of_ne hstore, Vol.setSize, Vol.setPrivate_past]
  rw [Vol.past_sync, Function.update_of_ne hne, Vol.copied_past_ne hne]

theorem Vol.saved_past_self (hlow : 2 ≤ (v.cache.slot k).dataBlockNumber.toNat) :
    (v.saved p k off buf n copied size).past (v.cache.slot k).dataBlockNumber.toNat = [] := by
  have hstore : (v.cache.slot k).dataBlockNumber.toNat ≠ 1 := by omega
  show (Vol.after (Vol.putSlot _ k _) (syncScript 1)).past _ = []
  rw [Vol.past_sync, Function.update_of_ne hstore]
  simp only [Vol.putSlot, Vol.modify, Function.update_of_ne hstore, Vol.setSize, Vol.setPrivate_past]
  rw [Vol.past_sync, Function.update_self]

theorem Vol.saved_block (hlow : 2 ≤ (v.cache.slot k).dataBlockNumber.toNat) :
    (v.saved p k off buf n copied size).cache (v.cache.slot k).dataBlockNumber.toNat =
      put (v.cache (v.cache.slot k).dataBlockNumber.toNat) off (copiedBytes buf n copied) := by
  rw [Vol.saved_cache, Vol.putSlot_cache_ne _ (by omega), Vol.copied_cache_self]

/-- What is not synced does not reach the device. -/
theorem Vol.copied_device (b : Nat) : (v.copied b off buf n copied).device b = v.device b := by
  unfold Vol.copied
  split
  · rfl
  · unfold Vol.device
    simp only [Vol.modify, Function.update_self]
    cases v.past b <;> rfl

section

variable (ht : TreeShaped N v.cache) (hk : v.cache.resolve p = some k)
  (hfile : sIsdir (v.cache.slot k).mode = false)

include ht hk hfile

theorem files_saved (off : Nat) (buf : Buf) (n copied : Nat) (size : U64) :
    (v.saved p k off buf n copied size).files =
      v.files.overwrite p (put (v.cache (v.cache.slot k).dataBlockNumber.toNat) off
        (copiedBytes buf n copied)) size := by
  have hlow := (ht.block_range k (ht.resolve_lt hk)).1
  rw [(written_saved hlow off n copied size).files ht hk hfile
    (fun b hb hne => Vol.saved_past_ne (by omega) hne), Vol.saved_block hlow,
    Vol.device_of_past (Vol.saved_past_self hlow), Vol.saved_block hlow]
  rfl

theorem files_copied (hp : v.priv p = some (v.cache.slot k)) (off : Nat) (buf : Buf) (n copied : Nat) :
    (v.copied (v.cache.slot k).dataBlockNumber.toNat off buf n copied).files =
      v.files.spoil p (put (v.cache (v.cache.slot k).dataBlockNumber.toNat) off
        (copiedBytes buf n copied)) := by
  have hlow := (ht.block_range k (ht.resolve_lt hk)).1
  have hself : v.files.tree.resize p (v.cache.slot k).fileSize = v.files.tree :=
    Tree.resize_self (TreeShaped.node_iff.mpr ⟨k, hk, rfl⟩)
  have hkept : Function.update v.files.kept p
      (some (v.device (v.cache.slot k).dataBlockNumber.toNat)) = v.files.kept := by
    have hp := Vol.files_kept hk
    rw [Image.pageIn_file hfile] at hp
    rw [← hp, Function.update_eq_self]
  rw [(written_copied hlow hp off n copied).files ht hk hfile
    (fun b _ hne => Vol.copied_past_ne hne), Vol.copied_cache_self, Vol.copied_device, hself, hkept]
  rfl

end

end Write

/-! ## Creating -/

/-- A create syncs the block of the parent, and no other data block. -/
theorem Vol.created_past_ne {P : Platform} {v : Vol} {dir : Path} {name : Name}
    {ino par : SimplefsInode} {j b : Nat} (hb : 2 ≤ b) (hne : b ≠ par.dataBlockNumber.toNat) :
    (v.created P dir name ino par j).past b = v.past b := by
  have h0 : b ≠ 0 := by omega
  have h1 : b ≠ 1 := by omega
  simp only [Vol.created, createScript, takeScript, addScript, recordScript, saveScript,
    Vol.after_append, Vol.after_cons, Vol.after_nil, Vol.past_sync, Vol.dAdd_past, Vol.setFree,
    Vol.putSlot, Vol.setCount, Vol.modify, Vol.markBufferDirty_past, Vol.bumpChildren,
    Vol.setPrivate_past, Function.update_of_ne h0, Function.update_of_ne h1, Function.update_of_ne hne]

namespace Creating

variable {P : Platform} {N : Nat} {v : Vol} {dir : Path} {name : Name} {ino par : SimplefsInode}
  {j : Nat}

/-- Another object is where it was. -/
theorem resolve_old (h : Creating P N v dir name ino par j) (ht : TreeShaped N v.cache)
    (hdir : v.cache.resolve dir = some j) (habsent : v.cache.resolve (name :: dir) = none) {q : Path}
    (hq : q ≠ name :: dir) : (v.created P dir name ino par j).cache.resolve q = v.cache.resolve q := by
  apply Option.ext
  intro x
  rw [h.resolve_created ht hdir habsent]
  simp [hq]

theorem resolve_new (h : Creating P N v dir name ino par j) (ht : TreeShaped N v.cache)
    (hdir : v.cache.resolve dir = some j) (habsent : v.cache.resolve (name :: dir) = none) :
    (v.created P dir name ino par j).cache.resolve (name :: dir) = some v.cache.count.toNat :=
  (h.resolve_created ht hdir habsent _ _).mpr (.inl ⟨rfl, rfl⟩)

/-- The block of a file is not the one of the parent. -/
theorem file_block (h : Creating P N v dir name ino par j) {x : Nat} (hx : x < v.cache.count.toNat)
    (hfile : sIsdir (v.cache.slot x).mode = false) :
    2 ≤ (v.cache.slot x).dataBlockNumber.toNat ∧
      (v.cache.slot x).dataBlockNumber.toNat ≠ par.dataBlockNumber.toNat := by
  refine ⟨h.coherent.tables.block_ge x hx, h.block_ne hx ?_⟩
  rintro rfl
  rw [h.slot, h.isdir] at hfile
  cases hfile

/-- The pages of `src` after the create, if `src` has the data blocks that were there. -/
theorem page_created (h : Creating P N v dir name ino par j) (ht : TreeShaped N v.cache)
    (hdir : v.cache.resolve dir = some j) (habsent : v.cache.resolve (name :: dir) = none)
    (src src' : Image) (b : Buf)
    (hsrc : ∀ b, 2 ≤ b → b ≠ par.dataBlockNumber.toNat → src' b = src b)
    (hnew : src' (v.freeIndex P) = b) :
    (fun q => ((v.created P dir name ino par j).cache.resolve q).bind
      ((v.created P dir name ino par j).cache.pageIn src')) =
      Function.update (fun q => (v.cache.resolve q).bind (v.cache.pageIn src)) (name :: dir)
        (if sIsdir ino.mode then none else some b) := by
  funext q
  by_cases hq : q = name :: dir
  · subst hq
    rw [Function.update_self, h.resolve_new ht hdir habsent]
    show Image.pageIn _ src' _ = _
    unfold Image.pageIn
    rw [h.slot_new, h.block, hnew]
  · rw [Function.update_of_ne hq, h.resolve_old ht hdir habsent hq]
    cases hx : v.cache.resolve q with
    | none => rfl
    | some x =>
        have hlt := ht.resolve_lt hx
        apply Image.pageIn_congr (h.same hlt)
        intro hfile
        obtain ⟨hlow, hne⟩ := h.file_block hlt hfile
        exact hsrc _ hlow hne

/-- The records that counted hold what they did. -/
theorem record_old (h : Creating P N v dir name ino par j) (ht : TreeShaped N v.cache) {a r : Nat}
    (hl : v.cache.Lists a r) :
    SameRecord r (v.cache.data a) ((v.created P dir name ino par j).cache.data a) := by
  have hlt : a < (namedVol P v name ino par).cache.count.toNat := by
    rw [h.appends_named.count_eq]
    exact Nat.lt_succ_of_lt hl.lt
  rw [h.bumps.data_eq (h.shaped_named ht).toWellFormed hlt]
  exact h.appends_named.record hl

/-- The record behind them holds the name and the number of the new object. -/
theorem record_new (h : Creating P N v dir name ino par j) :
    recordEntry ((v.created P dir name ino par j).cache.data j) par.dirChildrenCount.toNat =
      (name.bytes, ino.inodeNo) := by
  have hblock : (v.created P dir name ino par j).cache.data j =
      strcpyFilename (setRecordInodeNo (v.cache par.dataBlockNumber.toNat)
        par.dirChildrenCount.toNat ino.inodeNo) par.dirChildrenCount.toNat name.bytes := by
    unfold Image.data
    rw [Vol.created_slot_parent]
    exact Vol.created_block h.block_ge
  have hname := (filenameMatches_iff name.noNul (recordTerminated_strcpyFilename
    (setRecordInodeNo (v.cache par.dataBlockNumber.toNat) par.dirChildrenCount.toNat ino.inodeNo)
    par.dirChildrenCount.toNat h.short)).mp (filenameMatches_strcpyFilename _ _ _)
  unfold recordEntry
  rw [hblock, hname, recordInodeNo_strcpyFilename h.short, recordInodeNo_setRecordInodeNo_self]

theorem entries_created (h : Creating P N v dir name ino par j) (ht : TreeShaped N v.cache)
    (hdir : v.cache.resolve dir = some j) (habsent : v.cache.resolve (name :: dir) = none) (q : Path) :
    (v.created P dir name ino par j).files.entries q =
      if q = name :: dir then []
      else if q = dir then v.files.entries q ++ [(name.bytes, ino.inodeNo)]
      else v.files.entries q := by
  by_cases hnew : q = name :: dir
  · rw [if_pos hnew, hnew, Vol.files_entries (h.resolve_new ht hdir habsent)]
    unfold Image.entriesAt
    rw [h.slot_new, h.empty]
    simp
  rw [if_neg hnew]
  have hresolve := h.resolve_old ht hdir habsent hnew
  by_cases hq : q = dir
  · subst hq
    have hisdir : sIsdir (v.cache.slot j).mode = true := h.slot ▸ h.isdir
    have hisdir' : sIsdir ((v.created P q name ino par j).cache.slot j).mode = true :=
      (h.same h.lt).mode ▸ hisdir
    have hlen : ((v.created P q name ino par j).cache.slot j).dirChildrenCount.toNat =
        (v.cache.slot j).dirChildrenCount.toNat + 1 := by
      rw [Vol.created_slot_parent, h.bump_children, h.slot]
    have hlast : (v.cache.slot j).dirChildrenCount.toNat = par.dirChildrenCount.toNat := by rw [h.slot]
    rw [if_pos rfl, Vol.files_entries (hresolve.trans hdir), Vol.files_entries hdir,
      Image.entriesAt_dir hisdir, Image.entriesAt_dir hisdir', hlen, List.range_succ, List.map_append,
      List.map_singleton, hlast, h.record_new]
    congr 1
    apply List.map_congr_left
    intro r hr
    have hl : v.cache.Lists j r := ⟨h.lt, hisdir, hlast ▸ List.mem_range.mp hr⟩
    have hsame := h.record_old ht hl
    unfold recordEntry
    rw [hsame.name, hsame.inodeNo]
  · rw [if_neg hq]
    show ((Image.resolve _ q).map _).getD [] = ((v.cache.resolve q).map _).getD []
    rw [hresolve]
    cases hx : v.cache.resolve q with
    | none => rfl
    | some x =>
        have hlt := ht.resolve_lt hx
        have hne : x ≠ j := by
          rintro rfl
          exact hq (ht.resolve_inj hx hdir)
        apply Image.entriesAt_congr (h.same hlt).mode
        · intro _
          rw [h.slot_old hlt hne]
        · intro r hisdir hr
          exact h.record_old ht ⟨hlt, hisdir, hr⟩

/-- The files after a create. -/
theorem files_created (h : Creating P N v dir name ino par j) (hr : Ready N v)
    (hdir : v.cache.resolve dir = some j) (habsent : v.cache.resolve (name :: dir) = none) :
    (v.created P dir name ino par j).files =
      v.files.extend (v.created P dir name ino par j).cache.tree dir name
        (if sIsdir ino.mode then none else some (v.cache (v.freeIndex P))) := by
  have ht := hr.shaped
  have hfree := ht.tables.freeIndex h.hi_le h.found
  have hge := Vol.freeIndex_ge P v
  -- the block that is taken belongs to nobody
  have hpar : v.freeIndex P ≠ par.dataBlockNumber.toNat := by
    intro heq
    apply hfree.2 j h.lt
    rw [h.slot, heq]
  have hclean : v.past (v.freeIndex P) = [] := by
    by_contra hne
    obtain ⟨k, hk, -, hblk⟩ := hr.synced _ hne
    exact hfree.2 k hk hblk
  have hpage := h.page_created ht hdir habsent v.cache (v.created P dir name ino par j).cache _
    (fun b hb hne => Vol.created_cache_ne hb hne) (Vol.created_cache_ne hge hpar)
  have hkept := h.page_created ht hdir habsent v.device (v.created P dir name ino par j).device
    (v.cache (v.freeIndex P))
    (fun b hb hne => by
      unfold Vol.device
      rw [Vol.created_cache_ne hb hne, Vol.created_past_ne hb hne])
    (by
      rw [Vol.device_of_past ((Vol.created_past_ne hge hpar).trans hclean),
        Vol.created_cache_ne hge hpar])
  have hentries := funext (h.entries_created ht hdir habsent)
  have hnumber : BitVec.ofNat 64 (v.files.tree.objects + 8) = ino.inodeNo := by
    apply BitVec.eq_of_toNat_eq
    have hroom := h.room
    rw [h.number, BitVec.toNat_ofNat]
    show (v.cache.count.toNat + 8) % _ = _
    omega
  unfold Files.extend
  rw [hnumber]
  show Files.mk _ _ _ (v.created P dir name ino par j).files.entries = _
  rw [hpage, hkept, hentries]
  rfl

end Creating
section Create

variable {P : Platform} {N : Nat} {v : Vol} {w : Outside} {dir : Path} {name : Name} {mode : U32}

/-- A create that fails leaves the volume as it was, one that succeeds adds the name. -/
def CreateLeaves (P : Platform) (N : Nat) (v : Vol) (dir : Path) (name : Name) (ino : SimplefsInode)
    (a : Nat) (v' : Vol) : Except Errno Unit → Prop
  | .error _ => v' = v
  | .ok () => Creating P N v dir name ino (v.cache.slot a) a ∧
      v' = v.created P dir name ino (v.cache.slot a) a

/-- How a create ends, down to the volume. -/
theorem Ready.create_ends (h : Ready N v) (hN : N ≤ 31) (hw : w.Uninterrupted)
    {a : Nat} (ha : v.cache.resolve dir = some a) (hpriv : v.priv dir = some (v.cache.slot a))
    (hdir : sIsdir (v.cache.slot a).mode = true)
    (hroom : (v.cache.slot a).dirChildrenCount.toNat < 16)
    (hname : name.bytes.length < simplefsFilenameMaxlen) (hdentry : v.dcache (name :: dir) = none) :
    CreateOk P (fun _ => True) w AnyFault dir name mode (fun r v' => ∀ ino,
      ino = newInode P v mode (w.answer .slab) → CreateLeaves P N v dir name ino a v' r) v := by
  have hlt := h.shaped.resolve_lt ha
  have hpar : ∀ par, v.priv dir = some par → par = v.cache.slot a :=
    fun par hp => Option.some.inj (hp.symm.trans hpriv)
  apply CreateOk.of_quiet hw
  · exact fun _ => trivial
  · exact fun _ => trivial
  · exact fun _ _ _ => trivial
  · intro par hp
    rw [hpar par hp]
    exact hroom
  · exact fun _ _ _ => rfl
  · exact fun _ _ _ _ _ => rfl
  · exact fun _ _ _ _ => rfl
  · exact fun _ _ _ _ => rfl
  · exact fun _ _ _ _ => trivial
  · intro par hp hcount hkind hfound
    obtain rfl := hpar par hp
    refine ⟨(h.shaped.block_range a hlt).1, a, ⟨hlt, rfl, ?_⟩, fun _ _ => trivial, ?_⟩
    · intro i hi heq
      have := h.shaped.number_inj i a (by omega) hlt heq
      omega
    · rintro _ rfl
      exact ⟨⟨h.coherent, hN, hcount, hfound, ⟨mode, _, rfl⟩, hlt, rfl, hpriv, hdir, hroom, hname,
        hdentry⟩, rfl⟩

end Create

/-! ## Mounting again -/

theorem Ready.remounts {N : Nat} {v : Vol} (h : Ready N v) (dropped : Nat → Bool) :
    v.files.Remounts (v.unmount dropped).files := by
  have hagrees := h.unmount_agrees dropped
  have hresolve := hagrees.resolve_eq h.shaped.toWellFormed (h.unmount_shaped dropped).toWellFormed
  constructor
  case tree => exact h.unmount_tree dropped
  case entries =>
    funext p
    show ((Image.resolve _ p).map _).getD [] = ((v.cache.resolve p).map _).getD []
    rw [hresolve]
    cases hx : v.cache.resolve p with
    | none => rfl
    | some x =>
        have hlt := h.shaped.resolve_lt hx
        apply Image.entriesAt_congr
        · rw [h.unmount_slot]
        · intro _
          rw [h.unmount_slot]
        · intro r hdir hr
          exact hagrees.record ⟨hlt, hdir, hr⟩
  case page =>
    intro p
    show (Image.resolve _ p).bind _ = (v.cache.resolve p).bind _ ∨
      (Image.resolve _ p).bind _ = (v.cache.resolve p).bind _
    rw [hresolve]
    cases hx : v.cache.resolve p with
    | none => exact .inl rfl
    | some x =>
        have hsame : ((v.unmount dropped).cache.slot x).Same (v.cache.slot x) := by
          rw [h.unmount_slot]
          exact .refl _
        -- a clean buffer that is dropped comes back as the device has it
        by_cases hdropped : (dropped (v.cache.slot x).dataBlockNumber.toNat &&
            !v.dirty (v.cache.slot x).dataBlockNumber.toNat) = true
        · right
          exact Image.pageIn_congr hsame fun _ => if_pos hdropped
        · left
          exact Image.pageIn_congr hsame fun _ => if_neg hdropped
  case kept => rfl

/-! ## Reading and listing -/

section Reads

variable {P : Platform} {w : Outside} {m : Machine} {p : Path} {ino : SimplefsInode}

/-- A read at or behind the end asks for no buffer. -/
theorem run_simplefsRead_end {len ppos : U64} (hino : m.mem.priv p = some ino)
    (hend : ino.fileSize ≤ ppos) : (simplefsRead P p len ppos).run w 0 m = .done (.ok [], ppos) m := by
  unfold simplefsRead
  rw [Prog.run_bind, run_simplefsInode hino, Outcome.bind_done, if_pos hend]
  rfl

/-- A read into memory that cannot be written. -/
theorem run_simplefsRead_fault {len ppos : U64} (hino : m.mem.priv p = some ino)
    (hblk : ino.dataBlockNumber.toNat < P.nrBlocks) (hsize : ino.fileSize.toNat ≤ 4096)
    (hbefore : ¬ino.fileSize ≤ ppos) (hw : w.answer .copyToUser = false) :
    (simplefsRead P p len ppos).run w 0 m = .done (.error .efault, ppos) m := by
  have hmin : (if ino.fileSize ≤ len then ino.fileSize else len).toNat ≤ 4096 := by
    split
    · exact hsize
    · rename_i hgt
      rw [BitVec.le_def] at hgt
      omega
  unfold simplefsRead
  rw [Prog.run_bind, run_simplefsInode hino, Outcome.bind_done, if_neg hbefore, Prog.run_bind,
    run_sbBread hblk, Outcome.bind_done, if_neg (by decide)]
  dsimp only
  have hmsb : (if ino.fileSize ≤ len then ino.fileSize else len).msb = false := by
    rw [BitVec.msb_eq_decide, decide_eq_false_iff_not]
    omega
  rw [asInt_eq (by omega), hmsb, if_neg (by decide), Prog.run_bind,
    run_inBlock (by unfold simplefsDefaultBlockSize; omega)]
  show Prog.run w 0 (if (!w.answer .copyToUser) = true then _ else _) _ = _
  rw [hw, if_pos (by decide)]
  exact congrArg (Outcome.done _) (upd_brelse_getBh m _)

/-- The VFS lets a call on a directory through. -/
theorem run_vfsDirectory {d : Inode} {k : Sfs Res} (hd : m.mem.dcache p = some d)
    (hdir : sIsdir d.iMode = true) : (vfsDirectory p k).run w 0 m = k.run w 0 m := by
  unfold vfsDirectory
  rw [Prog.run_bind, run_readMem, Outcome.bind_done, hd]
  show Prog.run w 0 (if sIsdir d.iMode = true then k else _) m = _
  rw [if_pos hdir]

end Reads

end Lkm.Simplefs
