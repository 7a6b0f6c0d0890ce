import Lkm.Simplefs.FileContents
import Lkm.Simplefs.Listing

/-!
# What a user can read

`Files` is the tree with what hangs on it: behind each file a page of bytes, of which the
size says how many count, and in each directory the names and numbers of its objects, in
the order in which they were made. A page is there twice, as it is in memory and as the
device has it. `Files.Next` says what the calls of the VFS do to it, all seven of them, in
terms of the files alone:

* a create adds one entry to one directory, and a page with whatever the block had;
* a write replaces a range of one page, in memory and on the device;
* a write that finds the user's memory too short spoils the page in memory only;
* unmounting may go back to what the device has, page by page;
* looking up, listing and reading change nothing.

`Files.Next.settled` is why a user may rely on it: what does not write to a file, leaves
its bytes alone. `Vol.files` reads them off a volume.
-/

namespace Lkm.Simplefs

open Base

/-! ## The files and the operations on them -/

structure Files where
  tree : Tree
  page : Path → Option Buf
  kept : Path → Option Buf
  entries : Path → List (List Byte × U64)

namespace Files

/-- The bytes of a file. -/
def bytes (s : Files) (p : Path) : List Byte :=
  ((s.page p).bind fun b => (s.tree.node p).map fun n => slice b 0 n.extent.toNat).getD []

/-- An object has been made: the tree is `t`, and behind the object is the page `fresh`. -/
def extend (s : Files) (t : Tree) (dir : Path) (name : Name) (fresh : Option Buf) : Files where
  tree := t
  page := Function.update s.page (name :: dir) fresh
  kept := Function.update s.kept (name :: dir) fresh
  entries := fun p =>
    if p = name :: dir then []
    else if p = dir then s.entries p ++ [(name.bytes, BitVec.ofNat 64 (s.tree.objects + 8))]
    else s.entries p

/-- The page `b` is behind the file, which has the size `size` now. -/
def overwrite (s : Files) (file : Path) (b : Buf) (size : U64) : Files :=
  { s with
    tree := s.tree.resize file size
    page := Function.update s.page file (some b)
    kept := Function.update s.kept file (some b) }

/-- The page in memory is `b`. -/
def spoil (s : Files) (file : Path) (b : Buf) : Files :=
  { s with page := Function.update s.page file (some b) }

/-- Unmounted and mounted again. -/
structure Remounts (s s' : Files) : Prop where
  tree : s'.tree = s.tree
  entries : s'.entries = s.entries
  page : ∀ p, s'.page p = s.page p ∨ s'.page p = s.kept p
  kept : s'.kept = s'.page

/-- There is a directory at `dir`. -/
def IsDirectory (s : Files) (dir : Path) : Prop := ∃ d, s.tree.node dir = some d ∧ sIsdir d.mode = true

/-- A listing of a directory with `entries`, into a buffer with room: the names go out with
what follows them in their fields. -/
structure Lists (entries : List (List Byte × U64)) (ctx ctx' : DirContext) : Prop where
  emitted : ∃ new, ctx'.emitted = ctx.emitted ++ new ∧ new.map cutName = entries.take ctx.room
  room : ctx'.room = ctx.room - entries.length
  pos : ctx'.pos = BitVec.ofNat 64 (sizeofDirRecord * entries.length)

end Files

/-- What a call makes, if it is one that makes something: parent, name and mode. -/
def Call.makes : Call → Option (Path × Name × U32)
  | .create dir name mode => some (dir, name, mode)
  | .mkdir dir name mode => some (dir, name, sIfdir ||| mode)
  | _ => none

namespace Files

/-- `s.Next step r s'`: the call of the step answers `r` and makes `s'` of the files `s`. -/
inductive Next (s : Files) : Step → Res → Files → Prop
  | refused {w : Outside} {c : Call} {dir : Path} {name : Name} {mode : U32} {e : Errno} :
      c.makes = some (dir, name, mode) →
      s.tree.create dir name mode (w.answer .newInode) = (.error e, s.tree) →
      s.Next (w, c) (.status (.error e)) s
  | create {w : Outside} {c : Call} {dir : Path} {name : Name} {mode : U32} {t : Tree}
      {fresh : Option Buf} :
      c.makes = some (dir, name, mode) →
      s.tree.node (name :: dir) = none → s.IsDirectory dir →
      s.tree.create dir name mode (w.answer .newInode) = (.ok (), t) →
      fresh.isNone = sIsdir mode →
      s.Next (w, c) (.status (.ok ())) (s.extend t dir name fresh)
  | lookup {w : Outside} {dir : Path} {name : Name} {i : Option Inode} :
      Finds i (s.tree.node (name :: dir)) → s.Next (w, .lookup dir name) (.found i) s
  | list {w : Outside} {dir : Path} {ctx ctx' : DirContext} :
      ctx.pos = 0 → Lists (s.entries dir) ctx ctx' →
      s.Next (w, .iterate dir ctx) (.listed (.ok ctx')) s
  -- each directory is listed once
  | listed {w : Outside} {dir : Path} {ctx : DirContext} :
      ctx.pos ≠ 0 → s.Next (w, .iterate dir ctx) (.listed (.ok ctx)) s
  | read {w : Outside} {file : Path} {len pos : U64} {bytes : List Byte} :
      bytes = headRead (s.bytes file) pos.toNat len.toNat →
      w.answer .copyToUser = true ∨ (s.bytes file).length ≤ pos.toNat →
      s.Next (w, .read file len pos) (.bytes (.ok bytes) (pos + BitVec.ofNat 64 bytes.length)) s
  | readFault {w : Outside} {file : Path} {len pos : U64} :
      w.answer .copyToUser = false → pos.toNat < (s.bytes file).length →
      s.Next (w, .read file len pos) (.bytes (.error .efault) pos) s
  | write {w : Outside} {file : Path} {buf b : Buf} {len pos : U64} :
      len.toNat ≤ w.answer .copyFromUser → s.page file = some b →
      s.Next (w, .write file buf len pos) (.count (.ok len) (pos + len))
        (s.overwrite file (put b pos.toNat (slice buf 0 len.toNat)) (pos + len))
  | writeFault {w : Outside} {file : Path} {buf b : Buf} {len pos : U64} :
      w.answer .copyFromUser < len.toNat → s.page file = some b →
      s.Next (w, .write file buf len pos) (.count (.error .efault) pos)
        (s.spoil file (put b pos.toNat (copiedBytes buf len.toNat (w.answer .copyFromUser))))
  | remount {w : Outside} {s' : Files} : s.Remounts s' → s.Next (w, .remount) .mounted s'

/-! ## What the steps leave alone -/

/-- There is a file at `p`, and the device has what is in memory of it. -/
structure Settled (s : Files) (p : Path) (b : Buf) (n : Node) : Prop where
  node : s.tree.node p = some n
  file : sIsdir n.mode = false
  page : s.page p = some b
  kept : s.kept p = some b

/-- The call writes to `file`. -/
def writesTo (file : Path) : Call → Bool
  | .write p _ _ _ => decide (p = file)
  | _ => false

theorem Settled.bytes_eq {s : Files} {p : Path} {b : Buf} {n : Node} (h : s.Settled p b n) :
    s.bytes p = slice b 0 n.extent.toNat := by
  unfold bytes
  rw [h.page, h.node]
  rfl

/-- A create that goes through hangs one empty object into the tree. -/
theorem node_of_create {t t' : Tree} {dir : Path} {name : Name} {mode : U32} {memory : Bool}
    (h : t.create dir name mode memory = (.ok (), t')) :
    ∃ n : Node, n.extent = 0 ∧ t'.node = t.hang dir name n := by
  unfold Tree.create at h
  split at h
  · cases h
  split at h
  · cases h
  split at h
  · cases h
  split at h
  · cases h
  · obtain ⟨-, rfl⟩ := Prod.mk.inj h
    exact ⟨_, rfl, rfl⟩

/-- A create that goes through leaves a file alone, wherever the file is. -/
theorem Settled.extend {s : Files} {p : Path} {b : Buf} {n : Node} (h : s.Settled p b n)
    {t : Tree} {dir : Path} {name : Name} {mode : U32} {memory : Bool} {fresh : Option Buf}
    (hcreate : s.tree.create dir name mode memory = (.ok (), t))
    (hnew : s.tree.node (name :: dir) = none) (hdir : s.IsDirectory dir) :
    (s.extend t dir name fresh).Settled p b n := by
  have hne : p ≠ name :: dir := by
    rintro rfl
    cases hnew.symm.trans h.node
  have hpar : p ≠ dir := by
    rintro rfl
    obtain ⟨d, hd, hisdir⟩ := hdir
    cases h.node.symm.trans hd
    cases h.file.symm.trans hisdir
  have htree : t.node p = s.tree.node p := by
    obtain ⟨_, -, hnode⟩ := node_of_create hcreate
    rw [hnode, Tree.hang, if_neg hne, if_neg hpar]
  constructor
  · show t.node p = some n
    rw [htree, h.node]
  · exact h.file
  · show Function.update s.page (name :: dir) fresh p = some b
    rw [Function.update_of_ne hne, h.page]
  · show Function.update s.kept (name :: dir) fresh p = some b
    rw [Function.update_of_ne hne, h.kept]

theorem Settled.overwrite_ne {s : Files} {p file : Path} {b : Buf} {n : Node} (h : s.Settled p b n)
    (hne : p ≠ file) (b' : Buf) (size : U64) : (s.overwrite file b' size).Settled p b n := by
  constructor
  · show (if p = file then _ else s.tree.node p) = some n
    rw [if_neg hne, h.node]
  · exact h.file
  · show Function.update s.page file (some b') p = some b
    rw [Function.update_of_ne hne, h.page]
  · show Function.update s.kept file (some b') p = some b
    rw [Function.update_of_ne hne, h.kept]

theorem Settled.spoil_ne {s : Files} {p file : Path} {b : Buf} {n : Node} (h : s.Settled p b n)
    (hne : p ≠ file) (b' : Buf) : (s.spoil file b').Settled p b n := by
  refine ⟨h.node, h.file, ?_, h.kept⟩
  show Function.update s.page file (some b') p = some b
  rw [Function.update_of_ne hne, h.page]

theorem Settled.remount {s s' : Files} {p : Path} {b : Buf} {n : Node} (h : s.Settled p b n)
    (hr : s.Remounts s') : s'.Settled p b n := by
  have hpage : s'.page p = some b := by
    rcases hr.page p with hp | hp
    · rw [hp, h.page]
    · rw [hp, h.kept]
  refine ⟨?_, h.file, hpage, ?_⟩
  · rw [hr.tree, h.node]
  · rw [hr.kept, hpage]

/-- After a write the device has what is in memory. -/
theorem settled_overwrite {s : Files} {p : Path} {n : Node} (hnode : s.tree.node p = some n)
    (hfile : sIsdir n.mode = false) (b : Buf) (size : U64) :
    (s.overwrite p b size).Settled p b { n with extent := size } := by
  constructor
  · show (if p = p then _ else s.tree.node p) = _
    rw [if_pos rfl, hnode]
    rfl
  · exact hfile
  · exact Function.update_self ..
  · exact Function.update_self ..

/-- One call that does not write to the file. -/
theorem Next.settled {s s' : Files} {step : Step} {r : Res} (h : s.Next step r s') {p : Path}
    {b : Buf} {n : Node} (hs : s.Settled p b n) (hwrites : writesTo p step.2 = false) :
    s'.Settled p b n := by
  cases h with
  | refused => exact hs
  | create _ hnew hdir hcreate _ => exact hs.extend hcreate hnew hdir
  | lookup => exact hs
  | list => exact hs
  | listed => exact hs
  | read => exact hs
  | readFault => exact hs
  | write =>
      have hne := of_decide_eq_false hwrites
      exact hs.overwrite_ne (Ne.symm hne) _ _
  | writeFault =>
      have hne := of_decide_eq_false hwrites
      exact hs.spoil_ne (Ne.symm hne) _
  | remount hr => exact hs.remount hr

/-- No file is larger than its page. -/
def Sized (s : Files) : Prop :=
  ∀ p n, s.tree.node p = some n → sIsdir n.mode = false → n.extent.toNat ≤ 4096

/-- Only a write makes a file larger. -/
theorem Next.sized {s s' : Files} {step : Step} {r : Res} (h : s.Next step r s') (hs : s.Sized)
    (hfits : ∀ file buf len pos, step.2 = .write file buf len pos → (pos + len).toNat ≤ 4096) :
    s'.Sized := by
  cases h with
  | refused => exact hs
  | @create w c dir name mode t fresh _ _ hdir hcreate _ =>
      obtain ⟨new, hempty, hnode⟩ := node_of_create hcreate
      obtain ⟨d, hd, hisdir⟩ := hdir
      intro p n hn hfile
      have hn : s.tree.hang dir name new p = some n := hnode ▸ hn
      unfold Tree.hang at hn
      by_cases hnew : p = name :: dir
      · rw [if_pos hnew] at hn
        cases hn
        rw [hempty]
        decide
      rw [if_neg hnew] at hn
      by_cases hpar : p = dir
      · rw [if_pos hpar, hpar, hd] at hn
        cases hn
        cases hfile.symm.trans hisdir
      · rw [if_neg hpar] at hn
        exact hs p n hn hfile
  | lookup => exact hs
  | list => exact hs
  | listed => exact hs
  | read => exact hs
  | readFault => exact hs
  | @write w file buf b len pos _ _ =>
      intro p n hn hfile
      have hn : (if p = file then _ else s.tree.node p) = some n := hn
      by_cases hp : p = file
      · rw [if_pos hp] at hn
        obtain ⟨n₀, -, rfl⟩ := Option.map_eq_some_iff.mp hn
        exact hfits file buf len pos rfl
      · rw [if_neg hp] at hn
        exact hs p n hn hfile
  | writeFault => exact hs
  | remount hr =>
      intro p n hn
      rw [hr.tree] at hn
      exact hs p n hn

/-- A run of calls that do not write to the file. -/
theorem settled_run {s s' : Files} {steps : List Step} {rs : List Res}
    (h : SpecRun Next s steps rs s') {p : Path} {b : Buf} {n : Node} (hs : s.Settled p b n)
    (hwrites : ∀ step ∈ steps, writesTo p step.2 = false) : s'.Settled p b n := by
  induction h with
  | nil => exact hs
  | cons hnext _ ih =>
      have hfirst := hnext.settled hs (hwrites _ List.mem_cons_self)
      exact ih hfirst fun step hstep => hwrites step (List.mem_cons_of_mem _ hstep)

end Files

/-! ## Reading the files off a volume -/

namespace Image

/-- The page of the file in slot `k`, as `src` has it. -/
def pageIn (img src : Image) (k : Nat) : Option Buf :=
  if sIsdir (img.slot k).mode then none else some (src (img.slot k).dataBlockNumber.toNat)

/-- The entries of the directory in slot `a`. -/
def entriesAt (img : Image) (a : Nat) : List (List Byte × U64) :=
  if sIsdir (img.slot a).mode then
    (List.range (img.slot a).dirChildrenCount.toNat).map (recordEntry (img.data a))
  else []

theorem pageIn_file {img src : Image} {k : Nat} (h : sIsdir (img.slot k).mode = false) :
    img.pageIn src k = some (src (img.slot k).dataBlockNumber.toNat) := by
  unfold pageIn
  rw [h]
  rfl

theorem pageIn_dir {img src : Image} {k : Nat} (h : sIsdir (img.slot k).mode = true) :
    img.pageIn src k = none := by
  unfold pageIn
  rw [h]
  rfl

theorem entriesAt_dir {img : Image} {a : Nat} (h : sIsdir (img.slot a).mode = true) :
    img.entriesAt a =
      (List.range (img.slot a).dirChildrenCount.toNat).map (recordEntry (img.data a)) := by
  unfold entriesAt
  rw [h]
  rfl

theorem entriesAt_file {img : Image} {a : Nat} (h : sIsdir (img.slot a).mode = false) :
    img.entriesAt a = [] := by
  unfold entriesAt
  rw [h]
  rfl

/-- Files with the same inode and block have the same page. -/
theorem pageIn_congr {img img' src src' : Image} {k : Nat} (hsame : (img'.slot k).Same (img.slot k))
    (hblock : sIsdir (img.slot k).mode = false →
      src' (img.slot k).dataBlockNumber.toNat = src (img.slot k).dataBlockNumber.toNat) :
    img'.pageIn src' k = img.pageIn src k := by
  cases hdir : sIsdir (img.slot k).mode with
  | true => rw [pageIn_dir hdir, pageIn_dir (hsame.mode ▸ hdir)]
  | false => rw [pageIn_file hdir, pageIn_file (hsame.mode ▸ hdir), hsame.block, hblock hdir]

/-- Directories with the same records have the same entries. -/
theorem entriesAt_congr {img img' : Image} {a : Nat} (hmode : (img'.slot a).mode = (img.slot a).mode)
    (hchildren : sIsdir (img.slot a).mode = true →
      (img'.slot a).dirChildrenCount = (img.slot a).dirChildrenCount)
    (hrecord : ∀ r, sIsdir (img.slot a).mode = true → r < (img.slot a).dirChildrenCount.toNat →
      SameRecord r (img.data a) (img'.data a)) : img'.entriesAt a = img.entriesAt a := by
  cases hdir : sIsdir (img.slot a).mode with
  | false => rw [entriesAt_file hdir, entriesAt_file (hmode ▸ hdir)]
  | true =>
      rw [entriesAt_dir hdir, entriesAt_dir (hmode ▸ hdir), hchildren hdir]
      apply List.map_congr_left
      intro r hr
      have hsame := hrecord r hdir (List.mem_range.mp hr)
      unfold recordEntry
      rw [hsame.name, hsame.inodeNo]

end Image

/-- The files of a volume. -/
def Vol.files (v : Vol) : Files where
  tree := v.cache.tree
  page := fun p => (v.cache.resolve p).bind (v.cache.pageIn v.cache)
  kept := fun p => (v.cache.resolve p).bind (v.cache.pageIn v.device)
  entries := fun p => ((v.cache.resolve p).map v.cache.entriesAt).getD []

namespace Vol

variable {v : Vol} {p : Path} {k : Nat}

theorem files_page (h : v.cache.resolve p = some k) : v.files.page p = v.cache.pageIn v.cache k := by
  show (v.cache.resolve p).bind _ = _
  rw [h]
  rfl

theorem files_kept (h : v.cache.resolve p = some k) : v.files.kept p = v.cache.pageIn v.device k := by
  show (v.cache.resolve p).bind _ = _
  rw [h]
  rfl

theorem files_entries (h : v.cache.resolve p = some k) :
    v.files.entries p = v.cache.entriesAt k := by
  show ((v.cache.resolve p).map _).getD [] = _
  rw [h]
  rfl

/-- The bytes of a file are the ones its inode counts. -/
theorem files_bytes (h : v.cache.resolve p = some k) (hfile : sIsdir (v.cache.slot k).mode = false) :
    v.files.bytes p = slice (v.cache (v.cache.slot k).dataBlockNumber.toNat) 0
      (v.cache.slot k).fileSize.toNat := by
  unfold Files.bytes
  rw [files_page h, Image.pageIn_file hfile]
  show ((v.cache.tree.node p).map _).getD [] = _
  rw [TreeShaped.node_iff.mpr ⟨k, h, rfl⟩]
  rfl

/-- A block without older versions is on the device. -/
theorem device_of_past {b : Nat} (h : v.past b = []) : v.device b = v.cache b := by
  unfold device
  rw [h]
  rfl

/-- The files are in the blocks, not in the dentry cache. -/
theorem files_congr {v' : Vol} (hcache : v'.cache = v.cache) (hpast : v'.past = v.past) :
    v'.files = v.files := by
  have hdevice : v'.device = v.device := by
    unfold device
    rw [hcache, hpast]
  unfold files
  rw [hcache, hdevice]

end Vol

end Lkm.Simplefs
