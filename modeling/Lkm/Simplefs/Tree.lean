import Mathlib.Data.Set.Finite.Basic
import Lkm.Simplefs.Allocator
import Lkm.Simplefs.Vfs

/-!
# The tree behind an image

What the file system is for: a finite tree of named objects. `Tree` is that tree,
with what is left to extend it, and `Tree.Next` says what each call of the VFS does to
it, in terms of the tree alone. A create either hangs one new object below its parent
or is refused and changes nothing; a lookup answers with the object at the path; a
write sets the size of one file; unmounting and mounting again change nothing.

`Image.tree` reads the tree off an image: from the inode with the root's number, each
component is looked up in the records of the directory reached so far.
-/

namespace Lkm.Simplefs

open Base

/-! ## The tree and its operations -/

/-- An object. `extent` is the size of a file and the number of entries of a directory. -/
structure Node where
  number : U64
  mode : U32
  block : U64
  extent : U64
deriving DecidableEq

/-- A tree of objects, with the number of objects made so far and the blocks that are free,
in increasing order. -/
structure Tree where
  node : Path → Option Node
  objects : Nat
  free : List Nat

namespace Tree

/-- The objects form a finite tree below a directory, and are told apart by their numbers
and by their blocks. -/
structure Formed (t : Tree) : Prop where
  root : ∃ d, t.node [] = some d ∧ sIsdir d.mode = true
  parent : ∀ name dir n, t.node (name :: dir) = some n →
    ∃ d, t.node dir = some d ∧ sIsdir d.mode = true
  finite : {p | t.node p ≠ none}.Finite
  number_inj : ∀ p q m n, t.node p = some m → t.node q = some n → m.number = n.number → p = q
  block_inj : ∀ p q m n, t.node p = some m → t.node q = some n → m.block = n.block → p = q

/-- A new object in the directory `dir`, which has one entry more. -/
def hang (t : Tree) (dir : Path) (name : Name) (n : Node) : Path → Option Node := fun p =>
  if p = name :: dir then some n
  else if p = dir then (t.node p).map fun d => { d with extent := d.extent + 1 }
  else t.node p

/-- Create an object. `memory` says whether there is memory for an inode. -/
def create (t : Tree) (dir : Path) (name : Name) (mode : U32) (memory : Bool) :
    Except Errno Unit × Tree :=
  if simplefsMaxFilesystemObjectsSupported ≤ t.objects then (.error .enospc, t)
  else if !sIsdir mode && !sIsreg mode then (.error .einval, t)
  else if !memory then (.error .enomem, t)
  else
    match t.free with
    | [] => (.error .enospc, t)
    | b :: free =>
        (.ok (), {
          node := t.hang dir name
            ⟨BitVec.ofNat 64 (t.objects + 8), mode, BitVec.ofNat 64 b, 0⟩
          objects := t.objects + 1
          free := free })

/-- The file at `file` has the size `size` now. -/
def resize (t : Tree) (file : Path) (size : U64) : Tree :=
  { t with
    node := fun p => if p = file then (t.node p).map fun n => { n with extent := size } else t.node p }

end Tree

/-- The object that an inode describes. -/
def SimplefsInode.node (i : SimplefsInode) : Node where
  number := i.inodeNo
  mode := i.mode
  block := i.dataBlockNumber
  extent := i.fileSize

/-- The VFS inode `i` is that of the object `n`: its number, its type with the operations that
go with it, and behind it the object's inode. -/
structure Inode.Shows (i : Inode) (n : Node) : Prop where
  number : i.iIno = n.number
  mode : i.iMode = n.mode
  fop : i.iFop = if sIsdir n.mode then some .dir else if sIsreg n.mode then some .file else none
  object : ∃ p, i.iPrivate = some p ∧ p.node = n

/-- The answer of a lookup for what is in the tree. -/
def Finds : Option Inode → Option Node → Prop
  | some i, some n => i.Shows n
  | none, none => True
  | _, _ => False

namespace Tree

/-- `t.Next s r t'`: the call of step `s` answers `r` and makes `t'` of the tree `t`. -/
inductive Next (t : Tree) : Step → Res → Tree → Prop
  | create {w : Outside} {dir : Path} {name : Name} {mode : U32} {r : Except Errno Unit} {t' : Tree} :
      t.create dir name mode (w.answer .newInode) = (r, t') →
      t.Next (w, .create dir name mode) (.status r) t'
  | mkdir {w : Outside} {dir : Path} {name : Name} {mode : U32} {r : Except Errno Unit} {t' : Tree} :
      t.create dir name (sIfdir ||| mode) (w.answer .newInode) = (r, t') →
      t.Next (w, .mkdir dir name mode) (.status r) t'
  | lookup {w : Outside} {dir : Path} {name : Name} {i : Option Inode} :
      Finds i (t.node (name :: dir)) → t.Next (w, .lookup dir name) (.found i) t
  | write {w : Outside} {file : Path} {buf : Buf} {len pos : U64} :
      len.toNat ≤ w.answer .copyFromUser →
      t.Next (w, .write file buf len pos) (.count (.ok len) (pos + len)) (t.resize file (pos + len))
  -- the user's memory ends too early
  | fault {w : Outside} {file : Path} {buf : Buf} {len pos : U64} :
      w.answer .copyFromUser < len.toNat →
      t.Next (w, .write file buf len pos) (.count (.error .efault) pos) t
  | remount {w : Outside} : t.Next (w, .remount) .mounted t

end Tree

/-! ## Reading the tree off an image -/

namespace Image

/-- The slot with the number `no`. -/
def find (img : Image) (no : U64) : Option Nat :=
  (List.range img.count.toNat).find? fun k => decide ((img.slot k).inodeNo = no)

/-- The slot of the object `name` in the directory in slot `a`. -/
def child (img : Image) (a : Nat) (name : Name) : Option Nat :=
  if sIsdir (img.slot a).mode then
    ((List.range (img.slot a).dirChildrenCount.toNat).find? fun r =>
      filenameMatches (img (img.slot a).dataBlockNumber.toNat) r name.bytes).bind
        fun r => img.find (img.recordNo (img.slot a) r)
  else none

/-- The slot of the object at a path. -/
def resolve (img : Image) : Path → Option Nat
  | [] => img.find simplefsRootdirInodeNumber
  | name :: dir => (img.resolve dir).bind (img.child · name)

/-- The tree of an image. -/
def tree (img : Image) : Tree where
  node := fun p => (img.resolve p).map fun k => (img.slot k).node
  objects := img.count.toNat
  free := freeBits img.free

end Image

end Lkm.Simplefs
