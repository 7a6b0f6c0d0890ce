import Lkm.Simplefs.Driver

/-!
# Calls from the VFS

A `Call` is one entry of the driver's operation tables. The VFS stands in front
of them: it walks to a dentry it has in memory, calls `create`, `mkdir` and
`lookup` on directories only, does not create what it knows to exist
(`may_create`), asks the driver for a name only when the dentry cache does not
have it, and writes only through `simplefs_file_operations`.
-/

namespace Lkm.Simplefs

open Base

inductive Call where
  | create (dir : Path) (name : Name) (mode : U32)
  | mkdir (dir : Path) (name : Name) (mode : U32)
  | lookup (dir : Path) (name : Name)
  | iterate (dir : Path) (ctx : DirContext)
  | read (file : Path) (len pos : U64)
  | write (file : Path) (buf : Buf) (len pos : U64)
  | remount

/-- What a call hands back to the VFS. -/
inductive Res where
  | status (r : Except Errno Unit)
  | found (inode : Option Inode)
  | listed (r : Except Errno DirContext)
  | bytes (r : Except Errno (List Byte)) (pos : U64)
  | count (r : Except Errno U64) (pos : U64)
  | mounted
deriving DecidableEq

/-- The inode of a directory that the VFS has in memory. -/
def vfsDirectory (dir : Path) (k : Sfs Res) : Sfs Res := do
  let m ← readMem
  match m.dcache dir with
  | none => return .status (.error .enoent)
  | some d => if sIsdir d.iMode then k else return .status (.error .enotdir)

/-- `vfs_create` and `vfs_mkdir`. -/
def vfsCreate (dir : Path) (name : Name) (k : Sfs (Except Errno Unit)) : Sfs Res :=
  vfsDirectory dir do
    let m ← readMem
    match m.dcache (name :: dir) with
    | some _ => return .status (.error .eexist)
    | none => do
        let r ← k
        return .status r

/-- Walking one component: the dentry cache answers, or the driver does. -/
def vfsLookup (P : Platform) (dir : Path) (name : Name) : Sfs Res :=
  vfsDirectory dir do
    let m ← readMem
    match m.dcache (name :: dir) with
    | some i => return .found (some i)
    | none => do
        simplefsLookup P dir name
        let m ← readMem
        return .found (m.dcache (name :: dir))

/-- `vfs_read` and `vfs_write`. -/
def vfsFile (file : Path) (k : Sfs Res) : Sfs Res := do
  let m ← readMem
  match m.dcache file with
  | none => return .status (.error .enoent)
  | some i => if i.iFop = some .file then k else return .status (.error .einval)

/-- The code a call runs. -/
def Call.prog (P : Platform) : Call → Sfs Res
  | .create dir name mode => vfsCreate dir name (simplefsCreate P dir name mode)
  | .mkdir dir name mode => vfsCreate dir name (simplefsMkdir P dir name mode)
  | .lookup dir name => vfsLookup P dir name
  | .iterate dir ctx => vfsDirectory dir do
      let r ← simplefsIterate P dir ctx
      return .listed r
  | .read file len pos => vfsFile file do
      let r ← simplefsRead P file len pos
      return .bytes r.1 r.2
  | .write file buf len pos => vfsFile file do
      let r ← simplefsWrite P file buf len pos
      return .count r.1 r.2
  | .remount => do
      let dropped ← ask .dropped
      updateVol (·.unmount dropped)
      simplefsFillSuper P
      return .mounted

/-! ## Sequential runs -/

/-- One call of a sequential run, with what the outside world does during it. -/
abbrev Step := Outside × Call

/-- Every state of a run, the ones inside its calls included. -/
abbrev states (P : Platform) (steps : List Step) (m : Machine) : List Machine :=
  visitsAll (Call.prog P) 0 steps m

/-- How a run ends. -/
abbrev outcome (P : Platform) (steps : List Step) (m : Machine) :
    Outcome Mem Mutex Fault (List Res) :=
  runs (Call.prog P) 0 steps m

/-- Each call of a run is issued on a volume on which `A` admits it. -/
abbrev Issues (P : Platform) (A : Vol → Step → Prop) (steps : List Step) (m : Machine) : Prop :=
  EachStep (Call.prog P) 0 (fun m s => A m.mem.toVol s) steps m

/-! ## The machine before the first call -/

/-- A volume whose blocks are on the device and in no other version. -/
def Vol.ofImage (img : Image) : Vol where
  cache := img
  past := fun _ => []
  dirty := fun _ => false
  dcache := fun _ => none

/-- A machine with that volume and every mutex free. -/
def machineOf (v : Vol) : Machine where
  mem := { v with refs := fun _ => 0, appending := false, appends := 0 }
  owner := fun _ => none

/-- No wait of the call is interrupted. -/
def Outside.Uninterrupted (w : Outside) : Prop := ∀ i, w.interrupted i = false

/-- Nothing is interrupted, allocations succeed (with zeroed memory) and the user
memory can be accessed. -/
def calm : Outside where
  interrupted := fun _ => false
  answer
    | .newInode => true
    | .slab => ⟨0, 0, 0, 0, 0⟩
    | .copyFromUser => 2 ^ 64
    | .copyToUser => true
    | .dropped => fun _ => true

/-- The machine after an image was mounted. -/
def mount (P : Platform) (img : Image) : Machine :=
  ((simplefsFillSuper P).run calm 0 (machineOf (.ofImage img))).mach

end Lkm.Simplefs
