import Lkm.Simplefs.State

/-!
# The driver (`simple.c`)

The functions of `simple.c` in the order of the source. A pointer to a private
inode is the path of its dentry: the fields are read and written through the
dentry cache at the point where the C code follows the pointer. A NULL result
of `sb_bread` is `false`; blocks past the end of the device have no buffer.

**Allocation assumption.** `simple.c` checks one of its allocations, `new_inode`
in `simplefs_create_fs_object`. The others are taken to succeed: `unchecked`
marks them.
-/

namespace Lkm.Simplefs

open Base

/-! ## Kernel primitives -/

/-- The current memory. -/
def readMem : Sfs Mem := .get .ret

/-- One update of the memory. -/
def update (f : Mem → Mem) : Sfs Unit := .act f (.ret ())

/-- One update of the volume. -/
def updateVol (f : Vol → Vol) : Sfs Unit := update (Mem.onVol f)

/-- Stop with a fault. -/
def stop {α : Type} (e : Fault) : Sfs α := .fail e

/-- Ask the rest of the kernel. -/
def ask (q : Query) : Sfs q.Answer := .ask q .ret

/-- `mutex_lock_interruptible`: `true` if the wait was interrupted. -/
def mutexLockInterruptible (i : Site) : Sfs Bool := .lock i i.mutex .ret

def mutexUnlock (x : Mutex) : Sfs Unit := .unlock x (.ret ())

/-- `sb_bread`: a reference to the buffer, if the block exists. -/
def sbBread (P : Platform) (b : Nat) : Sfs Bool :=
  if b < P.nrBlocks then do
    update (·.getBh b)
    return true
  else
    return false

/-- `bh = sb_bread(...); BUG_ON(!bh)`. -/
def sbBreadOrBug (P : Platform) (b : Nat) : Sfs Unit := do
  let bh ← sbBread P b
  if bh then return () else stop .bug

/-- What a `new_inode` or `kmem_cache_alloc` has returned whose result the driver does not check,
once it is filled in. By the allocation assumption it is not NULL. -/
abbrev unchecked {α : Type} (object : α) : α := object

/-- The bytes `off` to `off + len` are about to be touched in block `b`. -/
def inBlock (b off len : Nat) : Sfs Unit :=
  if off + len ≤ simplefsDefaultBlockSize then return () else stop (.outOfBlock b off len)

/-- `SIMPLEFS_INODE(inode)`, followed. -/
def simplefsInode (p : Path) : Sfs SimplefsInode := do
  let m ← readMem
  match m.priv p with
  | some i => return i
  | none => stop .nullPrivate

/-- A pure computation that may leave its buffer. -/
def liftFault {α : Type} : Except Fault α → Sfs α
  | .ok a => return a
  | .error e => stop e

/-- A 64-bit value, stored in an `int` and used as a 64-bit value again. -/
def asInt (x : U64) : U64 := (x.setWidth 32).signExtend 64

/-! ## The super block and the inode store -/

def simplefsSbSync (P : Platform) : Sfs Unit := do
  sbBreadOrBug P simplefsSuperblockBlockNumber
  -- `bh->b_data = (char *)sb` is where it points already
  updateVol (·.markBufferDirty simplefsSuperblockBlockNumber)
  updateVol (·.syncDirtyBuffer simplefsSuperblockBlockNumber)
  update (·.brelse simplefsSuperblockBlockNumber)

/-- Read slot `k` of the inode store, which ends with the block. -/
def slotAt (store : Buf) (k : Nat) : Except Fault SimplefsInode :=
  if sizeofInode * k + sizeofInode ≤ simplefsDefaultBlockSize then .ok (inodeAt store k)
  else .error (.outOfBlock simplefsInodestoreBlockNumber (sizeofInode * k) sizeofInode)

/-- The loop of `simplefs_inode_search`, at slot `k` with `n` increments of
`count` to go. The slot after the last one is compared, too. -/
def searchFrom (store : Buf) (no : U64) : Nat → Nat → Except Fault (Option Nat)
  | 0, k => do
      let start ← slotAt store k
      if start.inodeNo = no then return some k else return none
  | n + 1, k => do
      let start ← slotAt store k
      if start.inodeNo = no then return some k else searchFrom store no n (k + 1)

/-- The index of the slot found, `none` for NULL. -/
def simplefsInodeSearch (sb store : Buf) (no : U64) : Except Fault (Option Nat) :=
  searchFrom store no (inodesCount sb).toNat 0

def simplefsInodeAdd (P : Platform) (inode : SimplefsInode) : Sfs Unit := do
  let interrupted ← mutexLockInterruptible .addInodes
  if interrupted then return () else
  sbBreadOrBug P simplefsInodestoreBlockNumber
  let interrupted ← mutexLockInterruptible .addSb
  -- this return keeps `simplefs_inodes_mgmt_lock` and the buffer
  if interrupted then return () else
  update Mem.beginAppend
  let m ← readMem
  let slot := (inodesCount (m.cache simplefsSuperblockBlockNumber)).toNat
  inBlock simplefsInodestoreBlockNumber (sizeofInode * slot) sizeofInode
  updateVol (·.modify simplefsInodestoreBlockNumber (putInode · slot inode))
  let m ← readMem
  let count := inodesCount (m.cache simplefsSuperblockBlockNumber)
  updateVol (·.modify simplefsSuperblockBlockNumber (setInodesCount · (count + 1)))
  updateVol (·.markBufferDirty simplefsInodestoreBlockNumber)
  simplefsSbSync P
  update (·.brelse simplefsInodestoreBlockNumber)
  update Mem.endAppend
  mutexUnlock .sb
  mutexUnlock .inodesMgmt

/-- The `int` expression `1 << i`. -/
def oneShl (P : Platform) (i : Nat) : U32 := if i < 32 then 1#32 <<< i else P.wideShl i

/-- `1 << i`, converted to the type of `free_blocks`. -/
def bitMask (P : Platform) (i : Nat) : U64 := (oneShl P i).signExtend 64

/-- `sb->free_blocks & (1 << i)`. -/
def blockIsFree (P : Platform) (free : U64) (i : Nat) : Bool := free &&& bitMask P i != 0

/-- The loop of `simplefs_sb_get_a_freeblock`, with `n` values of `i` to go. -/
def freeblockFrom (P : Platform) (free : U64) : Nat → Nat → Nat
  | 0, i => i
  | n + 1, i => if blockIsFree P free i then i else freeblockFrom P free n (i + 1)

def simplefsSbGetAFreeblock (P : Platform) : Sfs (Except Errno U64) := do
  let interrupted ← mutexLockInterruptible .freeblock
  if interrupted then
    -- `goto end` unlocks what was not locked
    mutexUnlock .sb
    return .error .eintr
  else
  let m ← readMem
  let free := freeBlocks (m.cache simplefsSuperblockBlockNumber)
  let i := freeblockFrom P free (simplefsMaxFilesystemObjectsSupported - 2) 2
  if i = simplefsMaxFilesystemObjectsSupported then
    mutexUnlock .sb
    return .error .enospc
  else
  let m ← readMem
  let free := freeBlocks (m.cache simplefsSuperblockBlockNumber)
  updateVol (·.modify simplefsSuperblockBlockNumber (setFreeBlocks · (free &&& ~~~bitMask P i)))
  simplefsSbSync P
  mutexUnlock .sb
  return .ok (BitVec.ofNat 64 i)

def simplefsSbGetObjectsCount : Sfs (Except Errno U64) := do
  let interrupted ← mutexLockInterruptible .objectsCount
  if interrupted then return .error .eintr else
  let m ← readMem
  let out := inodesCount (m.cache simplefsSuperblockBlockNumber)
  mutexUnlock .inodesMgmt
  return .ok out

/-! ## Listing a directory -/

/-- `struct dir_context`, with room for `room` more entries in the caller's
buffer and the entries stored so far. -/
structure DirContext where
  pos : U64
  room : Nat
  emitted : List (List Byte × U64)
deriving DecidableEq

/-- `dir_emit`: stores nothing when the buffer is full. -/
def DirContext.dirEmit (ctx : DirContext) (name : List Byte) (no : U64) : DirContext :=
  if 0 < ctx.room then
    { ctx with room := ctx.room - 1, emitted := ctx.emitted ++ [(name, no)] }
  else ctx

/-- The loop of `simplefs_iterate`, at record `k` with `n` to go. -/
def iterateFrom (blk : Nat) (b : Buf) : Nat → Nat → DirContext → Except Fault DirContext
  | 0, _, ctx => .ok ctx
  | n + 1, k, ctx =>
      if sizeofDirRecord * k + sizeofDirRecord ≤ simplefsDefaultBlockSize then
        let name := slice b (sizeofDirRecord * k) simplefsFilenameMaxlen
        let ctx := ctx.dirEmit name (recordInodeNo b k)
        iterateFrom blk b n (k + 1) { ctx with pos := ctx.pos + BitVec.ofNat 64 sizeofDirRecord }
      else .error (.outOfBlock blk (sizeofDirRecord * k) sizeofDirRecord)

def simplefsIterate (P : Platform) (p : Path) (ctx : DirContext) :
    Sfs (Except Errno DirContext) := do
  if ctx.pos ≠ 0 then return .ok ctx else
  let sfsInode ← simplefsInode p
  if !sIsdir sfsInode.mode then return .error .enotdir else
  let blk := sfsInode.dataBlockNumber.toNat
  sbBreadOrBug P blk
  let m ← readMem
  let ctx ← liftFault (iterateFrom blk (m.cache blk) sfsInode.dirChildrenCount.toNat 0 ctx)
  update (·.brelse blk)
  return .ok ctx

/-! ## Reading and writing -/

/-- The loop of `simplefs_get_inode`, at slot `k` with `n` to go. -/
def getInodeFrom (store : Buf) (no : U64) : Nat → Nat → Except Fault (Option SimplefsInode)
  | 0, _ => return none
  | n + 1, k => do
      let sfsInode ← slotAt store k
      if sfsInode.inodeNo = no then return some (unchecked sfsInode)
      else getInodeFrom store no n (k + 1)

/-- A copy of the inode, `none` for NULL. -/
def simplefsGetInode (P : Platform) (no : U64) : Sfs (Option SimplefsInode) := do
  sbBreadOrBug P simplefsInodestoreBlockNumber
  let m ← readMem
  let inodeBuffer ← liftFault (getInodeFrom (m.cache simplefsInodestoreBlockNumber) no
    (inodesCount (m.cache simplefsSuperblockBlockNumber)).toNat 0)
  update (·.brelse simplefsInodestoreBlockNumber)
  return inodeBuffer

/-- The bytes read, or an error, and the new `*ppos`. -/
def simplefsRead (P : Platform) (p : Path) (len ppos : U64) :
    Sfs (Except Errno (List Byte) × U64) := do
  let inode ← simplefsInode p
  if inode.fileSize ≤ ppos then return (.ok [], ppos) else
  let blk := inode.dataBlockNumber.toNat
  let bh ← sbBread P blk
  if !bh then return (.ok [], ppos) else
  let size := if inode.fileSize ≤ len then inode.fileSize else len
  -- `int nbytes`, passed on as `unsigned long`
  let nbytes := asInt size
  if nbytes.msb then
    update (·.brelse blk)
    return (.error .efault, ppos)
  else
  inBlock blk 0 nbytes.toNat
  let m ← readMem
  let ok ← ask .copyToUser
  if !ok then
    update (·.brelse blk)
    return (.error .efault, ppos)
  else
  update (·.brelse blk)
  return (.ok (slice (m.cache blk) 0 nbytes.toNat), ppos + nbytes)

def simplefsInodeSave (P : Platform) (p : Path) : Sfs (Except Errno Unit) := do
  sbBreadOrBug P simplefsInodestoreBlockNumber
  let interrupted ← mutexLockInterruptible .saveSb
  if interrupted then return .error .eintr else
  let sfsInode ← simplefsInode p
  let m ← readMem
  let inodeIterator ← liftFault (simplefsInodeSearch (m.cache simplefsSuperblockBlockNumber)
    (m.cache simplefsInodestoreBlockNumber) sfsInode.inodeNo)
  match inodeIterator with
  | some slot =>
      let sfsInode ← simplefsInode p
      updateVol (·.modify simplefsInodestoreBlockNumber (putInode · slot sfsInode))
      updateVol (·.markBufferDirty simplefsInodestoreBlockNumber)
      updateVol (·.syncDirtyBuffer simplefsInodestoreBlockNumber)
      update (·.brelse simplefsInodestoreBlockNumber)
      mutexUnlock .sb
      return .ok ()
  | none =>
      mutexUnlock .sb
      return .error .eio

/-- The bytes that `copy_from_user` leaves in its target when the source can be
read for `copied` bytes: the rest is filled with zeros. -/
def copiedBytes (buf : Buf) (len copied : Nat) : List Byte :=
  slice buf 0 (min copied len) ++ List.replicate (len - min copied len) 0

/-- `copy_from_user(bh->b_data + off, buf, len)`. -/
def copyFromUser (blk off : Nat) (buf : Buf) (len copied : Nat) : Sfs Unit :=
  if len = 0 then return () else do
    inBlock blk off len
    updateVol (·.modify blk (put · off (copiedBytes buf len copied)))

/-- The number of bytes written, or an error, and the new `*ppos`. -/
def simplefsWrite (P : Platform) (p : Path) (buf : Buf) (len ppos : U64) :
    Sfs (Except Errno U64 × U64) := do
  let sfsInode ← simplefsInode p
  let blk := sfsInode.dataBlockNumber.toNat
  let bh ← sbBread P blk
  if !bh then return (.ok 0, ppos) else
  let copied ← ask .copyFromUser
  copyFromUser blk ppos.toNat buf len.toNat copied
  if copied < len.toNat then
    update (·.brelse blk)
    return (.error .efault, ppos)
  else
  let ppos := ppos + len
  updateVol (·.markBufferDirty blk)
  updateVol (·.syncDirtyBuffer blk)
  update (·.brelse blk)
  let interrupted ← mutexLockInterruptible .writeInodes
  if interrupted then return (.error .eintr, ppos) else
  updateVol (·.setPrivate p fun i => { i with fileSize := ppos })
  let retval ← simplefsInodeSave P p
  mutexUnlock .inodesMgmt
  match retval with
  | .ok () => return (.ok len, ppos)
  | .error e => return (.error e, ppos)

/-! ## Creating and looking up -/

/-- `simplefs_create_fs_object` from line 378 on: the new inode is in the store,
it gets a record in the parent's block and the parent's count goes up. -/
def linkChild (P : Platform) (dir : Path) (dentry : Name) (sfsInode : SimplefsInode)
    (inode : Inode) : Sfs (Except Errno Unit) := do
  let parentDirInode ← simplefsInode dir
  let blk := parentDirInode.dataBlockNumber.toNat
  sbBreadOrBug P blk
  let parentDirInode ← simplefsInode dir
  let k := parentDirInode.dirChildrenCount.toNat
  inBlock blk (sizeofDirRecord * k) sizeofDirRecord
  updateVol (·.modify blk (setRecordInodeNo · k sfsInode.inodeNo))
  updateVol (·.modify blk (strcpyFilename · k dentry.bytes))
  updateVol (·.markBufferDirty blk)
  updateVol (·.syncDirtyBuffer blk)
  update (·.brelse blk)
  let interrupted ← mutexLockInterruptible .createInodes
  if interrupted then
    mutexUnlock .directoryChildrenUpdate
    return .error .eintr
  else
  updateVol (·.setPrivate dir fun i => i.setDirChildrenCount (i.dirChildrenCount + 1))
  let ret ← simplefsInodeSave P dir
  match ret with
  | .error e =>
      mutexUnlock .inodesMgmt
      mutexUnlock .directoryChildrenUpdate
      return .error e
  | .ok () =>
  mutexUnlock .inodesMgmt
  mutexUnlock .directoryChildrenUpdate
  updateVol (·.dAdd (dentry :: dir) inode)
  return .ok ()

def simplefsCreateFsObject (P : Platform) (dir : Path) (dentry : Name) (mode : U32) :
    Sfs (Except Errno Unit) := do
  let interrupted ← mutexLockInterruptible .createDirectory
  if interrupted then return .error .eintr else
  let ret ← simplefsSbGetObjectsCount
  match ret with
  | .error e =>
      mutexUnlock .directoryChildrenUpdate
      return .error e
  | .ok count =>
  if simplefsMaxFilesystemObjectsSupported ≤ count.toNat then
    mutexUnlock .directoryChildrenUpdate
    return .error .enospc
  else
  if !sIsdir mode && !sIsreg mode then
    mutexUnlock .directoryChildrenUpdate
    return .error .einval
  else
  let inode ← ask .newInode
  if !inode then
    mutexUnlock .directoryChildrenUpdate
    return .error .enomem
  else
  let iIno := count + simplefsStartIno - simplefsReservedInodes + 1
  let slab ← ask .slab
  let ret ← simplefsSbGetAFreeblock P
  match ret with
  | .error e =>
      mutexUnlock .directoryChildrenUpdate
      return .error e
  | .ok out =>
  -- `dir_children_count = 0` or `file_size = 0`: one word, and one of them is set
  let sfsInode := unchecked { slab with
    inodeNo := iIno, mode := mode, fileSize := 0, dataBlockNumber := out }
  simplefsInodeAdd P sfsInode
  linkChild P dir dentry sfsInode
    { iIno := iIno, iMode := mode, iFop := some (if sIsdir mode then .dir else .file),
      iPrivate := some sfsInode }

def simplefsMkdir (P : Platform) (dir : Path) (dentry : Name) (mode : U32) :
    Sfs (Except Errno Unit) :=
  simplefsCreateFsObject P dir dentry (sIfdir ||| mode)

def simplefsCreate (P : Platform) (dir : Path) (dentry : Name) (mode : U32) :
    Sfs (Except Errno Unit) :=
  simplefsCreateFsObject P dir dentry mode

/-- `simplefs_iget`; its parameter is an `int`. -/
def simplefsIget (P : Platform) (ino : U64) : Sfs Inode := do
  let ino := asInt ino
  let sfsInode ← simplefsGetInode P ino
  match sfsInode with
  | none => stop .nullInode
  | some sfsInode =>
      let iFop :=
        if sIsdir sfsInode.mode then some Fop.dir
        else if sIsreg sfsInode.mode then some Fop.file
        else none
      return unchecked { iIno := ino, iMode := 0, iFop := iFop, iPrivate := some sfsInode }

/-- The loop of `simplefs_lookup`, at record `k` with `n` to go: the index of the
first record with the name. -/
def lookupFrom (blk : Nat) (b : Buf) (name : List Byte) : Nat → Nat → Except Fault (Option Nat)
  | 0, _ => .ok none
  | n + 1, k =>
      if sizeofDirRecord * k + sizeofDirRecord ≤ simplefsDefaultBlockSize then
        if filenameMatches b k name then .ok (some k) else lookupFrom blk b name n (k + 1)
      else .error (.outOfBlock blk (sizeofDirRecord * k) sizeofDirRecord)

def simplefsLookup (P : Platform) (parent : Path) (childDentry : Name) : Sfs Unit := do
  let parentInode ← simplefsInode parent
  let blk := parentInode.dataBlockNumber.toNat
  let bh ← sbBread P blk
  if !bh then stop .nullBuffer else
  let m ← readMem
  let record ← liftFault (lookupFrom blk (m.cache blk) childDentry.bytes
    parentInode.dirChildrenCount.toNat 0)
  match record with
  | none => return ()
  | some k =>
      let inode ← simplefsIget P (recordInodeNo (m.cache blk) k)
      let mode := (inode.iPrivate.map SimplefsInode.mode).getD 0
      updateVol (·.dAdd (childDentry :: parent) { inode with iMode := mode })

/-! ## Mounting -/

def simplefsFillSuper (P : Platform) : Sfs Unit := do
  -- this buffer stays referenced: it is `s_fs_info`
  sbBreadOrBug P simplefsSuperblockBlockNumber
  let iPrivate ← simplefsGetInode P simplefsRootdirInodeNumber
  updateVol (·.dAdd [] (unchecked
    { iIno := simplefsRootdirInodeNumber, iMode := sIfdir, iFop := some .dir,
      iPrivate := iPrivate }))

end Lkm.Simplefs
