import Lkm.Base.Bytes

/-!
# On-disk layout (`simple.h`)

The three structures that share the device's 4096-byte blocks, at the offsets
the compiler gives their fields:

* `struct simplefs_super_block` in block 0: `magic` at 0, `block_size` at 8,
  `inodes_count` at 16, `free_blocks` at 24, padding up to 4096;
* `struct simplefs_inode`, 32 bytes each, in block 1: `mode` at 0, four bytes
  of padding, `inode_no` at 8, `data_block_number` at 16 and at 24 the union
  of `file_size` and `dir_children_count`;
* `struct simplefs_dir_record`, 256 bytes each, in a directory's data block:
  `filename` at 0 and `inode_no` at 248.

Each accessor comes with what a store to another field, slot or record leaves
alone; later modules use only these lemmas and never the bytes.
-/

namespace Lkm.Simplefs

open Base

abbrev U32 := BitVec 32
abbrev U64 := BitVec 64

/-! ## Constants -/

def simplefsMagic : U64 := 0x10032013
def simplefsDefaultBlockSize : Nat := 4096
def simplefsFilenameMaxlen : Nat := 248
def simplefsStartIno : U64 := 10
def simplefsReservedInodes : U64 := 3
abbrev simplefsSuperblockBlockNumber : Nat := 0
abbrev simplefsInodestoreBlockNumber : Nat := 1
def simplefsRootdirInodeNumber : U64 := 1
def simplefsMaxFilesystemObjectsSupported : Nat := 64

/-- `sizeof(struct simplefs_inode)`. -/
def sizeofInode : Nat := 32
/-- `sizeof(struct simplefs_dir_record)`. -/
def sizeofDirRecord : Nat := 256

def sIfmt : U32 := 0xF000
def sIfdir : U32 := 0x4000
def sIfreg : U32 := 0x8000

/-- `S_ISDIR(mode)`. -/
def sIsdir (mode : U32) : Bool := mode &&& sIfmt == sIfdir
/-- `S_ISREG(mode)`. -/
def sIsreg (mode : U32) : Bool := mode &&& sIfmt == sIfreg

/-! ## Words in a block -/

/-- The `uint64_t` at `off`. -/
def get64 (b : Buf) (off : Nat) : U64 := getWord 8 64 b off

/-- Store a `uint64_t` at `off`. -/
def put64 (b : Buf) (off : Nat) (v : U64) : Buf := put b off (wordBytes 8 v)

theorem get64_put_frame {b : Buf} {off at' : Nat} {data : List Byte}
    (h : at' + 8 ≤ off ∨ off + data.length ≤ at') :
    get64 (put b off data) at' = get64 b at' := getWord_put_frame h

theorem get64_put64_self (b : Buf) (off : Nat) (v : U64) : get64 (put64 b off v) off = v :=
  getWord_put_self (by decide) b off v

theorem get64_put64_ne {b : Buf} {off at' : Nat} {v : U64} (h : at' + 8 ≤ off ∨ off + 8 ≤ at') :
    get64 (put64 b off v) at' = get64 b at' :=
  get64_put_frame (by rwa [wordBytes_length])

/-! ## The super block -/

/-- `sb->inodes_count`. -/
def inodesCount (sb : Buf) : U64 := get64 sb 16
/-- `sb->free_blocks`. -/
def freeBlocks (sb : Buf) : U64 := get64 sb 24

def setInodesCount (sb : Buf) (v : U64) : Buf := put64 sb 16 v
def setFreeBlocks (sb : Buf) (v : U64) : Buf := put64 sb 24 v

@[simp] theorem inodesCount_setInodesCount (sb : Buf) (v : U64) :
    inodesCount (setInodesCount sb v) = v := get64_put64_self sb 16 v

@[simp] theorem freeBlocks_setFreeBlocks (sb : Buf) (v : U64) :
    freeBlocks (setFreeBlocks sb v) = v := get64_put64_self sb 24 v

@[simp] theorem inodesCount_setFreeBlocks (sb : Buf) (v : U64) :
    inodesCount (setFreeBlocks sb v) = inodesCount sb := get64_put64_ne (by omega)

@[simp] theorem freeBlocks_setInodesCount (sb : Buf) (v : U64) :
    freeBlocks (setInodesCount sb v) = freeBlocks sb := get64_put64_ne (by omega)

/-! ## Inodes -/

/-- `struct simplefs_inode`. The union's one word is `fileSize`; `pad` are the
bytes between `mode` and `inode_no`, which `memcpy` copies with the rest. -/
structure SimplefsInode where
  mode : U32
  pad : U32
  inodeNo : U64
  dataBlockNumber : U64
  fileSize : U64
deriving DecidableEq

namespace SimplefsInode

/-- The other name of the union. -/
def dirChildrenCount (i : SimplefsInode) : U64 := i.fileSize

def setDirChildrenCount (i : SimplefsInode) (v : U64) : SimplefsInode := { i with fileSize := v }

@[simp] theorem setDirChildrenCount_mode (i : SimplefsInode) (v : U64) :
    (i.setDirChildrenCount v).mode = i.mode := rfl
@[simp] theorem setDirChildrenCount_inodeNo (i : SimplefsInode) (v : U64) :
    (i.setDirChildrenCount v).inodeNo = i.inodeNo := rfl
@[simp] theorem setDirChildrenCount_dataBlockNumber (i : SimplefsInode) (v : U64) :
    (i.setDirChildrenCount v).dataBlockNumber = i.dataBlockNumber := rfl
@[simp] theorem setDirChildrenCount_dirChildrenCount (i : SimplefsInode) (v : U64) :
    (i.setDirChildrenCount v).dirChildrenCount = v := rfl

/-- The 32 bytes of the structure. -/
def toBytes (i : SimplefsInode) : List Byte :=
  wordBytes 4 i.mode ++ wordBytes 4 i.pad ++ wordBytes 8 i.inodeNo ++
    wordBytes 8 i.dataBlockNumber ++ wordBytes 8 i.fileSize

@[simp] theorem toBytes_length (i : SimplefsInode) : i.toBytes.length = sizeofInode := by
  simp [toBytes, sizeofInode]

/-- The structure at `off`. -/
def ofBuf (b : Buf) (off : Nat) : SimplefsInode where
  mode := getWord 4 32 b off
  pad := getWord 4 32 b (off + 4)
  inodeNo := getWord 8 64 b (off + 8)
  dataBlockNumber := getWord 8 64 b (off + 16)
  fileSize := getWord 8 64 b (off + 24)

theorem ofBuf_congr {b b' : Buf} {off : Nat}
    (h : ∀ i, off ≤ i → i < off + sizeofInode → b i = b' i) : ofBuf b off = ofBuf b' off := by
  have hword : ∀ n w d, d + n ≤ 32 → getWord n w b (off + d) = getWord n w b' (off + d) :=
    fun n w d hd => getWord_congr fun i hlo hhi => h i (by omega) (by unfold sizeofInode; omega)
  have hmode := hword 4 32 0 (by decide)
  rw [Nat.add_zero] at hmode
  unfold ofBuf
  rw [hmode, hword 4 32 4 (by decide), hword 8 64 8 (by decide), hword 8 64 16 (by decide),
    hword 8 64 24 (by decide)]

/-- `memcpy` of a whole structure is read back as that structure. -/
theorem ofBuf_put_toBytes (b : Buf) (off : Nat) (i : SimplefsInode) :
    ofBuf (put b off i.toBytes) off = i := by
  have hmode := getWord_put_field (n := 4) (by decide) b off i.mode []
    (wordBytes 4 i.pad ++ wordBytes 8 i.inodeNo ++ wordBytes 8 i.dataBlockNumber ++
      wordBytes 8 i.fileSize)
  have hpad := getWord_put_field (n := 4) (by decide) b off i.pad (wordBytes 4 i.mode)
    (wordBytes 8 i.inodeNo ++ wordBytes 8 i.dataBlockNumber ++ wordBytes 8 i.fileSize)
  have hno := getWord_put_field (n := 8) (by decide) b off i.inodeNo
    (wordBytes 4 i.mode ++ wordBytes 4 i.pad)
    (wordBytes 8 i.dataBlockNumber ++ wordBytes 8 i.fileSize)
  have hblk := getWord_put_field (n := 8) (by decide) b off i.dataBlockNumber
    (wordBytes 4 i.mode ++ wordBytes 4 i.pad ++ wordBytes 8 i.inodeNo) (wordBytes 8 i.fileSize)
  have hsize := getWord_put_field (n := 8) (by decide) b off i.fileSize
    (wordBytes 4 i.mode ++ wordBytes 4 i.pad ++ wordBytes 8 i.inodeNo ++
      wordBytes 8 i.dataBlockNumber) []
  simp only [List.append_assoc, List.nil_append, List.append_nil, List.length_append,
    wordBytes_length, List.length_nil, Nat.add_zero] at hmode hpad hno hblk hsize
  unfold ofBuf toBytes
  simp only [List.append_assoc]
  rw [hmode, hpad, hno, hblk, hsize]

end SimplefsInode

/-- Slot `k` of an inode store. -/
def inodeAt (store : Buf) (k : Nat) : SimplefsInode := .ofBuf store (sizeofInode * k)

/-- `memcpy` an inode into slot `k`. -/
def putInode (store : Buf) (k : Nat) (i : SimplefsInode) : Buf :=
  put store (sizeofInode * k) i.toBytes

@[simp] theorem inodeAt_putInode_self (store : Buf) (k : Nat) (i : SimplefsInode) :
    inodeAt (putInode store k i) k = i := SimplefsInode.ofBuf_put_toBytes store _ i

theorem inodeAt_putInode_ne {store : Buf} {j k : Nat} (i : SimplefsInode) (h : j ≠ k) :
    inodeAt (putInode store k i) j = inodeAt store j := by
  refine SimplefsInode.ofBuf_congr fun n hlo hhi => put_frame ?_
  rw [SimplefsInode.toBytes_length]
  unfold sizeofInode at *
  omega

/-! ## Directory records -/

/-- `record[k].inode_no`. -/
def recordInodeNo (b : Buf) (k : Nat) : U64 := get64 b (sizeofDirRecord * k + 248)

/-- `record[k].inode_no = v`. -/
def setRecordInodeNo (b : Buf) (k : Nat) (v : U64) : Buf :=
  put64 b (sizeofDirRecord * k + 248) v

/-- `strcpy(record[k].filename, name)`: the bytes of the name and its NUL, with
no regard for the size of the field. -/
def strcpyFilename (b : Buf) (k : Nat) (name : List Byte) : Buf :=
  put b (sizeofDirRecord * k) (name ++ [0])

/-- `!strcmp(record[k].filename, name)`. -/
def filenameMatches (b : Buf) (k : Nat) (name : List Byte) : Bool :=
  cstrEq b (sizeofDirRecord * k) name

/-- The name held by the 248 bytes of `record[k].filename`. -/
def recordName (b : Buf) (k : Nat) : List Byte :=
  cstr b (sizeofDirRecord * k) simplefsFilenameMaxlen

/-- `record[k].filename` holds a NUL. -/
def RecordTerminated (b : Buf) (k : Nat) : Prop :=
  Terminated b (sizeofDirRecord * k) simplefsFilenameMaxlen

instance (b : Buf) (k : Nat) : Decidable (RecordTerminated b k) :=
  inferInstanceAs (Decidable (∃ i, i < simplefsFilenameMaxlen ∧ b (sizeofDirRecord * k + i) = 0))

@[simp] theorem recordInodeNo_setRecordInodeNo_self (b : Buf) (k : Nat) (v : U64) :
    recordInodeNo (setRecordInodeNo b k v) k = v := get64_put64_self b _ v

theorem recordInodeNo_setRecordInodeNo_ne {b : Buf} {j k : Nat} {v : U64} (h : j ≠ k) :
    recordInodeNo (setRecordInodeNo b k v) j = recordInodeNo b j := by
  refine get64_put64_ne ?_
  unfold sizeofDirRecord
  omega

/-- A name that fits its field leaves every record's number alone. -/
theorem recordInodeNo_strcpyFilename {b : Buf} {j k : Nat} {name : List Byte}
    (hname : name.length < simplefsFilenameMaxlen) :
    recordInodeNo (strcpyFilename b k name) j = recordInodeNo b j := by
  refine get64_put_frame ?_
  unfold simplefsFilenameMaxlen at hname
  unfold sizeofDirRecord
  simp only [List.length_append, List.length_singleton]
  omega

/-! ### Names -/

/-- Filling record `k` does not touch the name of another record. -/
theorem filenameMatches_setRecord_ne {b : Buf} {j k : Nat} {no : U64} {name s : List Byte}
    (hname : name.length ≤ 255) (hs : s.length ≤ 255) (h : j ≠ k) :
    filenameMatches (strcpyFilename (setRecordInodeNo b k no) k name) j s = filenameMatches b j s := by
  refine cstrEq_congr fun i hlo hhi => ?_
  unfold sizeofDirRecord at hlo hhi
  unfold strcpyFilename setRecordInodeNo put64 sizeofDirRecord
  rw [put_frame (by simp only [List.length_append, List.length_singleton]; omega),
    put_frame (by rw [wordBytes_length]; omega)]

/-- The name copied into a record is found there. -/
theorem filenameMatches_strcpyFilename (b : Buf) (k : Nat) (name : List Byte) :
    filenameMatches (strcpyFilename b k name) k name = true := cstrEq_put b _ name

/-- A record matches one name only. -/
theorem filenameMatches_unique {b : Buf} {k : Nat} {s t : List Byte} (hs : 0 ∉ s) (ht : 0 ∉ t)
    (h : filenameMatches b k s = true) (h' : filenameMatches b k t = true) : s = t :=
  cstrEq_unique hs ht h h'

/-- A terminated record matches the name it holds. -/
theorem filenameMatches_iff {b : Buf} {k : Nat} {s : List Byte} (hs : 0 ∉ s)
    (h : RecordTerminated b k) : filenameMatches b k s = true ↔ recordName b k = s :=
  cstrEq_iff_cstr hs h

end Lkm.Simplefs
