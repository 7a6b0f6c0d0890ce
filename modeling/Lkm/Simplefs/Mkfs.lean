import Lkm.Simplefs.Vfs

/-!
# Formatting a device (`mkfs.c`)

`mkfs` writes to the device as a file, by byte offset, in the order of `main`.
Bytes it does not write keep their value, so the image is a function of what
was on the device before.
-/

namespace Lkm.Simplefs

open Base

namespace Mkfs

/-- `block_id`; `NR_BLOCK` is the next value. -/
inductive BlockId where
  | superBlock
  | inode
  | root
  | data1
  | data2
deriving DecidableEq

def BlockId.toNat : BlockId → Nat
  | .superBlock => 0
  | .inode => 1
  | .root => 2
  | .data1 => 3
  | .data2 => 4

def nrBlock : Nat := 5

/-- `inode_id`. -/
def iRoot : U64 := 1
def iData1 : U64 := 2
def iData2 : U64 := 3
def nrInode : U64 := 4

/-- The bytes of a string of ASCII characters. -/
def ascii (cs : List Char) : List Byte := cs.map fun c => BitVec.ofNat 8 c.toNat

/-- An array initialised from fewer bytes is filled up with zeros. -/
def padTo (n : Nat) (xs : List Byte) : List Byte := xs ++ List.replicate (n - xs.length) 0

/-- `(~0) & ~(1 << NR_BLOCK)`, an `int`, in the `uint64_t` field. -/
def initialFreeBlocks : U64 := ((~~~(0 : U32)) &&& ~~~((1 : U32) <<< nrBlock)).signExtend 64

def superblockBytes : List Byte :=
  padTo simplefsDefaultBlockSize
    (wordBytes 8 simplefsMagic ++ wordBytes 8 (BitVec.ofNat 64 simplefsDefaultBlockSize) ++
      wordBytes 8 (nrInode - 1) ++ wordBytes 8 initialFreeBlocks)

def recordBytes (filename : List Byte) (no : U64) : List Byte :=
  padTo simplefsFilenameMaxlen filename ++ wordBytes 8 no

def data1Name : List Byte := ascii ['D', 'a', 't', 'a', '1']
def data2Name : List Byte := ascii ['D', 'a', 't', 'a', '2']
def data1Content : List Byte := ascii ['I', ' ', 'a', 'm', ' ', 'D', 'a', 't', 'a', ' ', '1', '\n']
def data2Content : List Byte := ascii ['I', ' ', 'a', 'm', ' ', 'D', 'a', 't', 'a', ' ', '2', '\n']

def rootInode : SimplefsInode := ⟨sIfdir, 0, iRoot, 2, 2⟩
def d1Inode : SimplefsInode :=
  ⟨sIfreg, 0, iData1, 3, BitVec.ofNat 64 (data1Content.length + 1)⟩
def d2Inode : SimplefsInode :=
  ⟨sIfreg, 0, iData2, 4, BitVec.ofNat 64 (data2Content.length + 1)⟩

def writeSuperblock (dev : Buf) : Buf := put dev 0 superblockBytes

/-- `lseek` to the inode's place, counted from 1, then `write`. -/
def writeInode (dev : Buf) (ino : SimplefsInode) (b : BlockId) : Buf :=
  put dev (b.toNat * simplefsDefaultBlockSize + (ino.inodeNo - 1).toNat * sizeofInode) ino.toBytes

def writeBlock (dev : Buf) (content : List Byte) (b : BlockId) : Buf :=
  put dev (b.toNat * simplefsDefaultBlockSize) (padTo simplefsDefaultBlockSize content)

/-- `main`, on a device that can be opened. -/
def main (dev : Buf) : Buf :=
  let dev := writeSuperblock dev
  let dev := writeInode dev rootInode .inode
  let dev := writeInode dev d1Inode .inode
  let dev := writeInode dev d2Inode .inode
  let dev := writeBlock dev (recordBytes data1Name iData1 ++ recordBytes data2Name iData2) .root
  let dev := writeBlock dev data1Content .data1
  writeBlock dev data2Content .data2

end Mkfs

/-- The blocks of a device. -/
def blocksOf (dev : Buf) : Image := fun b i => dev (b * simplefsDefaultBlockSize + i)

/-- The image that `mkfs` leaves on a device with contents `dev`. -/
def mkfsImage (dev : Buf) : Image := blocksOf (Mkfs.main dev)

end Lkm.Simplefs
