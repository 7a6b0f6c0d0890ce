import Lkm.Base.Bytes

/-!
# The RAM block device (`block_device/simple.c`)

The driver keeps the device in one kmalloc'ed buffer and serves a request by
copying between that buffer and the request's segments:

* **the device** — `BlockDev`, with the fields that serving reads; the tag set,
  the queue and the disk are the block layer's;
* **requests** — a start sector, a direction and a list of segments. A segment
  is its memory, whose length is `bv_len`;
* **copies** — `memcpy` has no meaning outside the device's buffer or outside the
  segment, so the code that makes such a copy stops with a fault.

`blk_update_request` belongs to the kernel and is a parameter.
-/

namespace Lkm.BlockDevice

open Base

abbrev SectorT := BitVec 64
abbrev LoffT := BitVec 64

def sectorShift : Nat := 9

structure BlockDev where
  capacity : SectorT
  data : Buf

/-- `struct bio_vec`; `bv_len` is an `unsigned int`. -/
structure BioVec where
  mem : List Byte
  short : mem.length < 2 ^ 32

def BioVec.bvLen (bvec : BioVec) : BitVec 32 := BitVec.ofNat 32 bvec.mem.length

/-- Store bytes at the start of the segment. -/
def BioVec.fill (bvec : BioVec) (bytes : List Byte) (h : bytes.length ≤ bvec.mem.length) : BioVec where
  mem := bytes ++ bvec.mem.drop bytes.length
  short := by
    have := bvec.short
    simp only [List.length_append, List.length_drop]
    omega

/-- `rq_data_dir(rq)`. -/
inductive DataDir where
  | read
  | write
deriving DecidableEq

/-- `struct request`: `blk_rq_pos(rq)`, its direction and its segments. -/
structure Request where
  blkRqPos : SectorT
  dataDir : DataDir
  segments : List BioVec

inductive BlkStatus where
  | ok
  | ioerr
deriving DecidableEq

inductive Errno where
  | enomem
deriving DecidableEq

/-- `BUG()`, and copies that leave the device's buffer or a segment. -/
inductive Fault where
  | bug
  | outOfData (off len : Nat)
  | outOfSegment (len : Nat)
deriving DecidableEq

/-! ## Serving a request -/

/-- `dev_size`, which is also the size of the buffer behind `dev->data`. -/
def BlockDev.devSize (dev : BlockDev) : LoffT := dev.capacity <<< sectorShift

/-- What the loop of `do_request` carries from one segment to the next. -/
structure Progress where
  pos : LoffT
  dev : BlockDev
  nrBytes : BitVec 32

/-- One turn of the loop. The sum is unsigned: `b_len` is an `unsigned long`. -/
def doSegment (dir : DataDir) (bvec : BioVec) (s : Progress) : Except Fault (BioVec × Progress) :=
  let devSize := s.dev.devSize
  let bLen : BitVec 64 := bvec.bvLen.setWidth 64
  let bLen := if devSize < s.pos + bLen then devSize - s.pos else bLen
  let next (dev : BlockDev) : Progress := ⟨s.pos + bLen, dev, s.nrBytes + bLen.setWidth 32⟩
  if s.pos.toNat + bLen.toNat ≤ devSize.toNat then
    if h : bLen.toNat ≤ bvec.mem.length then
      match dir with
      | .write => .ok (bvec, next
          { s.dev with data := put s.dev.data s.pos.toNat (bvec.mem.take bLen.toNat) })
      | .read => .ok (bvec.fill (slice s.dev.data s.pos.toNat bLen.toNat)
          (by rwa [slice_length]), next s.dev)
    else .error (.outOfSegment bLen.toNat)
  else .error (.outOfData s.pos.toNat bLen.toNat)

/-- `rq_for_each_segment`. -/
def doSegments (dir : DataDir) : List BioVec → Progress → Except Fault (List BioVec × Progress)
  | [], s => .ok ([], s)
  | bvec :: rest, s => do
      let (bvec, s) ← doSegment dir bvec s
      let (rest, s) ← doSegments dir rest s
      return (bvec :: rest, s)

/-- The return value of `do_request`, and what it did to the request's segments,
the device and `*nr_bytes`. -/
structure Served where
  ret : Int
  segments : List BioVec
  dev : BlockDev
  nrBytes : BitVec 32

def doRequest (rq : Request) (dev : BlockDev) (nrBytes : BitVec 32) : Except Fault Served := do
  let (segments, s) ← doSegments rq.dataDir rq.segments ⟨rq.blkRqPos <<< sectorShift, dev, nrBytes⟩
  return ⟨0, segments, s.dev, s.nrBytes⟩

/-- What the block layer gets back: the status, the `nr_bytes` it was told, and the
request's segments. -/
structure Reply where
  status : BlkStatus
  nrBytes : BitVec 32
  segments : List BioVec

def queueRq (blkUpdateRequest : Request → BlkStatus → BitVec 32 → Bool) (rq : Request)
    (dev : BlockDev) : Except Fault (Reply × BlockDev) := do
  let served ← doRequest rq dev 0
  let status := if served.ret ≠ 0 then .ioerr else BlkStatus.ok
  if blkUpdateRequest { rq with segments := served.segments } status served.nrBytes then
    .error .bug
  else return (⟨status, served.nrBytes, served.segments⟩, served.dev)

/-- Requests one after the other. -/
def serve (blkUpdateRequest : Request → BlkStatus → BitVec 32 → Bool) :
    List Request → BlockDev → Except Fault (List Reply × BlockDev)
  | [], dev => .ok ([], dev)
  | rq :: rest, dev => do
      let (reply, dev) ← queueRq blkUpdateRequest rq dev
      let (replies, dev) ← serve blkUpdateRequest rest dev
      return (reply :: replies, dev)

/-! ## Loading the module -/

/-- Which allocations succeed, and what is in the fresh data buffer. -/
structure Allocations where
  blockDevice : Bool
  data : Option Buf
  queue : Bool

def myblockDriverInit (pageSize : Nat) (alloc : Allocations) : Except Errno BlockDev :=
  if !alloc.blockDevice then .error .enomem else
  let capacity : SectorT := (112 * BitVec.ofNat 64 pageSize) >>> 9
  match alloc.data with
  | none => .error .enomem
  | some data => if !alloc.queue then .error .enomem else .ok ⟨capacity, data⟩

end Lkm.BlockDevice
