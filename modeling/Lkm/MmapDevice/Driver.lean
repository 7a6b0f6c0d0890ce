import Mathlib.Logic.Function.Basic
import Lkm.Base.Bytes

/-!
# The mmap character device (`ioctl_mmap/simple.c`)

The driver keeps one page of ints behind the pointer `data`. It is reached on
three paths, each of which computes an address of its own:

* **`mmap_read`, `mmap_write`** — a user copy at `data + *offset`, pointer
  arithmetic on an `int *`, so the file position counts ints;
* **`mmap_lseek`** — moves the position and checks nothing;
* **`mmap_vm_fault`** — installs the page behind `data + offset` in a mapping,
  where `offset` counts bytes.

Kernel memory is one buffer, in which the copies go wherever the driver sends
them: `Span` records the bytes that a copy touches, relative to `data`. A page is
named by the kernel address of its first byte.
-/

namespace Lkm.MmapDevice

open Base

abbrev LoffT := BitVec 64
abbrev SizeT := BitVec 64

/-- Pointers and `unsigned long`. -/
abbrev Addr := BitVec 64

def pageShift : Nat := 12

def pageSize : Nat := 1 <<< pageShift

/-- `DATA_SIZE`. -/
def dataSize : Nat := 1 * (1 <<< pageShift)

inductive Errno where
  | eio
  | einval
deriving DecidableEq

/-- The value that a function returns for an error. -/
def Errno.ret : Errno → Int
  | .eio => -5
  | .einval => -22

/-- `struct file`. -/
structure File where
  fPos : LoffT

/-- `int *data` plus `n`. -/
def plus (data : Addr) (n : BitVec 64) : Addr := data + 4 * n

/-- `len` bytes of kernel memory, from `start` bytes after `data`. -/
structure Span where
  start : Int
  len : Nat
deriving DecidableEq

/-- The span lies in the page behind `data`. -/
def Span.Inside (s : Span) : Prop := ∀ k : Nat, k < s.len → 0 ≤ s.start + k ∧ s.start + k < dataSize

/-! ## File operations -/

/-- What a file operation returns and leaves: `bytes` went to the user's buffer, and
`touched` is the kernel side of its copy. -/
structure Return where
  ret : Int
  mem : Buf
  filp : File
  offset : LoffT
  bytes : List Byte
  touched : Option Span

def mmapRead (data : Addr) (mem : Buf) (filp : File) (count : SizeT) (offset : LoffT) : Return :=
  if (dataSize : Int) < offset.toInt then ⟨Errno.eio.ret, mem, filp, offset, [], none⟩ else
  let bytes := slice mem (plus data offset).toNat count.toNat
  let touched : Span := ⟨4 * offset.toInt, count.toNat⟩
  let offset := offset + 1
  ⟨count.toInt, mem, ⟨offset⟩, offset, bytes, some touched⟩

/-- `buf` is the user's memory, from the address that the caller passed. -/
def mmapWrite (data : Addr) (mem : Buf) (buf : Buf) (count : SizeT) (offset : LoffT) : Return :=
  let mem := put mem (plus data offset).toNat (slice buf 0 count.toNat)
  let touched : Span := ⟨4 * offset.toInt, count.toNat⟩
  let offset := offset + 1
  ⟨count.toInt, mem, ⟨offset⟩, offset, [], some touched⟩

def seekSet : Int := 0
def seekCur : Int := 1

def mmapLseek (filp : File) (offset : LoffT) (org : Int) : Int × File :=
  if org = seekSet then (offset.toInt, ⟨offset⟩)
  else if org = seekCur then ((filp.fPos + offset).toInt, ⟨filp.fPos + offset⟩)
  else (Errno.einval.ret, filp)

/-- A call on an open file. -/
inductive FileCall where
  | read (count : SizeT)
  | write (buf : Buf) (count : SizeT)
  | lseek (offset : LoffT) (org : Int)

/-- The calls as the kernel makes them: `read` and `write` get a copy of the file's
position, which goes back into the file unless an error is returned. -/
def fileCall (data : Addr) (mem : Buf) (filp : File) : FileCall → Return
  | .read count => settle (mmapRead data mem filp count filp.fPos)
  | .write buf count => settle (mmapWrite data mem buf count filp.fPos)
  | .lseek offset org =>
      let (ret, filp) := mmapLseek filp offset org
      ⟨ret, mem, filp, filp.fPos, [], none⟩
where
  settle (r : Return) : Return := if 0 ≤ r.ret then { r with filp := ⟨r.offset⟩ } else r

/-! ## Mappings -/

/-- `struct vm_area_struct`, and the pages that faults have installed in it. -/
structure Vma where
  vmStart : Addr
  vmEnd : Addr
  pages : Nat → Option Addr

structure VmFault where
  address : Addr
  vma : Vma

/-- The page that holds a kernel address. -/
def vmallocToPage (addr : Addr) : Addr := BitVec.ofNat 64 (addr.toNat / pageSize * pageSize)

/-- `none` is `VM_FAULT_SIGBUS`. -/
def mmapVmFault (data : Addr) : Option VmFault → Option Addr
  | none => none
  | some vmf =>
      let offset := vmf.address - vmf.vma.vmStart
      if dataSize ≤ offset.toNat then none
      else some (vmallocToPage (plus data offset))

/-- The page under byte `off` of a mapping. The first access to a page faults; the
kernel reports the fault at the page's first address. `none` ends in a signal. -/
def Vma.touch (data : Addr) (vma : Vma) (off : Nat) : Option (Addr × Vma) :=
  if (vma.vmEnd - vma.vmStart).toNat ≤ off then none else
  let n := off / pageSize
  match vma.pages n with
  | some page => some (page, vma)
  | none =>
      match mmapVmFault data (some ⟨vma.vmStart + BitVec.ofNat 64 (n * pageSize), vma⟩) with
      | none => none
      | some page => some (page, { vma with pages := Function.update vma.pages n (some page) })

/-! ## The device in use -/

/-- Kernel memory, the open files and the mappings. -/
structure Device where
  mem : Buf
  files : Nat → File
  vmas : Nat → Vma

inductive Call where
  | openFile (f : Nat)
  | file (f : Nat) (c : FileCall)
  | mmap (v : Nat) (vmStart vmEnd : Addr)
  /-- `mapped[i]`, where `mapped` is an `int *` to the start of mapping `v`. -/
  | load (v i : Nat)
  | store (v i : Nat) (x : BitVec 32)

/-- What the caller sees. -/
inductive Reply where
  | ret (n : Int) (bytes : List Byte)
  | loaded (x : BitVec 32)
  | stored
  | signal
deriving DecidableEq

/-- The kernel address of byte `off` of a mapping, given the page under it. -/
def inPage (page : Addr) (off : Nat) : Nat := page.toNat + off % pageSize

def Device.call (data : Addr) (d : Device) : Call → Reply × Device
  | .openFile f => (.ret 0 [], { d with files := Function.update d.files f ⟨0⟩ })
  | .file f c =>
      let r := fileCall data d.mem (d.files f) c
      (.ret r.ret r.bytes, { d with mem := r.mem, files := Function.update d.files f r.filp })
  | .mmap v vmStart vmEnd =>
      (.ret 0 [], { d with vmas := Function.update d.vmas v ⟨vmStart, vmEnd, fun _ => none⟩ })
  | .load v i =>
      match (d.vmas v).touch data (4 * i) with
      | none => (.signal, d)
      | some (page, vma) =>
          (.loaded (getWord 4 32 d.mem (inPage page (4 * i))),
            { d with vmas := Function.update d.vmas v vma })
  | .store v i x =>
      match (d.vmas v).touch data (4 * i) with
      | none => (.signal, d)
      | some (page, vma) =>
          (.stored, { d with
            mem := put d.mem (inPage page (4 * i)) (wordBytes 4 x)
            vmas := Function.update d.vmas v vma })

/-- Calls one after the other. -/
def Device.run (data : Addr) : List Call → Device → List Reply × Device
  | [], d => ([], d)
  | c :: rest, d =>
      let (reply, d) := d.call data c
      let (replies, d) := Device.run data rest d
      (reply :: replies, d)

theorem Device.run_cons (data : Addr) (c : Call) (rest : List Call) (d : Device) :
    d.run data (c :: rest) =
      ((d.call data c).1 :: ((d.call data c).2.run data rest).1,
        ((d.call data c).2.run data rest).2) := rfl

/-- `_mmap_init`, on the page that `vmalloc` returned; no file is open yet. -/
def mmapInit (data : Addr) (mem : Buf) : Device where
  mem := put mem data.toNat (List.replicate dataSize 0)
  files := fun _ => ⟨0⟩
  vmas := fun _ => ⟨0, 0, fun _ => none⟩

end Lkm.MmapDevice
