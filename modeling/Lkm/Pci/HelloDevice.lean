import Lkm.Base.Bytes

/-!
# The hello PCI device (`pci/my_pci_device.c`)

The device answers 4-byte accesses to a port space and to a memory space. It keeps
an interrupt status (`threw_irq`), which accesses read and write, and an interrupt
line, which `pci_irq_assert` and `pci_irq_deassert` set. The addresses and values
are those that the memory core hands to the callbacks.

`rand` is the stream of values of the C function. Physical memory is one buffer; a
transfer that lands in the window of a device is not modelled.
-/

namespace Lkm.Pci

open Base

/-- `PCIHelloDevState`, with the level of the interrupt line, the memory that
`cpu_physical_memory_write` writes and the number of values drawn from `rand`. -/
structure PCIHelloDevState where
  dmaSize : Nat
  dmaBuf : Buf
  threwIrq : BitVec 32
  id : BitVec 32
  line : Bool
  ram : Buf
  drawn : Nat

/-- `pci_hellodev_init`. What `malloc` returns is uninitialised. -/
def pciHellodevInit (dmaBuf ram : Buf) : PCIHelloDevState where
  dmaSize := 0x1ffff
  dmaBuf := dmaBuf
  threwIrq := 0
  id := 0x1337
  line := false
  ram := ram
  drawn := 0

/-- A 4-byte access. -/
inductive Access where
  | ioRead (addr : BitVec 64)
  | ioWrite (addr : BitVec 64) (value : BitVec 32)
  | mmioRead (addr : BitVec 64)
  | mmioWrite (addr : BitVec 64) (value : BitVec 32)
deriving DecidableEq

namespace PCIHelloDevState

def pciIrqAssert (d : PCIHelloDevState) : PCIHelloDevState := { d with line := true }

def pciIrqDeassert (d : PCIHelloDevState) : PCIHelloDevState := { d with line := false }

/-- The random transfer: fill `dma_buf` and copy it to the address `value`. -/
def dma (rand : Nat → Byte) (d : PCIHelloDevState) (value : BitVec 64) : PCIHelloDevState :=
  let filled := put d.dmaBuf 0 (slice rand d.drawn d.dmaSize)
  { d with
    dmaBuf := filled
    drawn := d.drawn + d.dmaSize
    ram := put d.ram value.toNat (slice filled 0 d.dmaSize) }

def helloIowrite (rand : Nat → Byte) (d : PCIHelloDevState) (addr value : BitVec 64) :
    PCIHelloDevState :=
  -- the pulse for testing, before the address is looked at
  let d := d.pciIrqAssert.pciIrqDeassert
  if addr = 0 then
    if value ≠ 0 then
      { d with threwIrq := 1 }.pciIrqAssert
    else
      { d.pciIrqDeassert with threwIrq := 0 }
  else if addr = 4 then
    d.dma rand value
  else
    d

def helloIoread (d : PCIHelloDevState) (addr : BitVec 64) : BitVec 64 :=
  if addr = 0 then d.threwIrq.signExtend 64 else 0

def helloMmioread (d : PCIHelloDevState) (addr : BitVec 64) : BitVec 64 :=
  if addr = 0 then d.threwIrq.signExtend 64
  else if addr = 4 then d.id.signExtend 64
  else 0

def helloMmiowrite (d : PCIHelloDevState) (addr value : BitVec 64) : PCIHelloDevState :=
  if addr = 4 then { d with id := value.setWidth 32 } else d

/-- The device after an access, and the four bytes that a read gets. -/
def access (rand : Nat → Byte) (d : PCIHelloDevState) : Access → PCIHelloDevState × BitVec 32
  | .ioRead addr => (d, (d.helloIoread addr).setWidth 32)
  | .ioWrite addr value => (d.helloIowrite rand addr (value.setWidth 64), 0)
  | .mmioRead addr => (d, (d.helloMmioread addr).setWidth 32)
  | .mmioWrite addr value => (d.helloMmiowrite addr (value.setWidth 64), 0)

end PCIHelloDevState

end Lkm.Pci
