import Mathlib.Logic.Function.Basic
import Lkm.Base.Transitions

/-!
# The codec_pci driver (`pci/unknown/simple.c`)

`device_init` and `device_deinit` over what the kernel keeps for the device: the
enable count, the regions, the interrupt vectors, the registered handlers and the
mappings. The static variables survive from one bind to the next.

`Outcome` says how the calls of one `device_init` end. Whatever it says, a region
that is held is refused, vectors are not given out twice or to a caller that wants
fewer than one, a negative interrupt number has no handler, and an address that is
mapped is not handed out again. A release of something that is not held is written
down in `misreleased`.
-/

namespace Lkm.Pci

open Base

/-- `PCIE_BARS`. -/
def pcieBars : Nat := 4

abbrev Bar := Fin pcieBars

/-- The range of the loops. -/
def allBars : List Bar := List.finRange pcieBars

def eio : Int := 5

def einval : Int := 22

def enospc : Int := 28

inductive Misrelease where
  | region (i : Bar)
  | handler (irq : Int)
  | mapping (addr : Nat)

/-- The device, and the static variables of the driver. -/
structure Codec where
  enableCnt : Nat
  regions : Bar → Bool
  /-- The first interrupt number, and how many there are. -/
  vectors : Option (Nat × Nat)
  handlers : List Int
  mappings : List Nat
  misreleased : List Misrelease
  /-- 0 is the null pointer. -/
  bars : Bar → Nat
  msiVecNum : Int
  msi0 : Int
  msi1 : Int
  /-- The last `device_init` returned 0, and `device_deinit` has not been called since. -/
  bound : Bool

/-- How the calls of `device_init` end. -/
structure Outcome where
  enable : Bool
  region : Bar → Bool
  /-- The vectors that `pci_alloc_irq_vectors` has to give, or its error. -/
  granted : Int
  /-- The first of them. -/
  base : Nat
  /-- The interrupt of the device when it has no vectors. -/
  legacy : Nat
  irq0 : Bool
  irq1 : Bool
  /-- What `pci_iomap` returns; 0 is a failure. -/
  addr : Bar → Nat

namespace Codec

def start : Codec where
  enableCnt := 0
  regions := fun _ => false
  vectors := none
  handlers := []
  mappings := []
  misreleased := []
  bars := fun _ => 0
  msiVecNum := 2
  msi0 := -1
  msi1 := -1
  bound := false

/-! ## The calls of the kernel -/

def misrelease (c : Codec) (m : Misrelease) : Codec :=
  { c with misreleased := m :: c.misreleased }

def pciEnableDevice (ok : Bool) (c : Codec) : Bool × Codec :=
  if ok then (true, { c with enableCnt := c.enableCnt + 1 }) else (false, c)

def pciDisableDevice (c : Codec) : Codec := { c with enableCnt := c.enableCnt - 1 }

def pciRequestRegion (i : Bar) (ok : Bool) (c : Codec) : Bool × Codec :=
  if ok ∧ c.regions i = false then (true, { c with regions := Function.update c.regions i true })
  else (false, c)

def pciReleaseRegion (i : Bar) (c : Codec) : Codec :=
  if c.regions i then { c with regions := Function.update c.regions i false }
  else c.misrelease (.region i)

/-- `pci_alloc_irq_vectors(pdev, 1, maxVecs, PCI_IRQ_MSI)`. -/
def pciAllocIrqVectors (granted : Int) (base : Nat) (maxVecs : Int) (c : Codec) : Int × Codec :=
  if c.vectors.isNone ∧ 1 ≤ maxVecs ∧ 1 ≤ granted then
    let n := min granted maxVecs
    (n, { c with vectors := some (base, n.toNat) })
  else
    (if granted < 0 then granted else -enospc, c)

def pciFreeIrqVectors (c : Codec) : Codec := { c with vectors := none }

def pciIrqVector (legacy nr : Nat) (c : Codec) : Int :=
  match c.vectors with
  | some (base, n) => if nr < n then base + nr else -einval
  | none => if nr = 0 then legacy else -einval

def requestIrq (irq : Int) (ok : Bool) (c : Codec) : Bool × Codec :=
  if ok ∧ 0 ≤ irq then (true, { c with handlers := irq :: c.handlers }) else (false, c)

def freeIrq (irq : Int) (c : Codec) : Codec :=
  if irq ∈ c.handlers then { c with handlers := c.handlers.erase irq }
  else c.misrelease (.handler irq)

/-- The address of the new mapping, or 0. -/
def pciIomap (addr : Nat) (c : Codec) : Nat × Codec :=
  if addr = 0 ∨ addr ∈ c.mappings then (0, c)
  else (addr, { c with mappings := addr :: c.mappings })

def pciIounmap (addr : Nat) (c : Codec) : Codec :=
  if addr ∈ c.mappings then { c with mappings := c.mappings.erase addr }
  else c.misrelease (.mapping addr)

/-! ## `device_init` and `device_deinit` -/

/-- The first loop: stops at the first region that is refused. -/
def requestRegions (ok : Bar → Bool) : List Bar → Codec → Bool × Codec
  | [], c => (true, c)
  | i :: is, c =>
      match c.pciRequestRegion i (ok i) with
      | (true, c) => requestRegions ok is c
      | (false, c) => (false, c)

/-- The second loop: `bars[i]` is assigned before it is looked at. -/
def iomapBars (addr : Bar → Nat) : List Bar → Codec → Bool × Codec
  | [], c => (true, c)
  | i :: is, c =>
      let (p, c) := c.pciIomap (addr i)
      let c := { c with bars := Function.update c.bars i p }
      if p = 0 then (false, c) else iomapBars addr is c

/-- `if (bars[i] != NULL) pci_iounmap(pdev, bars[i])`. -/
def iounmapBar (i : Bar) (c : Codec) : Codec :=
  if c.bars i ≠ 0 then c.pciIounmap (c.bars i) else c

/-- The label `cleanup`. -/
def cleanup : List Bar → Codec → Codec
  | [], c => c
  | i :: is, c => cleanup is ((c.iounmapBar i).pciReleaseRegion i)

/-- `device_init` from `pci_alloc_irq_vectors` up to the first `request_irq`. -/
def getVectors (o : Outcome) (c : Codec) : Codec :=
  let r := c.pciAllocIrqVectors o.granted o.base c.msiVecNum
  { r.2 with
    msiVecNum := r.1
    msi0 := r.2.pciIrqVector o.legacy 0
    msi1 := r.2.pciIrqVector o.legacy 1 }

/-- `device_init` from the first `request_irq` on. -/
def connect (o : Outcome) (c : Codec) : Int × Codec :=
  match c.requestIrq c.msi0 o.irq0 with
  | (false, c) => (-eio, c.cleanup allBars)
  | (true, c) =>
  match c.requestIrq c.msi1 o.irq1 with
  | (false, c) => (-eio, c.cleanup allBars)
  | (true, c) =>
  match c.iomapBars o.addr allBars with
  | (false, c) => (-eio, c.cleanup allBars)
  | (true, c) => (0, c)

def deviceInit (o : Outcome) (c : Codec) : Int × Codec :=
  match c.pciEnableDevice o.enable with
  | (false, c) => (-eio, c)
  | (true, c) =>
  match c.requestRegions o.region allBars with
  | (false, c) => (-eio, c)
  | (true, c) => (c.getVectors o).connect o

def releaseRegions : List Bar → Codec → Codec
  | [], c => c
  | i :: is, c => releaseRegions is (c.pciReleaseRegion i)

def iounmapBars : List Bar → Codec → Codec
  | [], c => c
  | i :: is, c => iounmapBars is (c.iounmapBar i)

def deviceDeinit (c : Codec) : Codec :=
  let c := if 0 ≤ c.msi0 then c.freeIrq c.msi0 else c
  let c := if 0 ≤ c.msi1 then c.freeIrq c.msi1 else c
  let c := c.pciFreeIrqVectors
  let c := c.releaseRegions allBars
  let c := c.iounmapBars allBars
  c.pciDisableDevice

end Codec

inductive CodecEvent where
  | init (o : Outcome)
  | deinit

/-- The core calls `device_init` on an unbound device and `device_deinit` on a bound
one. -/
def codecPci : TSys Codec CodecEvent where
  init c := c = Codec.start
  next c
    | .init o =>
        if c.bound then none
        else
          let (ret, c) := c.deviceInit o
          some { c with bound := ret = 0 }
    | .deinit => if c.bound then some { c.deviceDeinit with bound := false } else none

end Lkm.Pci
