import Mathlib.Logic.Function.Basic
import Lkm.Base.Transitions
import Lkm.Pci.HelloDevice

/-!
# The hello_tic driver (`pci/driver_pci.c`)

Binding and unbinding of one device, as a transition system over the steps of
`hello_tic_probe`, `hello_tic_remove` and `hello_tic_handler`. What a call of the
kernel returns comes with the event, so every failure is a run.

Of the kernel the model has: `kzalloc` returns an address that is not in use;
`pci_enable_device` and `pci_disable_device` count; a handler that
`devm_request_irq` registered is invoked at any time, one invocation after the
other, until it is released; and it is released after a failed probe or after
`remove` has returned, when no invocation is in progress.
-/

namespace Lkm.Pci

open Base

/-- `struct tic_io`; the name is left out. -/
structure TicIo where
  start : Nat
  size : Nat

/-- `struct tic_mem`; the name is left out. -/
structure TicMem where
  start : Nat
  size : Nat

structure TicInfo where
  mem : TicMem
  port : TicIo
  irq : BitVec 8

/-- `kzalloc`. -/
def TicInfo.zero : TicInfo := ⟨⟨0, 0⟩, ⟨0, 0⟩, 0⟩

/-- An invocation of `hello_tic_handler`: about to read the status, or about to
deassert the interrupt. -/
inductive Handler where
  | entered
  | mine
deriving DecidableEq

/-- The access that an invocation makes next, at an offset from the start of the port. -/
def Handler.access : Handler → Access
  | .entered => .ioRead 0
  | .mine => .ioWrite 0 0

/-- `hello_tic_handler` after that access, which read `value`. -/
def helloTicHandler (value : BitVec 32) : Handler → Option Handler
  | .entered => if value ≠ 0 then some .mine else none
  | .mine => none

/-- Where the driver is: the call that it makes next. -/
inductive Driver where
  | unbound
  | enabling (info : Nat)
  | requesting (info : Nat)
  | remapping (info : Nat)
  | readingConfig (info : Nat)
  | requestingIrq (info : Nat)
  /-- With `left` accesses to the device still to make. -/
  | accessing (info left : Nat)
  | settingDrvdata (info : Nat)
  | outIounmap (info : Nat)
  | outUnrequest (info : Nat)
  | outDisable (info : Nat)
  | outFree (info : Nat)
  | failed
  | bound
  | removeRelease (info : Nat)
  | removeDisable (info : Nat)
  | removeIounmap (info : Nat)
  | removeFree (info : Nat)
  | removed

/-- The base address registers: `pci_resource_start` and `pci_resource_len`. -/
structure Resources where
  start0 : Nat
  len0 : Nat
  len1 : Nat

structure State where
  infos : Nat → Option TicInfo
  enableCnt : Nat
  regions : Bool
  mappings : List Nat
  /-- The registered handler: the interrupt number and `dev_info`. -/
  irq : Option (BitVec 8 × Nat)
  drvdata : Nat
  driver : Driver
  /-- The invocation in progress, with its `dev_info`. -/
  handler : Option (Handler × Nat)

namespace State

def start : State where
  infos := fun _ => none
  enableCnt := 0
  regions := false
  mappings := []
  irq := none
  drvdata := 0
  driver := .unbound
  handler := none

def goto (s : State) (d : Driver) : State := { s with driver := d }

/-- Store to the fields of an object; a pointer to nothing stores nowhere. -/
def modifyInfo (s : State) (info : Nat) (f : TicInfo → TicInfo) : State :=
  { s with infos := Function.update s.infos info ((s.infos info).map f) }

def kfree (s : State) (info : Nat) : State :=
  { s with infos := Function.update s.infos info none }

/-- `iounmap(info->mem[0].start)`. -/
def iounmap (s : State) (info : Nat) : State :=
  match s.infos info with
  | some i => { s with mappings := s.mappings.erase i.mem.start }
  | none => s

/-- The next step of `hello_tic_probe`, whose call returns `ret`; `byte` is what
`pci_read_config_byte` reads. -/
def helloTicProbe (bar : Resources) (ret : Nat) (byte : BitVec 8) (s : State) : Option State :=
  match s.driver with
  | .unbound =>
      -- `kzalloc`
      if ret = 0 then some (s.goto .failed)
      else if (s.infos ret).isSome then none
      else some ({ s with infos := Function.update s.infos ret (some .zero) }.goto (.enabling ret))
  | .enabling info =>
      if ret ≠ 0 then some (s.goto (.outFree info))
      else some ({ s with enableCnt := s.enableCnt + 1 }.goto (.requesting info))
  | .requesting info =>
      if ret ≠ 0 then some (s.goto (.outDisable info))
      else
        let s := { s with regions := true }
        let s := s.modifyInfo info fun i => { i with port := ⟨bar.start0, bar.len0⟩ }
        some (s.goto (.remapping info))
  | .remapping info =>
      -- `pci_ioremap_bar`
      let s := s.modifyInfo info fun i => { i with mem := ⟨ret, bar.len1⟩ }
      if ret = 0 then some (s.goto (.outUnrequest info))
      else some ({ s with mappings := ret :: s.mappings }.goto (.readingConfig info))
  | .readingConfig info =>
      let s := s.modifyInfo info fun i => { i with irq := byte }
      if ret ≠ 0 then some (s.goto (.outIounmap info))
      else some (s.goto (.requestingIrq info))
  | .requestingIrq info =>
      if ret ≠ 0 then some (s.goto (.outIounmap info))
      else
        let irq := ((s.infos info).map TicInfo.irq).getD 0
        -- two reads and a write of the id, `outb` and `outl`
        some ({ s with irq := some (irq, info) }.goto (.accessing info 5))
  | .accessing info (left + 1) => some (s.goto (.accessing info left))
  | .accessing info 0 => some (s.goto (.settingDrvdata info))
  | .settingDrvdata info => some ({ s with drvdata := info }.goto .bound)
  | .outIounmap info => some ((s.iounmap info).goto (.outUnrequest info))
  | .outUnrequest info => some ({ s with regions := false }.goto (.outDisable info))
  | .outDisable info => some ({ s with enableCnt := s.enableCnt - 1 }.goto (.outFree info))
  | .outFree info => some ((s.kfree info).goto .failed)
  | _ => none

/-- The next step of `hello_tic_remove`. -/
def helloTicRemove (s : State) : Option State :=
  match s.driver with
  | .bound => some (s.goto (.removeRelease s.drvdata))
  | .removeRelease info => some ({ s with regions := false }.goto (.removeDisable info))
  | .removeDisable info => some ({ s with enableCnt := s.enableCnt - 1 }.goto (.removeIounmap info))
  | .removeIounmap info => some ((s.iounmap info).goto (.removeFree info))
  | .removeFree info => some ((s.kfree info).goto .removed)
  | _ => none

/-- The core releases what devm has registered. -/
def devmRelease (s : State) : Option State :=
  match s.driver, s.handler with
  | .failed, none => some ({ s with irq := none }.goto .unbound)
  | .removed, none => some ({ s with irq := none }.goto .unbound)
  | _, _ => none

/-- An interrupt on the shared line. -/
def interrupt (s : State) : Option State :=
  match s.irq, s.handler with
  | some (_, info), none => some { s with handler := some (.entered, info) }
  | _, _ => none

/-- The next access of the invocation in progress. -/
def handle (value : BitVec 32) (s : State) : Option State :=
  s.handler.map fun (h, info) =>
    { s with handler := (helloTicHandler value h).map fun h => (h, info) }

end State

inductive Event where
  | probe (ret : Nat) (byte : BitVec 8)
  | remove
  | devmRelease
  | interrupt
  | handler (value : BitVec 32)

/-- The driver and one device, from the loading of the module on. -/
def helloTic (bar : Resources) : TSys State Event where
  init s := s = State.start
  next s
    | .probe ret byte => s.helloTicProbe bar ret byte
    | .remove => s.helloTicRemove
    | .devmRelease => s.devmRelease
    | .interrupt => s.interrupt
    | .handler value => s.handle value

end Lkm.Pci
