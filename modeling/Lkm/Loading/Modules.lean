import Lkm.Base.Loads

/-!
# Init and exit functions

What the init functions of the modules ask the kernel for, what they do when they do not
get it, and what their exit functions give back:

* **what is held** — `Res`: registrations, nodes and memory that stay in the kernel until
  someone gives them back, whatever becomes of the module;
* **answers** — every call that can fail is answered by `Answers`. A pointer that is NULL
  on failure is an `Option`, one that is an error pointer is an `Except`;
* **giving back** — the kernel's functions take away what is there under the number or
  pointer they are called with and ignore what is not; an error pointer or NULL that is
  dereferenced is a `Fault`.

A module's own variables are fresh in every load.
-/

namespace Lkm.Loading

open Base

abbrev Errno := Nat

def eperm : Errno := 1
def eio : Errno := 5
def enomem : Errno := 12
def enodev : Errno := 19

abbrev DevT := BitVec 32

def minorbits : Nat := 20

/-- `MKDEV`. -/
def mkdev (ma mi : DevT) : DevT := (ma <<< minorbits) ||| mi

/-- `MAJOR`. -/
def major (dev : DevT) : DevT := dev >>> minorbits

/-- `MINOR`. -/
def minor (dev : DevT) : DevT := dev &&& 0xfffff#32

/-- What the kernel keeps for a module. -/
inductive Res where
  | chrdev (major : DevT)
  | chrdevRegion (dev : DevT)
  /-- A `struct cdev` of `cdev_alloc`, freed with its last reference. -/
  | cdev
  /-- The same behind `cdev_init`, which gives it the type of a cdev that is not freed. -/
  | cdevInited
  /-- The entry in the map of character devices. -/
  | cdevMap
  | cls
  | device (dev : DevT)
  | vmalloc
  | kmalloc (i : Nat)
  | blkdev
  | tagSet
  | requestQueue
  | gendisk
  /-- The disk has been announced. -/
  | disk
  | pciDriver
  | kmemCache
  | filesystem
  | dentry
  | kobject
  | attrGroup
  | miscdev
deriving DecidableEq

/-- How the calls of one load come out. `stackDev` is what a `dev_t` on the stack holds
before it is set. -/
structure Answers where
  registerChrdev : Except Errno Unit
  /-- The major number that has been found. -/
  allocChrdevRegion : Except Errno (BitVec 12)
  stackDev : DevT
  cdevAlloc : Option Unit
  cdevAdd : Except Errno Unit
  classCreate : Except Errno Unit
  deviceCreate : Nat → Except Errno Unit
  vmalloc : Option Unit
  kmalloc : Nat → Option Unit
  registerBlkdev : Except Errno Unit
  blkMqInitSqQueue : Except Errno Unit
  allocDisk : Option Unit
  pciRegisterDriver : Except Errno Unit
  kmemCacheCreate : Option Unit
  registerFilesystem : Except Errno Unit
  /-- NULL or an error pointer, depending on the kernel. -/
  debugfsCreateDir : Option (Except Errno Unit)
  debugfsCreateFile : Option (Except Errno Unit)
  kobjectCreateAndAdd : Option Unit
  sysfsCreateGroup : Except Errno Unit
  miscRegister : Except Errno Unit

/-- A NULL or error pointer has been dereferenced. -/
inductive Fault where
  | badPointer
deriving DecidableEq

/-- Code that asks the kernel and changes what is held. -/
structure Kern (α : Type) where
  run : Answers → List Res → Except Fault (α × List Res)

instance : Monad Kern where
  pure x := ⟨fun _ held => .ok (x, held)⟩
  bind x f := ⟨fun a held => (x.run a held).bind fun out => (f out.1).run a out.2⟩

namespace Kern

def answer {α : Type} (f : Answers → α) : Kern α := ⟨fun a held => .ok (f a, held)⟩

def hold (r : Res) : Kern Unit := ⟨fun _ held => .ok ((), r :: held)⟩

def drop (r : Res) : Kern Unit := ⟨fun _ held => .ok ((), held.erase r)⟩

def fault {α : Type} : Kern α := ⟨fun _ _ => .error .badPointer⟩

/-- A pointer that must not be NULL. -/
def nonNull : Option Unit → Kern Unit
  | some () => pure ()
  | none => fault

/-- A pointer that must not be an error. -/
def noErr {α : Type} : Except Errno α → Kern α
  | .ok x => pure x
  | .error _ => fault

/-- Ask, and hold `r` if the answer is good. -/
def acquire (r : Res) (f : Answers → Except Errno Unit) : Kern (Except Errno Unit) := do
  match ← answer f with
  | .ok () =>
      hold r
      return .ok ()
  | .error e => return .error e

def acquireOrNull (r : Res) (f : Answers → Option Unit) : Kern (Option Unit) := do
  match ← answer f with
  | some () =>
      hold r
      return some ()
  | none => return none

section

variable {α β : Type} (a : Answers) (held : List Res)

@[simp] theorem run_pure (x : α) : (pure x : Kern α).run a held = .ok (x, held) := rfl

@[simp] theorem run_bind (x : Kern α) (f : α → Kern β) :
    (x >>= f).run a held = (x.run a held).bind fun out => (f out.1).run a out.2 := rfl

@[simp] theorem run_answer (f : Answers → α) : (answer f).run a held = .ok (f a, held) := rfl

@[simp] theorem run_hold (r : Res) : (hold r).run a held = .ok ((), r :: held) := rfl

@[simp] theorem run_drop (r : Res) : (drop r).run a held = .ok ((), held.erase r) := rfl

@[simp] theorem run_fault : (fault : Kern α).run a held = .error .badPointer := rfl

@[simp] theorem nonNull_some (u : Unit) : nonNull (some u) = pure () := rfl

@[simp] theorem nonNull_none : nonNull none = fault := rfl

@[simp] theorem noErr_ok (x : α) : noErr (.ok x) = pure x := rfl

@[simp] theorem noErr_error (e : Errno) : noErr (.error e : Except Errno α) = fault := rfl

@[simp] theorem run_acquire (r : Res) (f : Answers → Except Errno Unit) :
    (acquire r f).run a held = .ok (f a, match f a with
      | .ok _ => r :: held
      | .error _ => held) := by
  simp only [acquire, run_bind, run_answer, Except.bind]
  cases f a with
  | ok u => rfl
  | error e => rfl

@[simp] theorem run_acquireOrNull (r : Res) (f : Answers → Option Unit) :
    (acquireOrNull r f).run a held = .ok (f a, match f a with
      | some _ => r :: held
      | none => held) := by
  simp only [acquireOrNull, run_bind, run_answer, Except.bind]
  cases f a with
  | some u => rfl
  | none => rfl

end

end Kern

open Kern

/-! ## The kernel's functions

Each with what it does to what is held. -/

section

variable (a : Answers) (held : List Res)

abbrev registerChrdev (ma : DevT) : Kern (Except Errno Unit) := acquire (.chrdev ma) (·.registerChrdev)

abbrev unregisterChrdev (ma : DevT) : Kern Unit := drop (.chrdev ma)

/-- The return value, and `*dev`, which stays as it is on failure. -/
def allocChrdevRegion (dev : DevT) : Kern (Except Errno Unit × DevT) := do
  match ← answer (·.allocChrdevRegion) with
  | .ok ma =>
      hold (.chrdevRegion (mkdev (ma.setWidth 32) 0))
      return (.ok (), mkdev (ma.setWidth 32) 0)
  | .error e => return (.error e, dev)

@[simp] theorem run_allocChrdevRegion (dev : DevT) :
    (allocChrdevRegion dev).run a held =
      match a.allocChrdevRegion with
      | .ok ma =>
          let dev := mkdev (ma.setWidth 32) 0
          .ok ((.ok (), dev), .chrdevRegion dev :: held)
      | .error e => .ok ((.error e, dev), held) := by
  simp only [allocChrdevRegion, run_bind, run_answer, Except.bind]
  cases a.allocChrdevRegion with
  | ok ma => rfl
  | error e => rfl

abbrev unregisterChrdevRegion (dev : DevT) : Kern Unit := drop (.chrdevRegion dev)

abbrev cdevAlloc : Kern (Option Unit) := acquireOrNull .cdev (·.cdevAlloc)

def cdevInit (cdev : Option Unit) : Kern Unit := do
  nonNull cdev
  ⟨fun _ held => .ok ((), held.replace .cdev .cdevInited)⟩

@[simp] theorem run_cdevInit (u : Unit) :
    (cdevInit (some u)).run a held = .ok ((), held.replace .cdev .cdevInited) := rfl

def cdevAdd (cdev : Option Unit) : Kern (Except Errno Unit) := do
  nonNull cdev
  acquire .cdevMap (·.cdevAdd)

@[simp] theorem cdevAdd_some (u : Unit) : cdevAdd (some u) = acquire .cdevMap (·.cdevAdd) := rfl

/-- `kobject_put(&cdev->kobj)`. -/
def cdevPut (cdev : Option Unit) : Kern Unit := do
  nonNull cdev
  drop .cdev

@[simp] theorem cdevPut_some (u : Unit) : cdevPut (some u) = drop .cdev := rfl

def cdevDel (cdev : Option Unit) : Kern Unit := do
  nonNull cdev
  drop .cdevMap
  drop .cdev

@[simp] theorem run_cdevDel (u : Unit) :
    (cdevDel (some u)).run a held = .ok ((), (held.erase .cdevMap).erase .cdev) := rfl

abbrev classCreate : Kern (Except Errno Unit) := acquire .cls (·.classCreate)

/-- An error pointer is ignored. -/
def classDestroy : Except Errno Unit → Kern Unit
  | .ok () => drop .cls
  | .error _ => pure ()

@[simp] theorem classDestroy_ok (u : Unit) : classDestroy (.ok u) = drop .cls := rfl

/-- The `i`-th device that is created, as its number. There is none without a class. -/
def deviceCreate (i : Nat) (cls : Except Errno Unit) (dev : DevT) : Kern (Except Errno DevT) :=
  match cls with
  | .error _ => return .error enodev
  | .ok () => do
      match ← answer (·.deviceCreate i) with
      | .ok () =>
          hold (.device dev)
          return .ok dev
      | .error e => return .error e

@[simp] theorem deviceCreate_error (i : Nat) (e : Errno) (dev : DevT) :
    deviceCreate i (.error e) dev = pure (.error enodev) := rfl

@[simp] theorem run_deviceCreate (i : Nat) (u : Unit) (dev : DevT) :
    (deviceCreate i (.ok u) dev).run a held =
      match a.deviceCreate i with
      | .ok _ => .ok (.ok dev, .device dev :: held)
      | .error e => .ok (.error e, held) := by
  simp only [deviceCreate, run_bind, run_answer, Except.bind]
  cases a.deviceCreate i with
  | ok u => rfl
  | error e => rfl

/-- The device of the class that has this number. -/
def deviceDestroy (cls : Except Errno Unit) (dev : DevT) : Kern Unit := do
  noErr cls
  drop (.device dev)

@[simp] theorem deviceDestroy_ok (u : Unit) (dev : DevT) : deviceDestroy (.ok u) dev = drop (.device dev) := rfl

@[simp] theorem run_deviceDestroy_error (e : Errno) (dev : DevT) :
    (deviceDestroy (.error e) dev).run a held = .error .badPointer := rfl

def deviceUnregister (device : Except Errno DevT) : Kern Unit := do
  let dev ← noErr device
  drop (.device dev)

@[simp] theorem deviceUnregister_ok (dev : DevT) : deviceUnregister (.ok dev) = drop (.device dev) := rfl

@[simp] theorem run_deviceUnregister_error (e : Errno) :
    (deviceUnregister (.error e)).run a held = .error .badPointer := rfl

abbrev vmalloc : Kern (Option Unit) := acquireOrNull .vmalloc (·.vmalloc)

def vfree : Option Unit → Kern Unit
  | some () => drop .vmalloc
  | none => pure ()

abbrev kmalloc (i : Nat) : Kern (Option Unit) := acquireOrNull (.kmalloc i) (·.kmalloc i)

def kfree (i : Nat) : Option Unit → Kern Unit
  | some () => drop (.kmalloc i)
  | none => pure ()

@[simp] theorem kfree_some (i : Nat) (u : Unit) : kfree i (some u) = drop (.kmalloc i) := rfl

abbrev registerBlkdev : Kern (Except Errno Unit) := acquire .blkdev (·.registerBlkdev)

abbrev unregisterBlkdev : Kern Unit := drop .blkdev

/-- Fills the tag set and makes a queue for it; it never returns NULL. -/
def blkMqInitSqQueue : Kern (Except Errno Unit) := do
  match ← acquire .requestQueue (·.blkMqInitSqQueue) with
  | .ok () =>
      hold .tagSet
      return .ok ()
  | .error e => return .error e

@[simp] theorem run_blkMqInitSqQueue :
    blkMqInitSqQueue.run a held =
      .ok (a.blkMqInitSqQueue, match a.blkMqInitSqQueue with
        | .ok _ => .tagSet :: .requestQueue :: held
        | .error _ => held) := by
  simp only [blkMqInitSqQueue, run_bind, run_acquire, Except.bind]
  cases a.blkMqInitSqQueue with
  | ok u => rfl
  | error e => rfl

/-- The tags stay with the tag set. -/
def blkCleanupQueue (queue : Except Errno Unit) : Kern Unit := do
  noErr queue
  drop .requestQueue

@[simp] theorem blkCleanupQueue_ok (u : Unit) : blkCleanupQueue (.ok u) = drop .requestQueue := rfl

abbrev allocDisk : Kern (Option Unit) := acquireOrNull .gendisk (·.allocDisk)

abbrev addDisk : Kern Unit := hold .disk

abbrev delGendisk : Kern Unit := drop .disk

abbrev putDisk : Kern Unit := drop .gendisk

/-- On a machine that has no device for the driver, so that its probe function is not called. -/
abbrev pciRegisterDriver : Kern (Except Errno Unit) := acquire .pciDriver (·.pciRegisterDriver)

abbrev pciUnregisterDriver : Kern Unit := drop .pciDriver

abbrev kmemCacheCreate : Kern (Option Unit) := acquireOrNull .kmemCache (·.kmemCacheCreate)

def kmemCacheDestroy : Option Unit → Kern Unit
  | some () => drop .kmemCache
  | none => pure ()

@[simp] theorem kmemCacheDestroy_some (u : Unit) : kmemCacheDestroy (some u) = drop .kmemCache := rfl

@[simp] theorem kmemCacheDestroy_none : kmemCacheDestroy none = pure () := rfl

abbrev registerFilesystem : Kern (Except Errno Unit) := acquire .filesystem (·.registerFilesystem)

abbrev unregisterFilesystem : Kern Unit := drop .filesystem

def debugfsCreateDir : Kern (Option (Except Errno Unit)) := do
  match ← answer (·.debugfsCreateDir) with
  | some (.ok ()) =>
      hold .dentry
      return some (.ok ())
  | dir => return dir

@[simp] theorem run_debugfsCreateDir :
    debugfsCreateDir.run a held =
      .ok (a.debugfsCreateDir, match a.debugfsCreateDir with
        | some (.ok _) => .dentry :: held
        | _ => held) := by
  simp only [debugfsCreateDir, run_bind, run_answer, Except.bind]
  rcases a.debugfsCreateDir with _ | _ | u
  · rfl
  · rfl
  · rfl

/-- The file goes away with its directory; under an error pointer there is none. -/
def debugfsCreateFile (dir : Except Errno Unit) : Kern (Option (Except Errno Unit)) :=
  match dir with
  | .ok () => answer (·.debugfsCreateFile)
  | .error e => return some (.error e)

@[simp] theorem debugfsCreateFile_ok (u : Unit) :
    debugfsCreateFile (.ok u) = answer (·.debugfsCreateFile) := rfl

@[simp] theorem debugfsCreateFile_error (e : Errno) :
    debugfsCreateFile (.error e) = pure (some (.error e)) := rfl

def debugfsRemoveRecursive : Option (Except Errno Unit) → Kern Unit
  | some (.ok ()) => drop .dentry
  | _ => pure ()

@[simp] theorem debugfsRemoveRecursive_ok (u : Unit) : debugfsRemoveRecursive (some (.ok u)) = drop .dentry := rfl

@[simp] theorem debugfsRemoveRecursive_error (e : Errno) :
    debugfsRemoveRecursive (some (.error e)) = pure () := rfl

abbrev kobjectCreateAndAdd : Kern (Option Unit) := acquireOrNull .kobject (·.kobjectCreateAndAdd)

abbrev sysfsCreateGroup : Kern (Except Errno Unit) := acquire .attrGroup (·.sysfsCreateGroup)

/-- The directory goes with all that is in it. -/
def kobjectPut : Option Unit → Kern Unit
  | some () => do
      drop .attrGroup
      drop .kobject
  | none => pure ()

@[simp] theorem run_kobjectPut (u : Unit) :
    (kobjectPut (some u)).run a held = .ok ((), (held.erase .attrGroup).erase .kobject) := rfl

abbrev miscRegister : Kern (Except Errno Unit) := acquire .miscdev (·.miscRegister)

abbrev miscDeregister : Kern Unit := drop .miscdev

end

/-- An init function, which returns 0 with the module's variables set or an error, and an
exit function. -/
structure Driver where
  Globals : Type
  init : Kern (Except Errno Globals)
  exit : Globals → Kern Unit

/-! ## `char_device/version1/my_dev.c` -/

namespace CharV1

def myMajor : DevT := 66

def myInit : Kern (Except Errno Unit) := registerChrdev myMajor

def myExit (_ : Unit) : Kern Unit := unregisterChrdev myMajor

end CharV1

/-! ## `char_device/version2/simple.c` -/

namespace CharV2

structure Globals where
  myChrDevt : DevT
  myClass : Except Errno Unit

def myInit : Kern (Except Errno Globals) := do
  let (result, myChrDevt) ← allocChrdevRegion 0
  match result with
  | .error e =>
      unregisterChrdevRegion myChrDevt
      return .error e
  | .ok () =>
  cdevInit (some ())
  match ← cdevAdd (some ()) with
  | .error e =>
      unregisterChrdevRegion myChrDevt
      return .error e
  | .ok () =>
  let myClass ← classCreate
  match myClass with
  | .error e =>
      unregisterChrdevRegion myChrDevt
      return .error e
  | .ok () =>
  match ← deviceCreate 0 myClass myChrDevt with
  | .error e =>
      classDestroy myClass
      unregisterChrdevRegion myChrDevt
      return .error e
  | .ok _ => return .ok ⟨myChrDevt, myClass⟩

def myExit (g : Globals) : Kern Unit := do
  deviceDestroy g.myClass g.myChrDevt
  classDestroy g.myClass
  cdevDel (some ())
  unregisterChrdevRegion g.myChrDevt

end CharV2

/-! ## `misc_device/simple.c` -/

namespace Misc

def myInit : Kern (Except Errno Unit) := miscRegister

def myExit (_ : Unit) : Kern Unit := miscDeregister

end Misc

/-! ## `mutex/simple.c` -/

namespace Mutex

structure Globals where
  myDev : DevT
  myClass : Except Errno Unit

def myInit : Kern (Except Errno Globals) := do
  let (ret, myDev) ← allocChrdevRegion 0
  match ret with
  | .error e => return .error e
  | .ok () =>
  cdevInit (some ())
  let _ ← cdevAdd (some ())
  let myClass ← classCreate
  let _ ← deviceCreate 0 myClass (mkdev (major myDev) 0)
  return .ok ⟨myDev, myClass⟩

def myExit (g : Globals) : Kern Unit := do
  cdevDel (some ())
  deviceDestroy g.myClass (mkdev (major g.myDev) 0)
  classDestroy g.myClass
  unregisterChrdevRegion g.myDev

end Mutex

/-! ## `ioctl_mmap/simple.c` -/

namespace Mmap

def minorBase : DevT := 0

structure Globals where
  mmapdevMajor : DevT
  mmapdevCdev : Option Unit
  mmapdevClass : Except Errno Unit
  data : Option Unit

def mmapInit : Kern (Except Errno Globals) := do
  let mmapdevCdev ← cdevAlloc
  let dev ← answer (·.stackDev)
  let (_, dev) ← allocChrdevRegion dev
  let mmapdevMajor := major dev
  cdevInit mmapdevCdev
  let _ ← cdevAdd mmapdevCdev
  let mmapdevClass ← classCreate
  let _ ← deviceCreate 0 mmapdevClass (mkdev mmapdevMajor minorBase)
  let data ← vmalloc
  -- memset
  nonNull data
  return .ok ⟨mmapdevMajor, mmapdevCdev, mmapdevClass, data⟩

def mmapExit (g : Globals) : Kern Unit := do
  let dev := mkdev g.mmapdevMajor minorBase
  deviceDestroy g.mmapdevClass dev
  classDestroy g.mmapdevClass
  cdevDel g.mmapdevCdev
  unregisterChrdevRegion dev
  vfree g.data

end Mmap

/-! ## `block_device/simple.c` -/

namespace Block

structure Globals where
  data : Option Unit
  queue : Except Errno Unit
  gdisk : Option Unit
  blockDevice : Option Unit

/-- The test of the queue for NULL never fires: what comes back on failure is an error
pointer, which the next line dereferences. -/
def myblockDriverInit : Kern (Except Errno Globals) := do
  let _ ← registerBlkdev
  let blockDevice ← kmalloc 0
  match blockDevice with
  | none =>
      unregisterBlkdev
      return .error enomem
  | some () =>
  let data ← kmalloc 1
  match data with
  | none =>
      unregisterBlkdev
      kfree 0 blockDevice
      return .error enomem
  | some () =>
  let queue ← blkMqInitSqQueue
  noErr queue
  let gdisk ← allocDisk
  nonNull gdisk
  addDisk
  return .ok ⟨data, queue, gdisk, blockDevice⟩

def myblockDriverExit (g : Globals) : Kern Unit := do
  match g.gdisk with
  | some () =>
      delGendisk
      putDisk
  | none => pure ()
  -- neither a queue nor an error pointer is NULL
  blkCleanupQueue g.queue
  kfree 1 g.data
  unregisterBlkdev
  kfree 0 g.blockDevice

end Block

/-! ## `pci/unknown/simple.c` -/

namespace Codec

def maxDevices : Nat := 2

structure Globals where
  pciDevNumber : DevT
  driverObject : Option Unit
  pciClass : Except Errno Unit
  pciPrc : Except Errno DevT
  pciIrq0 : Except Errno DevT
  pciIrq1 : Except Errno DevT

/-- The loop over `device_destroy`. Its `MKDEV` is given the whole device number. -/
def destroyDevices (pciClass : Except Errno Unit) (pciDevNumber : DevT) : List Nat → Kern Unit
  | [] => pure ()
  | i :: is => do
      deviceDestroy pciClass (mkdev pciDevNumber (BitVec.ofNat 32 i))
      destroyDevices pciClass pciDevNumber is

def deviceNumber (pciDevNumber i : DevT) : DevT := mkdev (major pciDevNumber) (minor pciDevNumber + i)

def modInit : Kern (Except Errno Globals) := do
  let (ret, pciDevNumber) ← allocChrdevRegion 0
  match ret with
  | .error _ => return .error eio
  | .ok () =>
  let driverObject ← cdevAlloc
  match driverObject with
  | none =>
      unregisterChrdevRegion pciDevNumber
      return .error eio
  | some () =>
  match ← cdevAdd driverObject with
  | .error _ =>
      cdevPut driverObject
      unregisterChrdevRegion pciDevNumber
      return .error eio
  | .ok () =>
  let pciClass ← classCreate
  match pciClass with
  | .error _ =>
      cdevPut driverObject
      unregisterChrdevRegion pciDevNumber
      return .error eio
  | .ok () =>
  let pciPrc ← deviceCreate 0 pciClass (deviceNumber pciDevNumber 0)
  let pciIrq0 ← deviceCreate 1 pciClass (deviceNumber pciDevNumber 1)
  let pciIrq1 ← deviceCreate 2 pciClass (deviceNumber pciDevNumber 2)
  match ← pciRegisterDriver with
  | .error _ =>
      destroyDevices pciClass pciDevNumber (List.range maxDevices)
      unregisterChrdevRegion pciDevNumber
      return .error eio
  | .ok () => return .ok ⟨pciDevNumber, driverObject, pciClass, pciPrc, pciIrq0, pciIrq1⟩

def modExit (g : Globals) : Kern Unit := do
  pciUnregisterDriver
  deviceUnregister g.pciPrc
  deviceUnregister g.pciIrq0
  deviceUnregister g.pciIrq1
  destroyDevices g.pciClass g.pciDevNumber (List.range maxDevices)
  classDestroy g.pciClass
  cdevDel g.driverObject
  unregisterChrdevRegion g.pciDevNumber

end Codec

/-! ## `simplefs/simple.c` -/

namespace Simplefs

def simplefsInit : Kern (Except Errno (Option Unit)) := do
  let sfsInodeCachep ← kmemCacheCreate
  match ← registerFilesystem with
  | .ok () => return .ok sfsInodeCachep
  | .error e => return .error e

def simplefsExit (sfsInodeCachep : Option Unit) : Kern Unit := do
  unregisterFilesystem
  kmemCacheDestroy sfsInodeCachep

end Simplefs

/-! ## `debugfs/simple.c` -/

namespace Debugfs

/-- `debugfs_create_u32` returns nothing; the file goes away with its directory. -/
def initModule : Kern (Except Errno (Option (Except Errno Unit))) := do
  let dir ← debugfsCreateDir
  match dir with
  | none => return .error eperm
  | some parent =>
  match ← debugfsCreateFile parent with
  | none => return .error eperm
  | some _ => return .ok dir

def cleanupModule (dir : Option (Except Errno Unit)) : Kern Unit := debugfsRemoveRecursive dir

end Debugfs

/-! ## `sysfs/simple.c` -/

namespace Sysfs

def simpleInit : Kern (Except Errno (Option Unit)) := do
  let kobj ← kobjectCreateAndAdd
  match kobj with
  | none => return .error enomem
  | some () =>
  match ← sysfsCreateGroup with
  | .error e =>
      kobjectPut kobj
      return .error e
  | .ok () => return .ok kobj

def simpleExit (kobj : Option Unit) : Kern Unit := kobjectPut kobj

end Sysfs

/-- The modules. -/
inductive Module where
  | charV1
  | charV2
  | misc
  | mutex
  | mmap
  | block
  | codec
  | simplefs
  | debugfs
  | sysfs

def Module.driver : Module → Driver
  | .charV1 => ⟨_, CharV1.myInit, CharV1.myExit⟩
  | .charV2 => ⟨_, CharV2.myInit, CharV2.myExit⟩
  | .misc => ⟨_, Misc.myInit, Misc.myExit⟩
  | .mutex => ⟨_, Mutex.myInit, Mutex.myExit⟩
  | .mmap => ⟨_, Mmap.mmapInit, Mmap.mmapExit⟩
  | .block => ⟨_, Block.myblockDriverInit, Block.myblockDriverExit⟩
  | .codec => ⟨_, Codec.modInit, Codec.modExit⟩
  | .simplefs => ⟨_, Simplefs.simplefsInit, Simplefs.simplefsExit⟩
  | .debugfs => ⟨_, Debugfs.initModule, Debugfs.cleanupModule⟩
  | .sysfs => ⟨_, Sysfs.simpleInit, Sysfs.simpleExit⟩

end Lkm.Loading
