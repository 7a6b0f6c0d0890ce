import Lkm.Loading.Modules

/-!
# Which loads leave nothing behind

A history of a module is a sequence of loads, in each of which any of the calls may fail,
and unloads. `leaves_nothing_iff` says for every module with which answers all histories
are in order: nothing is dereferenced that is not there, and whenever the module is not
loaded the kernel holds nothing of it. What stands in the way, module by module:

* `char_device/version2` leaves the character device in its map when the class or the
  device cannot be made, with nobody behind it;
* `mutex` goes on without its class, and `my_exit` looks for the device in it;
* `ioctl_mmap` is never in order: `cdev_init` has made the cdev of `cdev_alloc` one that
  `cdev_del` does not free, and none of the failures is looked at;
* `block_device` is in order only as long as it cannot be loaded at all: the tag set is
  not given back;
* `pci/unknown`, on a machine that has no device for it, undoes little of what is behind
  `cdev_add`;
* `simplefs` keeps its cache when it cannot register, `debugfs` its directory when there
  is no file for it.
-/

namespace Lkm.Loading

open Base Kern

namespace Driver

/-- The loader's view of a module. An exit function asks for nothing that could be refused,
so that it does not matter which answers it is given: they are those of the load. -/
def loadable (d : Driver) : Loadable (List Res) Answers (d.Globals × Answers) Fault Errno where
  init a held := (d.init.run a held).map fun out => (out.1.map (·, a), out.2)
  exit g held := ((d.exit g.1).run g.2 held).map Prod.snd

/-- What is behind a load: an unload, if it has succeeded. -/
def leave (d : Driver) : Except Errno d.Globals → Kern Unit
  | .ok g => d.exit g
  | .error _ => pure ()

/-- A load and, if it has succeeded, an unload. -/
def cycle (d : Driver) : Kern Unit := d.init >>= d.leave

@[simp] theorem run_cycle (d : Driver) (a : Answers) (held : List Res) :
    d.cycle.run a held = (d.init.run a held).bind fun out => (d.leave out.1).run a out.2 := rfl

theorem run_eq_ok_iff {x : Kern Unit} {a : Answers} {held held' : List Res} :
    x.run a held = .ok ((), held') ↔ (x.run a held).map Prod.snd = .ok held' := by
  cases x.run a held with
  | error f => simp [Except.map]
  | ok out => simp [Except.map, Prod.ext_iff]

/-- The loader finds a load clean if nothing is left of it and the unload behind it. -/
theorem clean_iff (d : Driver) (a : Answers) :
    d.loadable.Clean [] a ↔ d.cycle.run a [] = .ok ((), []) := by
  rw [cycle, run_bind]
  cases hinit : d.init.run a [] with
  | error f =>
      refine iff_of_false (Loadable.not_clean_of_fault (f := f) ?_) (fun hok => nomatch hok)
      simp only [loadable, hinit, Except.map]
  | ok out =>
      obtain ⟨r, held⟩ := out
      cases r with
      | error e =>
          rw [Loadable.clean_iff_of_refused (e := e) (w := held)]
          · simp [leave, Except.bind]
          · simp only [loadable, hinit, Except.map]
      | ok g =>
          rw [Loadable.clean_iff_of_loaded (g := (g, a)) (w := held)]
          · exact run_eq_ok_iff.symm
          · simp only [loadable, hinit, Except.map]

end Driver

/-! ## What a program does not give back -/

namespace Kern

section

variable {α β : Type} {r : Res} {a : Answers} {held held' : List Res}

theorem run_bind_ok {x : Kern α} {f : α → Kern β} {z : β} :
    (x >>= f).run a held = .ok (z, held') ↔
      ∃ y held₁, x.run a held = .ok (y, held₁) ∧ (f y).run a held₁ = .ok (z, held') := by
  rw [run_bind]
  cases x.run a held with
  | error e => simp [Except.bind]
  | ok out =>
      obtain ⟨y, held₁⟩ := out
      simp [Except.bind]

/-- Wherever it returns, `r` is still held if it was. -/
def Keeps (r : Res) (x : Kern α) : Prop :=
  ∀ a held y held', x.run a held = .ok (y, held') → r ∈ held → r ∈ held'

theorem Keeps.bind {x : Kern α} {f : α → Kern β} (hx : Keeps r x) (hf : ∀ y, Keeps r (f y)) :
    Keeps r (x >>= f) := by
  intro a held z held' hrun hr
  obtain ⟨y, held₁, hx', hf'⟩ := run_bind_ok.mp hrun
  exact hf y a held₁ z held' hf' (hx a held y held₁ hx' hr)

theorem keeps_pure (y : α) : Keeps r (pure y) := by
  intro a held z held' hrun hr
  cases hrun
  exact hr

theorem keeps_fault : Keeps r (fault : Kern α) := by
  intro a held y held' hrun
  cases hrun

theorem keeps_answer (f : Answers → α) : Keeps r (answer f) := by
  intro a held y held' hrun hr
  cases hrun
  exact hr

theorem keeps_hold (r' : Res) : Keeps r (hold r') := by
  intro a held y held' hrun hr
  cases hrun
  exact List.mem_cons_of_mem r' hr

theorem keeps_drop {r' : Res} (h : r ≠ r') : Keeps r (drop r') := by
  intro a held y held' hrun hr
  cases hrun
  exact (List.mem_erase_of_ne h).mpr hr

theorem keeps_nonNull (p : Option Unit) : Keeps r (nonNull p) := by
  cases p with
  | none => exact keeps_fault
  | some u => exact keeps_pure ()

theorem keeps_noErr (p : Except Errno α) : Keeps r (noErr p) := by
  cases p with
  | error e => exact keeps_fault
  | ok x => exact keeps_pure x

theorem keeps_acquire (r' : Res) (f : Answers → Except Errno Unit) : Keeps r (acquire r' f) := by
  refine (keeps_answer f).bind fun ret => ?_
  cases ret with
  | error e => exact keeps_pure _
  | ok u => exact (keeps_hold r').bind fun _ => keeps_pure _

theorem keeps_acquireOrNull (r' : Res) (f : Answers → Option Unit) :
    Keeps r (acquireOrNull r' f) := by
  refine (keeps_answer f).bind fun p => ?_
  cases p with
  | none => exact keeps_pure _
  | some u => exact (keeps_hold r').bind fun _ => keeps_pure _

theorem mem_of_acquireOrNull {r : Res} {f : Answers → Option Unit}
    (hrun : (acquireOrNull r f).run a held = .ok (some (), held')) : r ∈ held' := by
  obtain ⟨p, held₁, hask, hrest⟩ := run_bind_ok.mp hrun
  cases p with
  | none => cases hrest
  | some u =>
      cases hrest
      exact List.mem_cons_self

end

end Kern

section

variable {r : Res}

theorem keeps_allocChrdevRegion (dev : DevT) : Keeps r (allocChrdevRegion dev) := by
  refine (keeps_answer _).bind fun ret => ?_
  cases ret with
  | error e => exact keeps_pure _
  | ok ma => exact (keeps_hold _).bind fun _ => keeps_pure _

theorem keeps_deviceCreate (i : Nat) (cls : Except Errno Unit) (dev : DevT) :
    Keeps r (deviceCreate i cls dev) := by
  cases cls with
  | error e => exact keeps_pure _
  | ok u =>
      refine (keeps_answer _).bind fun ret => ?_
      cases ret with
      | error e => exact keeps_pure _
      | ok u => exact (keeps_hold _).bind fun _ => keeps_pure _

theorem keeps_classDestroy (cls : Except Errno Unit) (h : r ≠ .cls) : Keeps r (classDestroy cls) := by
  cases cls with
  | error e => exact keeps_pure ()
  | ok u => exact keeps_drop h

theorem keeps_vfree (p : Option Unit) (h : r ≠ .vmalloc) : Keeps r (vfree p) := by
  cases p with
  | none => exact keeps_pure ()
  | some u => exact keeps_drop h

theorem keeps_deviceDestroy (cls : Except Errno Unit) (dev : DevT) (h : r ≠ .device dev) :
    Keeps r (deviceDestroy cls dev) :=
  (keeps_noErr cls).bind fun _ => keeps_drop h

theorem keeps_cdevDel (cdev : Option Unit) (hmap : r ≠ .cdevMap) (hcdev : r ≠ .cdev) :
    Keeps r (cdevDel cdev) :=
  (keeps_nonNull cdev).bind fun _ => (keeps_drop hmap).bind fun _ => keeps_drop hcdev

theorem keeps_cdevAdd (cdev : Option Unit) : Keeps r (cdevAdd cdev) :=
  (keeps_nonNull cdev).bind fun _ => keeps_acquire _ _

end

/-! ## One load of each module -/

def Granted {α : Type} : Except Errno α → Prop
  | .ok _ => True
  | .error _ => False

@[simp] theorem granted_ok {α : Type} (x : α) : Granted (.ok x) := trivial

@[simp] theorem not_granted_error {α : Type} (e : Errno) : ¬ Granted (.error e : Except Errno α) := id

section

variable {a : Answers}

theorem CharV1.cycle_ok : Module.charV1.driver.cycle.run a [] = .ok ((), []) := by
  cases h : a.registerChrdev with
  | error e => simp [Module.driver, Driver.leave, myInit, h, Except.bind]
  | ok u => simp [Module.driver, Driver.leave, myInit, myExit, h, Except.bind]

theorem CharV2.cycle_iff : Module.charV2.driver.cycle.run a [] = .ok ((), []) ↔
    (Granted a.allocChrdevRegion → Granted a.cdevAdd →
      Granted a.classCreate ∧ Granted (a.deviceCreate 0)) := by
  cases halloc : a.allocChrdevRegion with
  | error e => simp [Module.driver, Driver.leave, myInit, halloc, Except.bind]
  | ok ma =>
  cases hadd : a.cdevAdd with
  | error e => simp [Module.driver, Driver.leave, myInit, halloc, hadd, Except.bind]
  | ok u =>
  -- from here on the map has the device
  cases hclass : a.classCreate with
  | error e => simp [Module.driver, Driver.leave, myInit, halloc, hadd, hclass, Except.bind]
  | ok u =>
  cases hdevice : a.deviceCreate 0 with
  | error e => simp [Module.driver, Driver.leave, myInit, halloc, hadd, hclass, hdevice, Except.bind]
  | ok u => simp [Module.driver, Driver.leave, myInit, myExit, halloc, hadd, hclass, hdevice, Except.bind]

theorem Misc.cycle_ok : Module.misc.driver.cycle.run a [] = .ok ((), []) := by
  cases h : a.miscRegister with
  | error e => simp [Module.driver, Driver.leave, myInit, h, Except.bind]
  | ok u => simp [Module.driver, Driver.leave, myInit, myExit, h, Except.bind]

theorem Mutex.cycle_iff : Module.mutex.driver.cycle.run a [] = .ok ((), []) ↔
    (Granted a.allocChrdevRegion → Granted a.classCreate) := by
  cases halloc : a.allocChrdevRegion with
  | error e => simp [Module.driver, Driver.leave, myInit, halloc, Except.bind]
  | ok ma =>
  cases hclass : a.classCreate with
  | error e =>
      cases hadd : a.cdevAdd <;> simp [Module.driver, Driver.leave, myInit, myExit, halloc, hadd, hclass, Except.bind]
  | ok u =>
      cases hadd : a.cdevAdd <;> cases hdevice : a.deviceCreate 0 <;>
        simp [Module.driver, Driver.leave, myInit, myExit, halloc, hadd, hclass, hdevice, Except.bind]

theorem Block.cycle_iff : Module.block.driver.cycle.run a [] = .ok ((), []) ↔
    (a.kmalloc 0 = some () → a.kmalloc 1 = none) := by
  cases hdev : a.kmalloc 0 with
  | none => cases hblk : a.registerBlkdev <;> simp [Module.driver, Driver.leave, myblockDriverInit, hblk, hdev, Except.bind]
  | some u =>
  cases hdata : a.kmalloc 1 with
  | none => cases hblk : a.registerBlkdev <;> simp [Module.driver, Driver.leave, myblockDriverInit, hblk, hdev, hdata, Except.bind]
  | some u =>
  cases hqueue : a.blkMqInitSqQueue with
  | error e =>
      cases hblk : a.registerBlkdev <;>
        simp [Module.driver, myblockDriverInit, hblk, hdev, hdata, hqueue, Except.bind]
  | ok u =>
  cases hdisk : a.allocDisk with
  | none =>
      cases hblk : a.registerBlkdev <;>
        simp [Module.driver, myblockDriverInit, hblk, hdev, hdata, hqueue, hdisk, Except.bind]
  | some u =>
      -- loaded, and the tag set is what the exit function leaves
      cases hblk : a.registerBlkdev <;>
        simp [Module.driver, Driver.leave, myblockDriverInit, myblockDriverExit, hblk, hdev, hdata, hqueue, hdisk, Except.bind]

namespace Mmap

theorem keeps_mmapExit (g : Globals) : Keeps .cdevInited (mmapExit g) := by
  refine (keeps_deviceDestroy _ _ (by nofun)).bind fun _ => ?_
  refine (keeps_classDestroy _ (by nofun)).bind fun _ => ?_
  refine (keeps_cdevDel _ (by nofun) (by nofun)).bind fun _ => ?_
  exact (keeps_drop (by nofun)).bind fun _ => keeps_vfree _ (by nofun)

theorem mem_replace {x y : Res} {held : List Res} (h : x ∈ held) : y ∈ held.replace x y := by
  induction held with
  | nil => cases h
  | cons z held ih =>
      by_cases hz : x = z
      · subst hz
        rw [List.replace_cons_self]
        exact List.mem_cons_self
      · have hx : x ∈ held := (List.mem_cons.mp h).resolve_left hz
        rw [List.replace, beq_false_of_ne hz]
        exact List.mem_cons_of_mem z (ih hx)

/-- `cdev_init` makes the cdev of `cdev_alloc` one that nobody frees. -/
theorem cdevInited_mem {a : Answers} {cdev : Option Unit} {held held' : List Res}
    (hrun : (cdevInit cdev).run a held = .ok ((), held')) (h : cdev = some () → .cdev ∈ held) :
    .cdevInited ∈ held' := by
  obtain ⟨u, held₁, hnull, hreplace⟩ := run_bind_ok.mp hrun
  cases cdev with
  | none => cases hnull
  | some v =>
      cases hnull
      cases hreplace
      exact mem_replace (h rfl)

theorem cdevInited_left {a : Answers} {held : List Res} {out : Except Errno Globals}
    (hrun : mmapInit.run a [] = .ok (out, held)) : .cdevInited ∈ held := by
  obtain ⟨cdev, held₁, hcdev, hrun⟩ := run_bind_ok.mp hrun
  obtain ⟨dev, held₂, hdev, hrun⟩ := run_bind_ok.mp hrun
  obtain ⟨ret, held₃, halloc, hrun⟩ := run_bind_ok.mp hrun
  obtain ⟨⟨⟩, held₄, hinit, hrun⟩ := run_bind_ok.mp hrun
  have hheld : cdev = some () → .cdev ∈ held₃ := by
    rintro rfl
    have hmem : .cdev ∈ held₁ := mem_of_acquireOrNull hcdev
    cases hdev
    exact keeps_allocChrdevRegion _ _ _ _ _ halloc hmem
  -- nothing behind `cdev_init` gives anything back
  refine Keeps.bind (keeps_cdevAdd cdev) (fun _ => ?_) _ _ _ _ hrun (cdevInited_mem hinit hheld)
  refine (keeps_acquire _ _).bind fun cls => ?_
  refine (keeps_deviceCreate _ _ _).bind fun _ => ?_
  refine (keeps_acquireOrNull _ _).bind fun data => ?_
  exact (keeps_nonNull data).bind fun _ => keeps_pure _

theorem not_cycle : Module.mmap.driver.cycle.run a [] ≠ .ok ((), []) := by
  intro hrun
  obtain ⟨out, held, hinit, hleave⟩ := run_bind_ok.mp hrun
  have hleft := cdevInited_left hinit
  cases out with
  | error e =>
      cases hleave
      cases hleft
  | ok g => exact List.not_mem_nil (keeps_mmapExit g _ _ _ _ hleave hleft)

end Mmap

namespace Codec

theorem minor_mkdev_zero (ma : DevT) : minor (mkdev ma 0#32) = 0#32 := by
  have hmask : ∀ i < 32, (0xfffff#32).getLsbD i = decide (i < 20) := by decide
  apply BitVec.eq_of_getLsbD_eq
  intro i hi
  by_cases h : i < 20
  · simp [minor, mkdev, minorbits, h]
  · simp [minor, hmask i hi, h]

theorem getLsbD_mkdev (ma mi : DevT) {i : Nat} (hi : i < minorbits) :
    (mkdev ma mi).getLsbD i = mi.getLsbD i := by
  simp [mkdev, BitVec.getLsbD_or, BitVec.getLsbD_shiftLeft, hi]

theorem deviceNumber_ne (ma : DevT) {k l : DevT} {i : Nat} (hi : i < minorbits)
    (h : k.getLsbD i ≠ l.getLsbD i) :
    deviceNumber (mkdev ma 0#32) k ≠ deviceNumber (mkdev ma 0#32) l := by
  intro heq
  apply h
  have hbit := congrArg (BitVec.getLsbD · i) heq
  simpa only [deviceNumber, minor_mkdev_zero, getLsbD_mkdev _ _ hi, BitVec.zero_add] using hbit

/-- The numbers of the three devices differ. -/
theorem numbers_distinct (ma : DevT) :
    deviceNumber (mkdev ma 0#32) 1#32 ≠ deviceNumber (mkdev ma 0#32) 0#32 ∧
      deviceNumber (mkdev ma 0#32) 2#32 ≠ deviceNumber (mkdev ma 0#32) 0#32 ∧
      deviceNumber (mkdev ma 0#32) 2#32 ≠ deviceNumber (mkdev ma 0#32) 1#32 :=
  ⟨deviceNumber_ne ma (i := 0) (by decide) (by decide),
    deviceNumber_ne ma (i := 1) (by decide) (by decide),
    deviceNumber_ne ma (i := 0) (by decide) (by decide)⟩

theorem cycle_iff : Module.codec.driver.cycle.run a [] = .ok ((), []) ↔
    (Granted a.allocChrdevRegion → a.cdevAlloc = some () → Granted a.cdevAdd →
      Granted a.classCreate ∧ Granted (a.deviceCreate 0) ∧ Granted (a.deviceCreate 1) ∧
        Granted (a.deviceCreate 2) ∧ Granted a.pciRegisterDriver) := by
  cases halloc : a.allocChrdevRegion with
  | error e => simp [Module.driver, Driver.leave, modInit, halloc, Except.bind]
  | ok ma =>
  cases hcdev : a.cdevAlloc with
  | none => simp [Module.driver, Driver.leave, modInit, halloc, hcdev, Except.bind]
  | some u =>
  cases hadd : a.cdevAdd with
  | error e => simp [Module.driver, Driver.leave, modInit, halloc, hcdev, hadd, Except.bind]
  | ok u =>
  cases hclass : a.classCreate with
  | error e => simp [Module.driver, Driver.leave, modInit, halloc, hcdev, hadd, hclass, Except.bind]
  | ok u =>
  cases hregister : a.pciRegisterDriver with
  | error e =>
    -- the class stays, whichever devices the loop meets
    cases h0 : a.deviceCreate 0 <;> cases h1 : a.deviceCreate 1 <;> cases h2 : a.deviceCreate 2 <;>
      simp [Module.driver, Driver.leave, modInit, halloc, hcdev, hadd, hclass, hregister, h0, h1, h2, Except.bind, destroyDevices,
        maxDevices, List.range, List.range.loop, -List.erase_eq_nil_iff] <;>
      exact List.ne_nil_of_mem (a := Res.cls) (by simp [List.mem_erase_of_ne])
  | ok u =>
    obtain ⟨h10, h20, h21⟩ := numbers_distinct (ma.setWidth 32)
    cases h0 : a.deviceCreate 0 <;> cases h1 : a.deviceCreate 1 <;> cases h2 : a.deviceCreate 2 <;>
      simp [Module.driver, Driver.leave, modInit, modExit, halloc, hcdev, hadd, hclass, hregister, h0, h1, h2, Except.bind,
        destroyDevices, maxDevices, List.range, List.range.loop, h10, h20, h21]

end Codec

theorem Simplefs.cycle_iff : Module.simplefs.driver.cycle.run a [] = .ok ((), []) ↔
    (a.kmemCacheCreate = some () → Granted a.registerFilesystem) := by
  cases hcache : a.kmemCacheCreate <;> cases hregister : a.registerFilesystem <;>
    simp [Module.driver, Driver.leave, simplefsInit, simplefsExit, hcache, hregister, Except.bind]

theorem Debugfs.cycle_iff : Module.debugfs.driver.cycle.run a [] = .ok ((), []) ↔
    (a.debugfsCreateDir = some (.ok ()) → a.debugfsCreateFile ≠ none) := by
  cases hdir : a.debugfsCreateDir with
  | none => simp [Module.driver, Driver.leave, initModule, hdir, Except.bind]
  | some dir =>
  cases dir with
  | error e => simp [Module.driver, Driver.leave, initModule, cleanupModule, hdir, Except.bind]
  | ok u =>
  cases hfile : a.debugfsCreateFile with
  | none => simp [Module.driver, Driver.leave, initModule, hdir, hfile, Except.bind]
  | some file => simp [Module.driver, Driver.leave, initModule, cleanupModule, hdir, hfile, Except.bind]

theorem Sysfs.cycle_ok : Module.sysfs.driver.cycle.run a [] = .ok ((), []) := by
  cases hkobj : a.kobjectCreateAndAdd with
  | none => simp [Module.driver, Driver.leave, simpleInit, hkobj, Except.bind]
  | some u =>
  cases hgroup : a.sysfsCreateGroup with
  | error e => simp [Module.driver, Driver.leave, simpleInit, hkobj, hgroup, Except.bind]
  | ok u => simp [Module.driver, Driver.leave, simpleInit, simpleExit, hkobj, hgroup, Except.bind]

end

/-! ## Histories -/

/-- With these answers a load of the module, and the unload behind it, leaves nothing. -/
def Module.Orderly (a : Answers) : Module → Prop
  | .charV1 => True
  | .charV2 => Granted a.allocChrdevRegion → Granted a.cdevAdd →
      Granted a.classCreate ∧ Granted (a.deviceCreate 0)
  | .misc => True
  | .mutex => Granted a.allocChrdevRegion → Granted a.classCreate
  | .mmap => False
  | .block => a.kmalloc 0 = some () → a.kmalloc 1 = none
  | .codec => Granted a.allocChrdevRegion → a.cdevAlloc = some () → Granted a.cdevAdd →
      Granted a.classCreate ∧ Granted (a.deviceCreate 0) ∧ Granted (a.deviceCreate 1) ∧
        Granted (a.deviceCreate 2) ∧ Granted a.pciRegisterDriver
  | .simplefs => a.kmemCacheCreate = some () → Granted a.registerFilesystem
  | .debugfs => a.debugfsCreateDir = some (.ok ()) → a.debugfsCreateFile ≠ none
  | .sysfs => True

theorem cycle_iff_orderly (m : Module) (a : Answers) :
    m.driver.cycle.run a [] = .ok ((), []) ↔ m.Orderly a := by
  cases m with
  | charV1 => exact iff_of_true CharV1.cycle_ok trivial
  | charV2 => exact CharV2.cycle_iff
  | misc => exact iff_of_true Misc.cycle_ok trivial
  | mutex => exact Mutex.cycle_iff
  | mmap => exact iff_of_false Mmap.not_cycle id
  | block => exact Block.cycle_iff
  | codec => exact Codec.cycle_iff
  | simplefs => exact Simplefs.cycle_iff
  | debugfs => exact Debugfs.cycle_iff
  | sysfs => exact iff_of_true Sysfs.cycle_ok trivial

/-- With the answers `A`, in every history of loads and unloads, nothing faults and nothing
of the module is held while it is not loaded, exactly if all of `A` is orderly for it. -/
theorem leaves_nothing_iff (m : Module) (A : Set Answers) :
    (∀ s, (m.driver.loadable.sys []).Reach (fun _ e => e.In A) s → s.Tidy []) ↔
      ∀ a ∈ A, m.Orderly a := by
  rw [Loadable.tidy_iff]
  exact forall₂_congr fun a _ => (m.driver.clean_iff a).trans (cycle_iff_orderly m a)

end Lkm.Loading
