import Lkm.MmapDevice.Driver

/-!
# The page as an array of ints

Two questions about the same three access paths:

* **where they go** — nothing in the driver ties a position or a count to the size
  of the page. `stays_in_page_iff` says which sequences of calls on a file keep to
  it;
* **what they find** — as long as the positions in use are indices of the array,
  reads, writes and mapped accesses meet in one array of 1024 ints. `Shared` is
  that array, as the list of the stores made to it, and `Sim` ties it to the
  driver's state.
-/

namespace Lkm.MmapDevice

open Base

/-! ## Which bytes a call touches -/

theorem Span.inside_iff (s : Span) :
    s.Inside ↔ s.len = 0 ∨ (0 ≤ s.start ∧ s.start + s.len ≤ dataSize) := by
  constructor
  · intro h
    by_cases hlen : s.len = 0
    · exact .inl hlen
    · have hfirst := h 0 (by omega)
      have hlast := h (s.len - 1) (by omega)
      right
      omega
  · rintro (hlen | ⟨hlo, hhi⟩) k hk
    · omega
    · omega

/-- Where a call leaves the position of its file. -/
def FileCall.move (p : LoffT) : FileCall → LoffT
  | .read _ => if (dataSize : Int) < p.toInt then p else p + 1
  | .write _ _ => p + 1
  | .lseek offset org => if org = seekSet then offset else if org = seekCur then p + offset else p

/-- The position of a fresh file after some calls. -/
def position (calls : List FileCall) : LoffT := calls.foldl FileCall.move 0

/-- Memory and file after a call. -/
def fileStep (data : Addr) (s : Buf × File) (c : FileCall) : Buf × File :=
  ((fileCall data s.1 s.2 c).mem, (fileCall data s.1 s.2 c).filp)

/-- What the last of some calls on a fresh file returns. -/
def returnAfter (data : Addr) (mem : Buf) (before : List FileCall) (c : FileCall) : Return :=
  let s := before.foldl (fileStep data) (mem, ⟨0⟩)
  fileCall data s.1 s.2 c

/-- Each `read` and `write` of the sequence that does not return an error touches
only bytes of the page. -/
def StaysInPage (data : Addr) (mem : Buf) (calls : List FileCall) : Prop :=
  ∀ before c rest, calls = before ++ c :: rest → ∀ span,
    0 ≤ (returnAfter data mem before c).ret →
    (returnAfter data mem before c).touched = some span → span.Inside

theorem fileCall_fPos (data : Addr) (mem : Buf) (filp : File) (c : FileCall) :
    (fileCall data mem filp c).filp.fPos = c.move filp.fPos := by
  cases c with
  | read count =>
      simp only [fileCall, fileCall.settle, mmapRead, FileCall.move]
      by_cases hguard : (dataSize : Int) < filp.fPos.toInt
      · simp [hguard, Errno.ret]
      · by_cases hret : 0 ≤ count.toInt <;> simp [hguard, hret]
  | write buf count =>
      simp only [fileCall, fileCall.settle, mmapWrite, FileCall.move]
      by_cases hret : 0 ≤ count.toInt <;> simp [hret]
  | lseek offset org =>
      simp only [fileCall, mmapLseek, FileCall.move]
      by_cases hset : org = seekSet
      · simp [hset]
      · by_cases hcur : org = seekCur
        · simp [hcur, show seekCur ≠ seekSet by decide]
        · simp [hset, hcur]

theorem position_after (data : Addr) (calls : List FileCall) (s : Buf × File) :
    (calls.foldl (fileStep data) s).2.fPos = calls.foldl FileCall.move s.2.fPos := by
  induction calls generalizing s with
  | nil => rfl
  | cons c rest ih =>
      rw [List.foldl_cons, List.foldl_cons, ih]
      show rest.foldl FileCall.move (fileCall data s.1 s.2 c).filp.fPos = _
      rw [fileCall_fPos]

/-- `count` bytes from position `p` are in the page, or no byte is asked for, or the
count is negative as a result. -/
def Within (p : LoffT) (count : SizeT) : Prop :=
  count.toInt < 0 ∨ count.toNat = 0 ∨ (0 ≤ p.toInt ∧ 4 * p.toInt + count.toNat ≤ dataSize)

/-- What a caller has to observe at position `p`; only `mmap_read` gives up past the
end, and only past 4096 ints. -/
def FileCall.Fits (p : LoffT) : FileCall → Prop
  | .read count => (dataSize : Int) < p.toInt ∨ Within p count
  | .write _ count => Within p count
  | .lseek _ _ => True

/-- The copy of `count` bytes at position `p` keeps to the page. -/
theorem within_iff (p : LoffT) (count : SizeT) :
    Within p count ↔ (0 ≤ count.toInt → (⟨4 * p.toInt, count.toNat⟩ : Span).Inside) := by
  rw [Span.inside_iff]
  unfold Within
  constructor
  · rintro (hneg | hzero | ⟨hlo, hhi⟩) hret
    · omega
    · exact .inl hzero
    · have hstart : 0 ≤ 4 * p.toInt := by omega
      exact .inr ⟨hstart, hhi⟩
  · intro h
    by_cases hret : 0 ≤ count.toInt
    · rcases h hret with hzero | ⟨hlo, hhi⟩
      · exact .inr (.inl hzero)
      · have hstart : 0 ≤ 4 * p.toInt := hlo
        exact .inr (.inr ⟨by omega, hhi⟩)
    · exact .inl (by omega)

theorem fits_iff (data : Addr) (mem : Buf) (filp : File) (c : FileCall) :
    c.Fits filp.fPos ↔ ∀ span, 0 ≤ (fileCall data mem filp c).ret →
      (fileCall data mem filp c).touched = some span → span.Inside := by
  cases c with
  | read count =>
      simp only [FileCall.Fits, fileCall, fileCall.settle, mmapRead]
      by_cases hguard : (dataSize : Int) < filp.fPos.toInt
      · simp [hguard, Errno.ret]
      · simp only [hguard, if_false, false_or, within_iff]
        by_cases hret : 0 ≤ count.toInt
        · simp [hret]
        · simp [hret]
  | write buf count =>
      simp only [FileCall.Fits, fileCall, fileCall.settle, mmapWrite, within_iff]
      by_cases hret : 0 ≤ count.toInt
      · simp [hret]
      · simp [hret]
  | lseek offset org =>
      simp [FileCall.Fits, fileCall]

/-- The driver keeps to its page exactly in the sequences whose reads and writes fit
the page by themselves. -/
theorem stays_in_page_iff (data : Addr) (mem : Buf) (calls : List FileCall) :
    StaysInPage data mem calls ↔
      ∀ before c rest, calls = before ++ c :: rest → c.Fits (position before) := by
  have hpos : ∀ before, (before.foldl (fileStep data) (mem, ⟨0⟩)).2.fPos = position before :=
    fun before => position_after data before (mem, ⟨0⟩)
  constructor
  · intro h before c rest hcalls
    rw [← hpos, fits_iff data (before.foldl (fileStep data) (mem, ⟨0⟩)).1]
    exact h before c rest hcalls
  · intro h before c rest hcalls
    have hfits := h before c rest hcalls
    rw [← hpos, fits_iff data (before.foldl (fileStep data) (mem, ⟨0⟩)).1] at hfits
    exact hfits

/-- One `int` read just past the array: the guard of `mmap_read` counts ints up to the
size in bytes. -/
theorem read_past_page :
    (returnAfter 0x1000 (fun _ => 0) [.lseek 1024 seekSet] (.read 4)).ret = 4 ∧
      (returnAfter 0x1000 (fun _ => 0) [.lseek 1024 seekSet] (.read 4)).touched = some ⟨4096, 4⟩ ∧
      ((⟨4096, 4⟩ : Span).Inside ↔ False) := by
  refine ⟨by decide, by decide, ?_⟩
  rw [Span.inside_iff]
  decide

/-! ## The shared array -/

/-- The calls that take the device for an array of ints. -/
inductive IntCall where
  | openFile (f : Nat)
  | read (f : Nat)
  | write (f : Nat) (buf : Buf)
  | seekSet (f : Nat) (offset : LoffT)
  | seekCur (f : Nat) (offset : LoffT)
  /-- A mapping of one page. -/
  | mmap (v : Nat) (vmStart : Addr)
  | load (v i : Nat)
  | store (v i : Nat) (x : BitVec 32)

def IntCall.call : IntCall → Call
  | .openFile f => .openFile f
  | .read f => .file f (.read 4)
  | .write f buf => .file f (.write buf 4)
  | .seekSet f offset => .file f (.lseek offset MmapDevice.seekSet)
  | .seekCur f offset => .file f (.lseek offset MmapDevice.seekCur)
  | .mmap v vmStart => .mmap v vmStart (vmStart + BitVec.ofNat 64 pageSize)
  | .load v i => .load v i
  | .store v i x => .store v i x

/-- The `int` in the user's buffer. -/
def userInt (buf : Buf) : BitVec 32 := getWord 4 32 buf 0

/-- An array of ints, as the stores that were made to it, the most recent first. -/
structure Shared where
  pos : Nat → LoffT
  mapped : Nat → Bool
  stores : List (Nat × BitVec 32)

namespace Shared

def init : Shared := ⟨fun _ => 0, fun _ => false, []⟩

/-- The int that was last stored at an index. -/
def lastStored (s : Shared) (i : Nat) : BitVec 32 :=
  match s.stores.find? (·.1 == i) with
  | some st => st.2
  | none => 0

def seek (s : Shared) (f : Nat) (p : LoffT) : Shared := { s with pos := Function.update s.pos f p }

def stored (s : Shared) (i : Nat) (x : BitVec 32) : Shared := { s with stores := (i, x) :: s.stores }

def call (s : Shared) : IntCall → Reply × Shared
  | .openFile f => (.ret 0 [], s.seek f 0)
  | .read f => (.ret 4 (wordBytes 4 (s.lastStored (s.pos f).toNat)), s.seek f (s.pos f + 1))
  | .write f buf => (.ret 4 [], (s.stored (s.pos f).toNat (userInt buf)).seek f (s.pos f + 1))
  | .seekSet f offset => (.ret offset.toInt [], s.seek f offset)
  | .seekCur f offset => (.ret (s.pos f + offset).toInt [], s.seek f (s.pos f + offset))
  | .mmap v _ => (.ret 0 [], { s with mapped := Function.update s.mapped v true })
  | .load _ i => (.loaded (s.lastStored i), s)
  | .store _ i x => (.stored, s.stored i x)

def run : List IntCall → Shared → List Reply × Shared
  | [], s => ([], s)
  | c :: rest, s =>
      let (reply, s) := s.call c
      let (replies, s) := run rest s
      (reply :: replies, s)

/-- The position in use, or the index, is one of the array. -/
def Admits (s : Shared) : IntCall → Prop
  | .read f | .write f _ => 0 ≤ (s.pos f).toInt ∧ (s.pos f).toInt < 1024
  | .load v i | .store v i _ => s.mapped v = true ∧ i < 1024
  | _ => True

def AdmitsAll : List IntCall → Shared → Prop
  | [], _ => True
  | c :: rest, s => s.Admits c ∧ AdmitsAll rest (s.call c).2

theorem run_cons (c : IntCall) (rest : List IntCall) (s : Shared) :
    s.run (c :: rest) =
      ((s.call c).1 :: ((s.call c).2.run rest).1, ((s.call c).2.run rest).2) := rfl

theorem lastStored_stored (s : Shared) (i j : Nat) (x : BitVec 32) :
    (s.stored i x).lastStored j = if i = j then x else s.lastStored j := by
  unfold lastStored stored
  by_cases h : i = j
  · simp [h]
  · simp [h]

end Shared

/-- The mapping shows the array's page. -/
structure OnePage (data : Addr) (vma : Vma) : Prop where
  size : (vma.vmEnd - vma.vmStart).toNat = pageSize
  page : ∀ p, vma.pages 0 = some p → p = data

/-- The driver's state holds the array. -/
structure Sim (data : Addr) (d : Device) (s : Shared) : Prop where
  cells : ∀ i, i < 1024 → getWord 4 32 d.mem (data.toNat + 4 * i) = s.lastStored i
  pos : ∀ f, (d.files f).fPos = s.pos f
  vmas : ∀ v, s.mapped v = true → OnePage data (d.vmas v)

section

variable {data : Addr} (hdata : data.toNat % pageSize = 0)

theorem toNat_of_index {p : LoffT} (h : 0 ≤ p.toInt ∧ p.toInt < 1024) : p.toNat < 1024 := by
  have := p.isLt
  rw [BitVec.toInt_eq_toNat_cond] at h
  split at h <;> omega

include hdata in
/-- `data + n`, for an index of the array. -/
theorem plus_toNat {n : BitVec 64} (h : n.toNat < 1024) :
    (plus data n).toNat = data.toNat + 4 * n.toNat := by
  have hlt := data.isLt
  have haligned : data.toNat % 4096 = 0 := hdata
  unfold plus
  rw [BitVec.toNat_add, BitVec.toNat_mul, show (4 : BitVec 64).toNat = 4 from rfl]
  omega

include hdata in
/-- The page at the start of a mapping is the array's. -/
theorem OnePage.touch {vma : Vma} (h : OnePage data vma) {i : Nat} (hi : i < 1024) :
    ∃ vma', vma.touch data (4 * i) = some (data, vma') ∧ OnePage data vma' := by
  have hindex : 4 * i / pageSize = 0 := Nat.div_eq_of_lt (by unfold pageSize pageShift; omega)
  have hinside : ¬ (vma.vmEnd - vma.vmStart).toNat ≤ 4 * i := by
    rw [h.size]
    unfold pageSize pageShift
    omega
  unfold Vma.touch
  simp only [if_neg hinside, hindex]
  cases hpage : vma.pages 0 with
  | some page =>
      have heq : page = data := h.page page hpage
      exact ⟨vma, by rw [heq], h⟩
  | none =>
      -- the first access: the fault is at `vm_start`
      have hfault : mmapVmFault data (some ⟨vma.vmStart + BitVec.ofNat 64 (0 * pageSize), vma⟩) =
          some data := by
        have hzero : vma.vmStart + BitVec.ofNat 64 (0 * pageSize) - vma.vmStart = 0 := by simp
        have hwhole : vmallocToPage data = data := by
          apply BitVec.eq_of_toNat_eq
          have hlt := data.isLt
          have hmul : data.toNat / pageSize * pageSize = data.toNat :=
            Nat.div_mul_cancel (Nat.dvd_of_mod_eq_zero hdata)
          unfold vmallocToPage
          rw [BitVec.toNat_ofNat, hmul, Nat.mod_eq_of_lt hlt]
        simp only [mmapVmFault, hzero, plus]
        rw [if_neg (by decide), show data + 4 * 0 = data by simp, hwhole]
      rw [hfault]
      refine ⟨_, rfl, h.size, ?_⟩
      intro p hp
      have hinstalled : some data = some p := by simpa using hp
      exact (Option.some.inj hinstalled).symm

theorem inPage_index (data : Addr) {i : Nat} (hi : i < 1024) : inPage data (4 * i) = data.toNat + 4 * i := by
  unfold inPage
  rw [Nat.mod_eq_of_lt (by unfold pageSize pageShift; omega)]

variable {d : Device} {s : Shared}

/-- A store of four bytes at index `i`. -/
theorem Sim.store (h : Sim data d s) (i : Nat) {bytes : List Byte} {x : BitVec 32}
    (hlen : bytes.length = 4)
    (hx : getWord 4 32 (put d.mem (data.toNat + 4 * i) bytes) (data.toNat + 4 * i) = x) :
    Sim data { d with mem := put d.mem (data.toNat + 4 * i) bytes } (s.stored i x) := by
  refine ⟨?_, h.pos, h.vmas⟩
  intro j hj
  rw [Shared.lastStored_stored]
  by_cases hij : i = j
  · rw [if_pos hij, ← hij, hx]
  · rw [if_neg hij, ← h.cells j hj]
    apply getWord_put_frame
    omega

theorem Sim.seek (h : Sim data d s) (f : Nat) (p : LoffT) :
    Sim data { d with files := Function.update d.files f ⟨p⟩ } (s.seek f p) := by
  refine ⟨h.cells, ?_, h.vmas⟩
  intro g
  unfold Shared.seek
  by_cases hg : g = f
  · subst hg
    simp
  · simp [hg, h.pos g]

theorem Sim.remap (h : Sim data d s) {v : Nat} {vma : Vma} (hvma : OnePage data vma)
    {mapped : Nat → Bool} (hmapped : ∀ u, u ≠ v → mapped u = true → s.mapped u = true) :
    Sim data { d with vmas := Function.update d.vmas v vma } { s with mapped := mapped } := by
  refine ⟨h.cells, h.pos, ?_⟩
  intro u hu
  by_cases huv : u = v
  · subst huv
    simpa using hvma
  · simpa [huv] using h.vmas u (hmapped u huv hu)

include hdata in
/-- The step lemma: the device answers a call as the array does. -/
theorem Sim.call (h : Sim data d s) {c : IntCall} (hc : s.Admits c) :
    (d.call data c.call).1 = (s.call c).1 ∧ Sim data (d.call data c.call).2 (s.call c).2 := by
  cases c with
  | openFile f => exact ⟨rfl, h.seek f 0⟩
  | read f =>
      have hlt : (s.pos f).toNat < 1024 := toNat_of_index hc
      have hguard : ¬ (dataSize : Int) < (s.pos f).toInt := by
        have := hc.2
        unfold dataSize pageShift
        omega
      have hbytes : slice d.mem (plus data (s.pos f)).toNat 4 =
          wordBytes 4 (s.lastStored (s.pos f).toNat) := by
        rw [plus_toNat hdata hlt, ← h.cells _ hlt, wordBytes_getWord (by decide)]
      simp only [IntCall.call, Device.call, fileCall, fileCall.settle, mmapRead, h.pos f, hguard,
        if_false]
      refine ⟨?_, h.seek f (s.pos f + 1)⟩
      exact congrArg (Reply.ret 4) hbytes
  | write f buf =>
      have hlt : (s.pos f).toNat < 1024 := toNat_of_index hc
      have hstored := (h.store (s.pos f).toNat (slice_length buf 0 4)
        (getWord_put_slice 4 32 d.mem buf _ 0)).seek f (s.pos f + 1)
      rw [← plus_toNat hdata hlt] at hstored
      simp only [IntCall.call, Device.call, fileCall, fileCall.settle, mmapWrite, h.pos f]
      exact ⟨rfl, hstored⟩
  | seekSet f offset => exact ⟨rfl, h.seek f offset⟩
  | seekCur f offset =>
      simp only [IntCall.call, Device.call, fileCall, mmapLseek, h.pos f]
      exact ⟨rfl, h.seek f (s.pos f + offset)⟩
  | mmap v vmStart =>
      refine ⟨rfl, h.remap ⟨?_, fun p hp => by simp at hp⟩ ?_⟩
      · rw [BitVec.add_comm, BitVec.add_sub_cancel]
        decide
      · intro u hu hmapped
        simpa [hu] using hmapped
  | load v i =>
      obtain ⟨hmapped, hi⟩ := hc
      obtain ⟨vma, htouch, hone⟩ := (h.vmas v hmapped).touch hdata hi
      simp only [IntCall.call, Device.call, htouch, inPage_index data hi, h.cells i hi]
      exact ⟨rfl, h.remap hone fun u _ hu => hu⟩
  | store v i x =>
      obtain ⟨hmapped, hi⟩ := hc
      obtain ⟨vma, htouch, hone⟩ := (h.vmas v hmapped).touch hdata hi
      have hstored := (h.store i (wordBytes_length 4 x)
        (getWord_put_self (by decide) d.mem _ x)).remap (v := v) hone fun u _ hu => hu
      simp only [IntCall.call, Device.call, htouch, inPage_index data hi]
      exact ⟨rfl, hstored⟩

include hdata in
/-- The run lemma. -/
theorem Sim.run (h : Sim data d s) (calls : List IntCall) (hcalls : s.AdmitsAll calls) :
    (d.run data (calls.map IntCall.call)).1 = (s.run calls).1 ∧
      Sim data (d.run data (calls.map IntCall.call)).2 (s.run calls).2 := by
  induction calls generalizing d s with
  | nil => exact ⟨rfl, h⟩
  | cons c rest ih =>
      obtain ⟨hreply, hsim⟩ := h.call hdata hcalls.1
      obtain ⟨hreplies, hend⟩ := ih hsim hcalls.2
      rw [List.map_cons, Device.run_cons, Shared.run_cons]
      refine ⟨?_, hend⟩
      rw [hreply, hreplies]

end

theorem mmapInit_sim (data : Addr) (mem : Buf) : Sim data (mmapInit data mem) .init := by
  refine ⟨?_, fun _ => rfl, nofun⟩
  intro i hi
  show getWord 4 32 (put mem data.toNat (List.replicate dataSize 0)) _ = 0
  have hzero : getWord 4 32 (put mem data.toNat (List.replicate dataSize 0)) (data.toNat + 4 * i) =
      getWord 4 32 (fun _ => 0) (data.toNat + 4 * i) := by
    apply getWord_congr
    intro j hlo hhi
    have hsize : dataSize = 4096 := rfl
    obtain ⟨k, rfl⟩ := Nat.exists_eq_add_of_le (show data.toNat ≤ j by omega)
    rw [put_inside (by rw [List.length_replicate]; omega),
      List.getD_eq_getElem _ _ (by rw [List.length_replicate]; omega), List.getElem_replicate]
  rw [hzero]
  simp [getWord, getLE]

/-- From the loading of the module on, every sequence of calls that stays within the
array gets the replies of the array, and leaves the array in the page. -/
theorem shared_int_array (data : Addr) (hdata : data.toNat % pageSize = 0) (mem : Buf)
    (calls : List IntCall) (hcalls : Shared.init.AdmitsAll calls) :
    ((mmapInit data mem).run data (calls.map IntCall.call)).1 = (Shared.init.run calls).1 ∧
      (∀ i, i < 1024 →
        getWord 4 32 ((mmapInit data mem).run data (calls.map IntCall.call)).2.mem
          (data.toNat + 4 * i) = (Shared.init.run calls).2.lastStored i) ∧
      ∀ f, (((mmapInit data mem).run data (calls.map IntCall.call)).2.files f).fPos =
        (Shared.init.run calls).2.pos f := by
  obtain ⟨hreplies, hsim⟩ := (mmapInit_sim data mem).run hdata calls hcalls
  exact ⟨hreplies, hsim.cells, hsim.pos⟩

/-- A file writes 5 at index 7, a mapping adds to it, and another file reads it. -/
def writeMapRead : List IntCall :=
  [.openFile 0, .seekSet 0 7, .write 0 (put (fun _ => 0) 0 (wordBytes 4 (5 : BitVec 32))), .mmap 0 0x7000,
    .load 0 7, .store 0 7 205, .openFile 1, .seekCur 1 7, .read 1, .read 1]

theorem shared_int_array_write_map_read :
    ((mmapInit 0x1000 (fun _ => 9)).run 0x1000 (writeMapRead.map IntCall.call)).1 =
      [.ret 0 [], .ret 7 [], .ret 4 [], .ret 0 [], .loaded 5, .stored, .ret 0 [], .ret 7 [],
        .ret 4 [205, 0, 0, 0], .ret 4 [0, 0, 0, 0]] := by
  have h := shared_int_array 0x1000 (by decide) (fun _ => 9) writeMapRead (by
    simp only [writeMapRead, Shared.AdmitsAll, Shared.Admits]
    decide)
  rw [h.1]
  have hfive : userInt (put (fun _ => 0) 0 (wordBytes 4 (5 : BitVec 32))) = 5 :=
    getWord_put_self (by decide) _ 0 5
  simp only [writeMapRead, Shared.run, Shared.call, hfive]
  decide

end Lkm.MmapDevice
