import Mathlib.Data.List.Induction
import Lkm.BlockDevice.Driver

/-!
# The block device is a flat byte store

Seen from the block layer a request moves one run of bytes, whatever its
segments: `DataDir.effect` is what it does to the device and `DataDir.filled`
what it leaves in memory. Both compose over appended runs (`effect_append`,
`filled_append`), which carries the loop over the segments (`doSegments_fits`):
a request that ends within the device is never clamped. A history of requests
then leaves the most recently written byte at every offset (`lastWritten`).
-/

namespace Lkm.BlockDevice

open Base

/-! ## Runs of bytes -/

namespace DataDir

/-- The device after moving the bytes `mem` from or to offset `off`. -/
def effect (dir : DataDir) (off : Nat) (mem : List Byte) (data : Buf) : Buf :=
  match dir with
  | .write => put data off mem
  | .read => data

/-- The memory afterwards. -/
def filled (dir : DataDir) (off : Nat) (mem : List Byte) (data : Buf) : List Byte :=
  match dir with
  | .write => mem
  | .read => slice data off mem.length

variable (dir : DataDir) (off : Nat) (xs ys : List Byte) (data : Buf)

theorem effect_nil : dir.effect off [] data = data := by
  cases dir with
  | write => exact put_nil data off
  | read => rfl

theorem filled_nil : dir.filled off [] data = [] := by
  cases dir <;> rfl

theorem effect_append :
    dir.effect (off + xs.length) ys (dir.effect off xs data) = dir.effect off (xs ++ ys) data := by
  cases dir with
  | write => exact put_append data off xs ys
  | read => rfl

theorem filled_append :
    dir.filled off xs data ++ dir.filled (off + xs.length) ys (dir.effect off xs data) =
      dir.filled off (xs ++ ys) data := by
  cases dir with
  | write => rfl
  | read =>
      unfold filled effect
      rw [List.length_append, slice_add]

theorem filled_length : (dir.filled off xs data).length = xs.length := by
  cases dir with
  | write => rfl
  | read => exact slice_length data off xs.length

end DataDir

/-! ## The loop over the segments -/

/-- The bytes of a list of segments, end to end. -/
def payload (segments : List BioVec) : List Byte := segments.flatMap BioVec.mem

theorem payload_cons (bvec : BioVec) (rest : List BioVec) :
    payload (bvec :: rest) = bvec.mem ++ payload rest := rfl

/-- The loop after it moved the bytes `mem`. -/
def Progress.advance (s : Progress) (dir : DataDir) (mem : List Byte) : Progress where
  pos := s.pos + BitVec.ofNat 64 mem.length
  dev := { s.dev with data := dir.effect s.pos.toNat mem s.dev.data }
  nrBytes := s.nrBytes + BitVec.ofNat 32 mem.length

theorem Progress.advance_pos {s : Progress} (dir : DataDir) (mem : List Byte)
    (h : s.pos.toNat + mem.length < 2 ^ 64) :
    (s.advance dir mem).pos.toNat = s.pos.toNat + mem.length := by
  show (s.pos + BitVec.ofNat 64 mem.length).toNat = _
  rw [BitVec.toNat_add, BitVec.toNat_ofNat]
  omega

theorem Progress.advance_append {s : Progress} {xs : List Byte} (dir : DataDir) (ys : List Byte)
    (h : s.pos.toNat + xs.length < 2 ^ 64) :
    (s.advance dir xs).advance dir ys = s.advance dir (xs ++ ys) := by
  unfold advance
  congr 1
  · rw [List.length_append, BitVec.ofNat_add, BitVec.add_assoc]
  · have hpos : (s.pos + BitVec.ofNat 64 xs.length).toNat = s.pos.toNat + xs.length :=
      s.advance_pos dir xs h
    simp only [hpos, dir.effect_append]
  · rw [List.length_append, BitVec.ofNat_add, BitVec.add_assoc]

theorem BioVec.bvLen_toNat (bvec : BioVec) : (bvec.bvLen.setWidth 64).toNat = bvec.mem.length := by
  have hshort := bvec.short
  unfold BioVec.bvLen
  rw [BitVec.toNat_setWidth, BitVec.toNat_ofNat]
  omega

/-- A segment that ends within the device is moved as a whole. -/
theorem doSegment_fits (dir : DataDir) (bvec : BioVec) (s : Progress)
    (h : s.pos.toNat + bvec.mem.length ≤ s.dev.devSize.toNat) :
    ∃ bvec' : BioVec, doSegment dir bvec s = .ok (bvec', s.advance dir bvec.mem) ∧
      bvec'.mem = dir.filled s.pos.toNat bvec.mem s.dev.data := by
  have hshort := bvec.short
  have hsize := s.dev.devSize.isLt
  have hlen := bvec.bvLen_toNat
  have hlen64 : bvec.bvLen.setWidth 64 = BitVec.ofNat 64 bvec.mem.length :=
    BitVec.eq_of_toNat_eq (by rw [hlen, BitVec.toNat_ofNat]; omega)
  have hlen32 : (bvec.bvLen.setWidth 64).setWidth 32 = BitVec.ofNat 32 bvec.mem.length := by
    rw [hlen64, BitVec.setWidth_ofNat_of_le (by decide)]
  have hclamp : ¬ s.dev.devSize < s.pos + bvec.bvLen.setWidth 64 := by
    rw [BitVec.lt_def, BitVec.toNat_add, hlen]
    omega
  unfold doSegment
  simp only [if_neg hclamp]
  rw [if_pos (by rw [hlen]; exact h), dif_pos (Nat.le_of_eq hlen)]
  cases dir with
  | write =>
      refine ⟨bvec, ?_, rfl⟩
      simp only [hlen, hlen32, List.take_length]
      rw [hlen64]
      rfl
  | read =>
      refine ⟨bvec.fill (slice s.dev.data s.pos.toNat (bvec.bvLen.setWidth 64).toNat)
        (by rw [slice_length]; exact Nat.le_of_eq hlen), ?_, ?_⟩
      · show Except.ok _ = _
        rw [hlen32]
        simp only [Progress.advance, DataDir.effect, hlen64]
      · simp [BioVec.fill, DataDir.filled, hlen]

/-- Requests that end within the device are moved as a whole, in the pieces in which
they come. -/
theorem doSegments_fits (dir : DataDir) (segments : List BioVec) (s : Progress)
    (h : s.pos.toNat + (payload segments).length ≤ s.dev.devSize.toNat) :
    ∃ segments', doSegments dir segments s = .ok (segments', s.advance dir (payload segments)) ∧
      payload segments' = dir.filled s.pos.toNat (payload segments) s.dev.data ∧
      segments'.map (·.mem.length) = segments.map (·.mem.length) := by
  induction segments generalizing s with
  | nil =>
      refine ⟨[], ?_, (dir.filled_nil _ _).symm, rfl⟩
      simp [doSegments, payload, Progress.advance, dir.effect_nil]
  | cons bvec rest ih =>
      rw [payload_cons, List.length_append] at h
      have hsize := s.dev.devSize.isLt
      have hpos := s.advance_pos dir bvec.mem (by omega)
      obtain ⟨bvec', hone, hmem⟩ := doSegment_fits dir bvec s (by omega)
      obtain ⟨rest', hrest, hpayload, hcut⟩ := ih (s.advance dir bvec.mem) (by
        rw [hpos]
        show _ ≤ s.dev.devSize.toNat
        omega)
      refine ⟨bvec' :: rest', ?_, ?_, ?_⟩
      · rw [payload_cons, ← s.advance_append dir _ (by omega), doSegments, hone]
        show (doSegments dir rest (s.advance dir bvec.mem) >>= _) = _
        rw [hrest]
        rfl
      · rw [payload_cons, payload_cons, hmem, hpayload, hpos, ← dir.filled_append]
        rfl
      · rw [List.map_cons, List.map_cons, hcut, hmem, dir.filled_length]

/-! ## Requests -/

namespace Request

/-- The first byte of a request on the device. -/
def start (rq : Request) : Nat := rq.blkRqPos.toNat * 512

/-- Its length in bytes. -/
def length (rq : Request) : Nat := (rq.segments.map (·.mem.length)).sum

/-- The request writes the byte at device offset `o`. -/
def Covers (rq : Request) (o : Nat) : Prop :=
  rq.dataDir = .write ∧ rq.start ≤ o ∧ o < rq.start + rq.length

instance (rq : Request) (o : Nat) : Decidable (rq.Covers o) :=
  inferInstanceAs (Decidable (_ ∧ _ ∧ _))

/-- The block layer's check: the request ends within the device. -/
def Admitted (rq : Request) (capacity : SectorT) : Prop :=
  rq.start + rq.length ≤ capacity.toNat * 512

/-- What the request does to the device. -/
def effect (rq : Request) (data : Buf) : Buf :=
  rq.dataDir.effect rq.start (payload rq.segments) data

end Request

theorem payload_length (segments : List BioVec) :
    (payload segments).length = (segments.map (·.mem.length)).sum := List.length_flatMap

theorem Request.length_eq (rq : Request) : (payload rq.segments).length = rq.length :=
  payload_length rq.segments

/-- The byte offset of a sector, as long as it fits its type. -/
theorem toNat_shl_sector {x : SectorT} (h : x.toNat * 512 < 2 ^ 64) :
    (x <<< sectorShift).toNat = x.toNat * 512 := by
  unfold sectorShift
  rw [BitVec.toNat_shiftLeft, Nat.shiftLeft_eq, Nat.mod_eq_of_lt (by omega)]

section

variable {upd : Request → BlkStatus → BitVec 32 → Bool} (dev : BlockDev)

/-- An admitted request is served in full. -/
theorem queueRq_admitted
    (hupd : ∀ rq status n, upd rq status n = true ↔ n.toNat < rq.length)
    (hcap : dev.capacity.toNat * 512 < 2 ^ 32) {rq : Request} (h : rq.Admitted dev.capacity) :
    ∃ reply, queueRq upd rq dev = .ok (reply, { dev with data := rq.effect dev.data }) ∧
      reply.status = .ok ∧ reply.nrBytes.toNat = rq.length ∧
      payload reply.segments = rq.dataDir.filled rq.start (payload rq.segments) dev.data ∧
      reply.segments.map (·.mem.length) = rq.segments.map (·.mem.length) := by
  unfold Request.Admitted at h
  have hlt : rq.start < 2 ^ 64 := by omega
  have hstart : (rq.blkRqPos <<< sectorShift).toNat = rq.start := toNat_shl_sector hlt
  have hsize : dev.devSize.toNat = dev.capacity.toNat * 512 := toNat_shl_sector (by omega)
  obtain ⟨segments, hdo, hpayload, hcut⟩ := doSegments_fits rq.dataDir rq.segments
    ⟨rq.blkRqPos <<< sectorShift, dev, 0⟩ (by rw [hstart, hsize, rq.length_eq]; exact h)
  have hbytes : (0 + BitVec.ofNat 32 (payload rq.segments).length).toNat = rq.length := by
    rw [show ∀ x : BitVec 32, 0 + x = x from BitVec.zero_add, BitVec.toNat_ofNat, rq.length_eq]
    omega
  have hdev : (Progress.advance ⟨rq.blkRqPos <<< sectorShift, dev, 0⟩ rq.dataDir
      (payload rq.segments)).dev = { dev with data := rq.effect dev.data } := by
    unfold Progress.advance Request.effect
    simp only [hstart]
  have hcut' : ({ rq with segments := segments } : Request).length = rq.length := by
    unfold Request.length
    rw [hcut]
  have hdone : upd { rq with segments := segments } .ok
      (0 + BitVec.ofNat 32 (payload rq.segments).length) = false := by
    rw [Bool.eq_false_iff, Ne, hupd, hcut', hbytes]
    omega
  refine ⟨⟨.ok, 0 + BitVec.ofNat 32 (payload rq.segments).length, segments⟩, ?_, rfl, hbytes, ?_,
    hcut⟩
  · unfold queueRq doRequest
    rw [hdo]
    show (if upd { rq with segments := segments } .ok
      (0 + BitVec.ofNat 32 (payload rq.segments).length) = true then _ else _) = _
    rw [if_neg (by rw [hdone]; decide), ← hdev]
    rfl
  · rw [hpayload, hstart]

/-- So is every sequence of admitted requests. -/
theorem serve_admitted
    (hupd : ∀ rq status n, upd rq status n = true ↔ n.toNat < rq.length)
    (hcap : dev.capacity.toNat * 512 < 2 ^ 32) (rqs : List Request)
    (h : ∀ rq ∈ rqs, rq.Admitted dev.capacity) :
    ∃ replies, serve upd rqs dev =
      .ok (replies, { dev with data := rqs.foldl (fun data rq => rq.effect data) dev.data }) := by
  induction rqs generalizing dev with
  | nil => exact ⟨[], rfl⟩
  | cons rq rest ih =>
      obtain ⟨reply, hone, -⟩ := queueRq_admitted dev hupd hcap (h rq (List.mem_cons_self ..))
      obtain ⟨replies, hrest⟩ := ih { dev with data := rq.effect dev.data } hcap
        fun rq' hrq' => h rq' (List.mem_cons_of_mem _ hrq')
      refine ⟨reply :: replies, ?_⟩
      rw [serve, hone]
      show (serve upd rest _ >>= _) = _
      rw [hrest]
      rfl

end

/-! ## The most recent write -/

/-- The byte at device offset `o` after a history of requests, oldest first: the one
that the most recent write over `o` put there. -/
def lastWritten (initial : Buf) (history : List Request) : Buf := fun o =>
  match history.reverse.find? (·.Covers o) with
  | some rq => (payload rq.segments).getD (o - rq.start) 0
  | none => initial o

theorem lastWritten_concat (initial : Buf) (history : List Request) (rq : Request) :
    lastWritten initial (history ++ [rq]) = rq.effect (lastWritten initial history) := by
  funext o
  unfold lastWritten Request.effect
  rw [List.reverse_append, List.reverse_singleton, List.singleton_append, List.find?_cons]
  by_cases hcovers : rq.Covers o
  · obtain ⟨hwrite, hlo, hhi⟩ := hcovers
    simp only [show rq.Covers o from ⟨hwrite, hlo, hhi⟩, decide_true, hwrite, DataDir.effect]
    have hin : put (lastWritten initial history) rq.start (payload rq.segments)
        (rq.start + (o - rq.start)) = _ := put_inside (by rw [rq.length_eq]; omega)
    rw [Nat.add_sub_cancel' hlo] at hin
    exact hin.symm
  · simp only [hcovers, decide_false]
    cases hdir : rq.dataDir with
    | read => rfl
    | write =>
        show lastWritten initial history o = put (lastWritten initial history) _ _ o
        rw [put_frame]
        rw [rq.length_eq]
        by_contra hin
        exact hcovers ⟨hdir, by omega, by omega⟩

theorem foldl_effect (initial : Buf) (history : List Request) :
    history.foldl (fun data rq => rq.effect data) initial = lastWritten initial history := by
  induction history using List.reverseRecOn with
  | nil => rfl
  | append_singleton history rq ih => rw [List.foldl_append, ih, List.foldl_cons, List.foldl_nil, lastWritten_concat]

/-! ## Runs -/

theorem myblockDriverInit_capacity {pageSize : Nat} (hpage : pageSize ≤ 2 ^ 18)
    {alloc : Allocations} {dev : BlockDev} (h : myblockDriverInit pageSize alloc = .ok dev) :
    dev.capacity.toNat * 512 ≤ 112 * pageSize := by
  unfold myblockDriverInit at h
  split at h
  · cases h
  · split at h
    · cases h
    · split at h
      · cases h
      · cases h
        show ((112 * BitVec.ofNat 64 pageSize) >>> 9).toNat * 512 ≤ _
        rw [BitVec.toNat_ushiftRight, BitVec.toNat_mul, BitVec.toNat_ofNat, Nat.shiftRight_eq_div_pow,
          show (112 : BitVec 64).toNat = 112 from rfl, Nat.mod_eq_of_lt (by omega : pageSize < 2 ^ 64),
          Nat.mod_eq_of_lt (by omega)]
        omega

/-- After any sequence of admitted requests the next one is served in full, with the
`nr_bytes` of its length; a read fills its segments with the most recently written
bytes, and a write changes exactly the bytes of its range. -/
theorem flat_byte_store (pageSize : Nat) (hpage : pageSize ≤ 2 ^ 18) (alloc : Allocations)
    (dev : BlockDev) (hinit : myblockDriverInit pageSize alloc = .ok dev)
    (blkUpdateRequest : Request → BlkStatus → BitVec 32 → Bool)
    (hupd : ∀ rq status n, blkUpdateRequest rq status n = true ↔ n.toNat < rq.length)
    (before : List Request) (rq : Request)
    (hadm : ∀ r ∈ before ++ [rq], r.Admitted dev.capacity) :
    ∃ replies now reply next, serve blkUpdateRequest before dev = .ok (replies, now) ∧
      queueRq blkUpdateRequest rq now = .ok (reply, next) ∧
      now.data = lastWritten dev.data before ∧
      reply.status = .ok ∧ reply.nrBytes.toNat = rq.length ∧
      reply.segments.map (·.mem.length) = rq.segments.map (·.mem.length) ∧
      (rq.dataDir = .read →
        payload reply.segments = slice (lastWritten dev.data before) rq.start rq.length ∧
        next.data = now.data) ∧
      (rq.dataDir = .write → payload reply.segments = payload rq.segments ∧
        slice next.data rq.start rq.length = payload rq.segments ∧
        ∀ o, o < rq.start ∨ rq.start + rq.length ≤ o → next.data o = now.data o) := by
  have hcap : dev.capacity.toNat * 512 < 2 ^ 32 := by
    have := myblockDriverInit_capacity hpage hinit
    omega
  obtain ⟨replies, hbefore⟩ := serve_admitted dev hupd hcap before fun r hr =>
    hadm r (List.mem_append_left _ hr)
  rw [foldl_effect] at hbefore
  obtain ⟨reply, hone, hstatus, hbytes, hpayload, hcut⟩ := queueRq_admitted
    { dev with data := lastWritten dev.data before } hupd hcap
    (hadm rq (List.mem_append_right _ (List.mem_singleton_self rq)))
  refine ⟨replies, _, reply, _, hbefore, hone, rfl, hstatus, hbytes, hcut, fun hread => ⟨?_, ?_⟩,
    fun hwrite => ⟨?_, ?_, fun o ho => ?_⟩⟩
  · rw [hpayload, hread, ← rq.length_eq]
    rfl
  · show rq.effect _ = _
    unfold Request.effect
    rw [hread]
    rfl
  · rw [hpayload, hwrite]
    rfl
  · show slice (rq.effect _) _ _ = _
    unfold Request.effect
    rw [hwrite, ← rq.length_eq]
    exact slice_put_self ..
  · show rq.effect _ o = _
    unfold Request.effect
    rw [hwrite]
    exact put_frame (by rwa [rq.length_eq])

/-- Three bytes at sector 1, written in two segments. -/
def writeThree : Request :=
  ⟨1, .write, [⟨[1, 2], by decide⟩, ⟨[3], by decide⟩]⟩

/-- Four bytes from there, read in segments that are cut elsewhere. -/
def readFour : Request :=
  ⟨1, .read, [⟨[0], by decide⟩, ⟨[], by decide⟩, ⟨[0, 0, 0], by decide⟩]⟩

theorem flat_byte_store_write_read :
    ∃ replies now reply next,
      serve (fun rq _ n => decide (n.toNat < rq.length)) [writeThree] ⟨896, fun _ => 7⟩ =
        .ok (replies, now) ∧
      queueRq (fun rq _ n => decide (n.toNat < rq.length)) readFour now = .ok (reply, next) ∧
      reply.nrBytes.toNat = 4 ∧ payload reply.segments = [1, 2, 3, 7] := by
  obtain ⟨replies, now, reply, next, hserve, hone, -, -, hbytes, -, hread, -⟩ :=
    flat_byte_store 4096 (by decide) ⟨true, some fun _ => 7, true⟩ ⟨896, fun _ => 7⟩ rfl
      (fun rq _ n => decide (n.toNat < rq.length)) (fun rq _ n => decide_eq_true_iff) [writeThree]
      readFour (by
        intro r hr
        simp only [List.singleton_append, List.mem_cons, List.not_mem_nil, or_false] at hr
        rcases hr with rfl | rfl <;> unfold Request.Admitted <;> decide)
  exact ⟨replies, now, reply, next, hserve, hone, hbytes, (hread rfl).1.trans (by decide)⟩

end Lkm.BlockDevice
