import Lkm.BlockDevice.Store

/-!
# The bounds check of the block device

`do_request` cuts a segment that would end past the device to the bytes that are left,
`dev_size - pos`. That is right as long as `pos` has not passed `dev_size`, and then it
stays so for all the segments (`doSegments_clamped`): the position stops at the end of the
device. A request that starts past the end makes the difference negative, and as an
`unsigned long` it is nearly the whole address space.

The sum in the test can wrap around only on a device that ends within 4 GiB of the end of
the address space (`NoWrap.of_small`).
-/

namespace Lkm.BlockDevice

open Base

/-- The position after a segment of `len` bytes. -/
def clampedEnd (devSize pos len : Nat) : Nat := min (pos + len) devSize

/-- `pos + b_len` fits an `unsigned long` at each of the segments. -/
def NoWrap (devSize : Nat) : Nat → List BioVec → Prop
  | _, [] => True
  | pos, bvec :: rest =>
      pos + bvec.mem.length < 2 ^ 64 ∧ NoWrap devSize (clampedEnd devSize pos bvec.mem.length) rest

/-- No segment is longer than 4 GiB. -/
theorem NoWrap.of_small {devSize : Nat} (hsize : devSize < 2 ^ 63) (segments : List BioVec) {pos : Nat}
    (hpos : pos ≤ devSize) : NoWrap devSize pos segments := by
  induction segments generalizing pos with
  | nil => trivial
  | cons bvec rest ih =>
      have hshort := bvec.short
      exact ⟨by omega, ih (by unfold clampedEnd; omega)⟩

/-- The bytes that are moved from `pos` on, when `total` are asked for. -/
def moved (devSize pos total : Nat) : Nat := min total (devSize - pos)

section Segment

variable (dir : DataDir) {bvec : BioVec} {s : Progress}

/-- A copy that starts past the device leaves it, whatever its length. -/
theorem doSegment_past (bvec : BioVec) (h : s.dev.devSize.toNat < s.pos.toNat) :
    ∃ e, doSegment dir bvec s = .error e := by
  unfold doSegment
  dsimp only
  rw [if_neg (by omega)]
  exact ⟨_, rfl⟩

/-- A sum that wraps around is not seen to pass the end. -/
theorem doSegment_wraps (hpos : s.pos.toNat ≤ s.dev.devSize.toNat)
    (hwrap : 2 ^ 64 ≤ s.pos.toNat + bvec.mem.length) : ∃ e, doSegment dir bvec s = .error e := by
  have hshort := bvec.short
  have hlen := bvec.bvLen_toNat
  have hsize := s.dev.devSize.isLt
  have hseen : ¬ s.dev.devSize < s.pos + bvec.bvLen.setWidth 64 := by
    rw [BitVec.lt_def, BitVec.toNat_add, hlen]
    omega
  unfold doSegment
  simp only [if_neg hseen]
  rw [if_neg (by omega)]
  exact ⟨_, rfl⟩

/-- A copy of `bLen` bytes, the number that the code computes, inside the device and the
segment. -/
theorem doSegment_moves {bLen : BitVec 64}
    (hlen : (if s.dev.devSize < s.pos + bvec.bvLen.setWidth 64 then s.dev.devSize - s.pos
      else bvec.bvLen.setWidth 64) = bLen)
    (hdev : s.pos.toNat + bLen.toNat ≤ s.dev.devSize.toNat) (hseg : bLen.toNat ≤ bvec.mem.length) :
    ∃ bvec' s', doSegment dir bvec s = .ok (bvec', s') ∧ s'.pos = s.pos + bLen ∧
      s'.nrBytes = s.nrBytes + bLen.setWidth 32 ∧ s'.dev.devSize = s.dev.devSize := by
  subst hlen
  unfold doSegment
  dsimp only
  rw [if_pos hdev, dif_pos hseg]
  cases dir with
  | write => exact ⟨_, _, rfl, rfl, rfl, rfl⟩
  | read => exact ⟨_, _, rfl, rfl, rfl, rfl⟩

/-- Otherwise the segment is cut at the end of the device, and both counters advance by
what was moved. -/
theorem doSegment_clamped (hpos : s.pos.toNat ≤ s.dev.devSize.toNat)
    (hwrap : s.pos.toNat + bvec.mem.length < 2 ^ 64) :
    ∃ bvec' s' n, doSegment dir bvec s = .ok (bvec', s') ∧
      n = moved s.dev.devSize.toNat s.pos.toNat bvec.mem.length ∧
      s'.pos.toNat = s.pos.toNat + n ∧ s'.nrBytes = s.nrBytes + BitVec.ofNat 32 n ∧
      s'.dev.devSize = s.dev.devSize := by
  have hlen := bvec.bvLen_toNat
  have hseen : s.dev.devSize < s.pos + bvec.bvLen.setWidth 64 ↔
      s.dev.devSize.toNat < s.pos.toNat + bvec.mem.length := by
    rw [BitVec.lt_def, BitVec.toNat_add, hlen, Nat.mod_eq_of_lt hwrap]
  generalize hb : (if s.dev.devSize < s.pos + bvec.bvLen.setWidth 64 then s.dev.devSize - s.pos
    else bvec.bvLen.setWidth 64) = bLen
  have hmoved : bLen.toNat = moved s.dev.devSize.toNat s.pos.toNat bvec.mem.length := by
    unfold moved
    by_cases hpast : s.dev.devSize < s.pos + bvec.bvLen.setWidth 64
    · rw [← hb, if_pos hpast, BitVec.toNat_sub_of_le (BitVec.le_def.mpr hpos)]
      have := hseen.mp hpast
      omega
    · rw [← hb, if_neg hpast, hlen]
      have := hseen.not.mp hpast
      omega
  have hfits : bLen.toNat ≤ s.dev.devSize.toNat - s.pos.toNat ∧ bLen.toNat ≤ bvec.mem.length := by
    rw [hmoved]
    unfold moved
    omega
  obtain ⟨bvec', s', hrun, hpos', hbytes, hsize⟩ :=
    doSegment_moves dir hb (by omega) hfits.2
  refine ⟨bvec', s', bLen.toNat, hrun, hmoved, ?_, ?_, hsize⟩
  · rw [hpos', BitVec.toNat_add]
    omega
  · rw [hbytes, BitVec.ofNat_toNat]

end Segment

/-! ## All segments -/

section Segments

variable (dir : DataDir) {segments : List BioVec} {s : Progress}

/-- The loop from a position within the device. -/
theorem doSegments_clamped (hpos : s.pos.toNat ≤ s.dev.devSize.toNat)
    (hwrap : NoWrap s.dev.devSize.toNat s.pos.toNat segments) :
    ∃ segments' s', doSegments dir segments s = .ok (segments', s') ∧
      s'.nrBytes = s.nrBytes + BitVec.ofNat 32
        (moved s.dev.devSize.toNat s.pos.toNat (segments.map (·.mem.length)).sum) := by
  induction segments generalizing s with
  | nil =>
      refine ⟨[], s, rfl, ?_⟩
      simp [moved]
  | cons bvec rest ih =>
      obtain ⟨bvec', s₁, n, hone, hn, hpos₁, hbytes₁, hsize₁⟩ :=
        doSegment_clamped dir hpos hwrap.1
      have hend : s₁.pos.toNat = clampedEnd s.dev.devSize.toNat s.pos.toNat bvec.mem.length := by
        unfold clampedEnd
        unfold moved at hn
        omega
      obtain ⟨rest', s₂, hrest, hbytes₂⟩ := ih (s := s₁) (by
          rw [hsize₁, hend]
          exact Nat.min_le_right _ _) (by
          rw [hsize₁, hend]
          exact hwrap.2)
      refine ⟨bvec' :: rest', s₂, ?_, ?_⟩
      · rw [doSegments, hone]
        show (doSegments dir rest s₁ >>= _) = _
        rw [hrest]
        rfl
      · rw [hbytes₂, hbytes₁, BitVec.add_assoc, ← BitVec.ofNat_add, hsize₁, hpos₁, List.map_cons,
          List.sum_cons]
        congr 2
        unfold moved at hn ⊢
        omega

variable {dir} in
/-- A loop that ends without a fault has not wrapped around. -/
theorem NoWrap.of_ok {segments' : List BioVec} {s' : Progress}
    (hpos : s.pos.toNat ≤ s.dev.devSize.toNat)
    (h : doSegments dir segments s = .ok (segments', s')) :
    NoWrap s.dev.devSize.toNat s.pos.toNat segments := by
  induction segments generalizing s segments' s' with
  | nil => trivial
  | cons bvec rest ih =>
      by_cases hwrap : s.pos.toNat + bvec.mem.length < 2 ^ 64
      · obtain ⟨bvec', s₁, n, hone, hn, hpos₁, -, hsize₁⟩ := doSegment_clamped dir hpos hwrap
        have hend : s₁.pos.toNat = clampedEnd s.dev.devSize.toNat s.pos.toNat bvec.mem.length := by
          unfold clampedEnd
          unfold moved at hn
          omega
        rw [doSegments, hone] at h
        cases hrest : doSegments dir rest s₁ with
        | error e =>
            have h : (doSegments dir rest s₁ >>= _) = _ := h
            rw [hrest] at h
            cases h
        | ok r =>
            have hle : s₁.pos.toNat ≤ s₁.dev.devSize.toNat := by
              rw [hsize₁, hend]
              exact Nat.min_le_right _ _
            have := ih hle hrest
            rw [hsize₁, hend] at this
            exact ⟨hwrap, this⟩
      · obtain ⟨e, hfault⟩ := doSegment_wraps dir hpos (Nat.le_of_not_lt hwrap)
        rw [doSegments, hfault] at h
        cases h

end Segments

/-- The request is served without a copy that leaves the device's buffer or a segment, and
`nr_bytes` is the part of it that lies on the device. -/
def ServedInBounds (rq : Request) (dev : BlockDev) : Prop :=
  ∃ served, doRequest rq dev 0 = .ok served ∧
    served.nrBytes.toNat =
      moved dev.devSize.toNat (rq.blkRqPos <<< sectorShift).toNat rq.length

/-- The request starts on the device or at its end, no sum wraps around, and the bytes moved
can be counted in an `unsigned int`. -/
structure Clamped (rq : Request) (dev : BlockDev) : Prop where
  start : (rq.blkRqPos <<< sectorShift).toNat ≤ dev.devSize.toNat
  sums : NoWrap dev.devSize.toNat (rq.blkRqPos <<< sectorShift).toNat rq.segments
  count : moved dev.devSize.toNat (rq.blkRqPos <<< sectorShift).toNat rq.length < 2 ^ 32

theorem servedInBounds_iff {rq : Request} {dev : BlockDev} :
    ServedInBounds rq dev ↔ rq.segments = [] ∨ Clamped rq dev := by
  unfold ServedInBounds doRequest
  cases hsegments : rq.segments with
  | nil =>
      refine iff_of_true ⟨_, rfl, ?_⟩ (.inl rfl)
      simp [Request.length, hsegments, moved]
  | cons bvec rest =>
      rw [or_iff_right (by simp), ← hsegments]
      constructor
      · rintro ⟨served, hserved, hbytes⟩
        cases hrun : doSegments rq.dataDir rq.segments ⟨rq.blkRqPos <<< sectorShift, dev, 0⟩ with
        | error e =>
            rw [hrun] at hserved
            cases hserved
        | ok r =>
            have hpos : (rq.blkRqPos <<< sectorShift).toNat ≤ dev.devSize.toNat := by
              by_contra hpast
              obtain ⟨e, hfault⟩ := doSegment_past rq.dataDir bvec
                (s := ⟨rq.blkRqPos <<< sectorShift, dev, 0⟩) (Nat.lt_of_not_le hpast)
              rw [hsegments, doSegments, hfault] at hrun
              cases hrun
            refine ⟨hpos, NoWrap.of_ok (s := ⟨rq.blkRqPos <<< sectorShift, dev, 0⟩) hpos hrun, ?_⟩
            rw [← hbytes]
            exact served.nrBytes.isLt
      · rintro ⟨hpos, hwrap, hcount⟩
        obtain ⟨segments', s', hrun, hbytes⟩ := doSegments_clamped rq.dataDir
          (s := ⟨rq.blkRqPos <<< sectorShift, dev, 0⟩) hpos hwrap
        refine ⟨⟨0, segments', s'.dev, s'.nrBytes⟩, by rw [hrun]; rfl, ?_⟩
        rw [hbytes]
        show (0 + BitVec.ofNat 32 (moved _ _ rq.length)).toNat = _
        rw [show ∀ x : BitVec 32, 0 + x = x from BitVec.zero_add, BitVec.toNat_ofNat,
          Nat.mod_eq_of_lt hcount]

/-- For every request and every device: the check is sufficient exactly when there is no
segment or the request is `Clamped`; on a device smaller than half the address space that is
a matter of where the request starts and of how much it moves. -/
theorem do_request_in_bounds_iff (rq : Request) (dev : BlockDev) :
    (ServedInBounds rq dev ↔ rq.segments = [] ∨ Clamped rq dev) ∧
    (dev.devSize.toNat < 2 ^ 63 → (ServedInBounds rq dev ↔ rq.segments = [] ∨
      ((rq.blkRqPos <<< sectorShift).toNat ≤ dev.devSize.toNat ∧
        moved dev.devSize.toNat (rq.blkRqPos <<< sectorShift).toNat rq.length < 2 ^ 32))) := by
  refine ⟨servedInBounds_iff, ?_⟩
  intro hsize
  rw [servedInBounds_iff]
  apply or_congr_right
  constructor
  · intro h
    exact ⟨h.start, h.count⟩
  · rintro ⟨hstart, hcount⟩
    exact ⟨hstart, .of_small hsize _ hstart, hcount⟩

/-- A read of one byte from sector 2 of a device of one sector: the copy is 2^64 - 512 bytes
long. -/
theorem do_request_past_end :
    doRequest ⟨2, .read, [⟨[0], by decide⟩]⟩ ⟨1, fun _ => 0⟩ 0 =
      .error (.outOfData 1024 (2 ^ 64 - 512)) := by
  rfl

end Lkm.BlockDevice
