import Lkm.Base.Bytes
import Lkm.Base.Drain

/-!
# The hello device (`char_device/version1/my_dev.c`)

`my_read` hands out the bytes of `hello`, its NUL included. Its one test sends a read that
ends inside the message, or at its end, to `return 0`, as if the file had ended; a read
that goes further gets the rest of the message. So a reader sees all of it or nothing
(`drain_hello`). Past the end the length is negative and, as an `unsigned long`, larger
than any user buffer: `copy_to_user` refuses it before it copies a byte.
-/

namespace Lkm.CharDevice

open Base

abbrev SizeT := BitVec 64
abbrev LoffT := BitVec 64

/-- `static const char hello[]`. -/
def hello : List Byte :=
  (['H', 'e', 'l', 'l', 'o', ' ', 'w', 'o', 'r', 'l', 'd', '!', '\n'].map
    fun c => BitVec.ofNat 8 c.toNat) ++ [0]

/-- `sizeof(hello)`. -/
def sizeofHello : SizeT := BitVec.ofNat 64 hello.length

inductive Errno where
  | efault
deriving DecidableEq

/-- A copy from outside `hello`. -/
inductive Fault where
  | outOfHello (off len : Nat)
deriving DecidableEq

/-- `copy_to_user(buf, hello + off, n)`: the bytes copied, `none` if not all could be. No user
buffer has a length from 2^63 on. -/
def copyToUser (writable : Bool) (off : LoffT) (n : SizeT) : Except Fault (Option (List Byte)) :=
  if n.msb then .ok none
  else if off.toNat + n.toNat ≤ hello.length then
    .ok (if writable then some ((hello.drop off.toNat).take n.toNat) else none)
  else .error (.outOfHello off.toNat n.toNat)

/-- The bytes read, or an error, and the new `*position`. `*position + count` is unsigned. -/
def myRead (writable : Bool) (count : SizeT) (position : LoffT) :
    Except Fault (Except Errno (List Byte) × LoffT) :=
  if sizeofHello < position + count then do
    let count := sizeofHello - position
    match ← copyToUser writable position count with
    | none => return (.error .efault, position)
    | some bytes => return (.ok bytes, position + count)
  else .ok (.ok [], position)

/-! ## One read -/

/-- What a read of a file with the contents `hello` returns. -/
def fileRead (count : SizeT) (position : LoffT) : List Byte :=
  (hello.drop position.toNat).take count.toNat

/-- The read returns, copies and advances as on such a file. -/
def ReadsLikeFile (count : SizeT) (position : LoffT) : Prop :=
  myRead true count position =
    .ok (.ok (fileRead count position), position + BitVec.ofNat 64 (fileRead count position).length)

/-- Nothing is asked for or left where the test says that the file has ended, and the
position is not past the end where it does not. -/
def Whole (count : SizeT) (position : LoffT) : Prop :=
  if (position + count).toNat ≤ 14 then count = 0 ∨ 14 ≤ position.toNat else position.toNat ≤ 14

section Read

variable {count : SizeT} {position : LoffT}

theorem hello_length : hello.length = 14 := rfl

theorem sizeofHello_toNat : sizeofHello.toNat = 14 := rfl

/-- The end is taken to be reached. -/
theorem myRead_stops (writable : Bool) (h : (position + count).toNat ≤ 14) :
    myRead writable count position = .ok (.ok [], position) := by
  unfold myRead
  rw [if_neg]
  rw [BitVec.lt_def, sizeofHello_toNat]
  omega

/-- Otherwise the copy decides. -/
theorem myRead_copies {writable : Bool} (h : 14 < (position + count).toNat)
    {r : Option (List Byte)}
    (hcopy : copyToUser writable position (sizeofHello - position) = .ok r) :
    myRead writable count position = .ok (match r with
      | none => (.error .efault, position)
      | some bytes => (.ok bytes, position + (sizeofHello - position))) := by
  have hlt : sizeofHello < position + count := by rwa [BitVec.lt_def, sizeofHello_toNat]
  unfold myRead
  rw [if_pos hlt]
  show (copyToUser writable position (sizeofHello - position) >>= _) = _
  simp only [hcopy]
  cases r with
  | none => rfl
  | some bytes => rfl

theorem rest_toNat (hpos : position.toNat ≤ 14) :
    (sizeofHello - position).toNat = 14 - position.toNat := by
  have hle : position ≤ sizeofHello := by rwa [BitVec.le_def, sizeofHello_toNat]
  rw [BitVec.toNat_sub_of_le hle, sizeofHello_toNat]

/-- From a position in the message, or at its end, the rest is copied. -/
theorem copyToUser_rest (writable : Bool) (hpos : position.toNat ≤ 14) :
    copyToUser writable position (sizeofHello - position) =
      .ok (if writable then some (hello.drop position.toNat) else none) := by
  have hrest := rest_toNat hpos
  have hmsb : (sizeofHello - position).msb = false := by
    rw [BitVec.msb_eq_decide, hrest]
    simp only [decide_eq_false_iff_not]
    omega
  unfold copyToUser
  rw [hmsb, if_neg (by decide), if_pos (by rw [hrest, hello_length]; omega), hrest,
    List.take_of_length_le (Nat.le_of_eq (by rw [List.length_drop, hello_length]))]

theorem myRead_rest (h : 14 < (position + count).toNat) (hpos : position.toNat ≤ 14) :
    myRead true count position =
      .ok (.ok (hello.drop position.toNat), position + (sizeofHello - position)) :=
  myRead_copies h (copyToUser_rest true hpos)

/-- From a position past the end the length is refused. -/
theorem copyToUser_past (writable : Bool) (hpos : 14 < position.toNat)
    (hsigned : position.toNat < 2 ^ 63) :
    copyToUser writable position (sizeofHello - position) = .ok none := by
  have hmsb : (sizeofHello - position).msb = true := by
    rw [BitVec.msb_eq_decide, BitVec.toNat_sub, sizeofHello_toNat]
    simp only [decide_eq_true_eq]
    omega
  unfold copyToUser
  rw [hmsb, if_pos rfl]

theorem myRead_past (writable : Bool) (h : 14 < (position + count).toNat)
    (hpos : 14 < position.toNat) (hsigned : position.toNat < 2 ^ 63) :
    myRead writable count position = .ok (.error .efault, position) :=
  myRead_copies h (copyToUser_past writable hpos hsigned)

theorem fileRead_eq_nil : fileRead count position = [] ↔ count = 0 ∨ 14 ≤ position.toNat := by
  have hcount : count.toNat = 0 ↔ count = 0 :=
    ⟨fun h => BitVec.eq_of_toNat_eq h, fun h => by rw [h]; rfl⟩
  unfold fileRead
  rw [List.take_eq_nil_iff, List.drop_eq_nil_iff, hello_length, hcount]

theorem readsLikeFile_iff (hsigned : position.toNat < 2 ^ 63) :
    ReadsLikeFile count position ↔ Whole count position := by
  unfold ReadsLikeFile Whole
  by_cases hsum : (position + count).toNat ≤ 14
  · rw [if_pos hsum, myRead_stops true hsum, ← fileRead_eq_nil]
    constructor
    · intro h
      cases hread : fileRead count position with
      | nil => rfl
      | cons b bytes =>
          rw [hread] at h
          cases h
    · intro h
      rw [h]
      simp
  rw [if_neg hsum]
  have hsum : 14 < (position + count).toNat := Nat.lt_of_not_le hsum
  by_cases hpos : position.toNat ≤ 14
  · refine iff_of_true ?_ hpos
    have hwhole : fileRead count position = hello.drop position.toNat := by
      apply List.take_of_length_le
      rw [List.length_drop, hello_length]
      rw [BitVec.toNat_add] at hsum
      omega
    have hrest : BitVec.ofNat 64 (hello.drop position.toNat).length = sizeofHello - position := by
      apply BitVec.eq_of_toNat_eq
      rw [rest_toNat hpos, List.length_drop, hello_length, BitVec.toNat_ofNat]
      omega
    rw [myRead_rest hsum hpos, hwhole, hrest]
  · refine iff_of_false ?_ hpos
    rw [myRead_past true hsum (Nat.lt_of_not_le hpos) hsigned]
    intro h
    cases h

end Read

/-! ## Reading on -/

/-- One read of a reader that stops at the first error. -/
def readStep (count : SizeT) (position : LoffT) : Option (List Byte × LoffT) :=
  match myRead true count position with
  | .ok (.ok bytes, position) => some (bytes, position)
  | _ => none

/-- At the end there is nothing more. -/
theorem readStep_end (count : SizeT) : readStep count 14 = some ([], 14) := by
  unfold readStep
  by_cases hsum : ((14 : LoffT) + count).toNat ≤ 14
  · rw [myRead_stops true hsum]
  · rw [myRead_rest (Nat.lt_of_not_le hsum) (by decide)]
    rfl

/-- A reader gets the whole message if its first read asks for more than that, and nothing
otherwise; the second component says whether it has seen the end. -/
theorem drain_hello (count : SizeT) (counts : List SizeT) :
    drain readStep (count :: counts) 0 =
      if 14 < count.toNat then (hello, !counts.isEmpty) else ([], true) := by
  have hzero : ((0 : LoffT) + count).toNat = count.toNat := by
    rw [show (0 : LoffT) + count = count from BitVec.zero_add count]
  by_cases hlong : 14 < count.toNat
  · have hfirst : readStep count 0 = some (hello, 14) := by
      unfold readStep
      rw [myRead_rest (by omega) (by decide)]
      rfl
    rw [if_pos hlong, drain_more hfirst (by decide)]
    cases counts with
    | nil => rfl
    | cons next counts =>
        rw [drain_stop (readStep_end next), List.append_nil]
        rfl
  · have hfirst : readStep count 0 = some ([], 0) := by
      unfold readStep
      rw [myRead_stops true (by omega)]
    rw [if_neg hlong, drain_stop hfirst]

/-- A read at any position that is not negative is right exactly when it is `Whole`; a
sequence of reads comes to its end, and has yielded `hello` exactly when its first read asked
for more bytes than there are; and no read copies from outside `hello`. -/
theorem hello_reads_iff (count : SizeT) (counts : List SizeT) (position : LoffT)
    (hsigned : position.toNat < 2 ^ 63) :
    (ReadsLikeFile count position ↔ Whole count position) ∧
    (counts ≠ [] → (drain readStep (count :: counts) 0).2 = true) ∧
    ((drain readStep (count :: counts) 0).2 = true →
      ((drain readStep (count :: counts) 0).1 = hello ↔ 14 < count.toNat)) ∧
    ∀ writable, ∃ r, myRead writable count position = .ok r := by
  rw [drain_hello]
  refine ⟨readsLikeFile_iff hsigned, ?_, ?_, ?_⟩
  · intro hmore
    by_cases hlong : 14 < count.toNat
    · rw [if_pos hlong]
      simpa using hmore
    · rw [if_neg hlong]
  · intro _
    by_cases hlong : 14 < count.toNat
    · rw [if_pos hlong]
      exact iff_of_true rfl hlong
    · rw [if_neg hlong]
      exact iff_of_false (by decide) hlong
  · intro writable
    by_cases hsum : (position + count).toNat ≤ 14
    · exact ⟨_, myRead_stops writable hsum⟩
    have hsum : 14 < (position + count).toNat := Nat.lt_of_not_le hsum
    by_cases hpos : position.toNat ≤ 14
    · exact ⟨_, myRead_copies hsum (copyToUser_rest writable hpos)⟩
    · exact ⟨_, myRead_past writable hsum (Nat.lt_of_not_le hpos) hsigned⟩

/-- A large buffer gets the whole message. -/
theorem hello_large_reads :
    ReadsLikeFile 20 0 ∧ (drain readStep [20, 20] 0).1 = hello := by
  obtain ⟨hread, hend, hdrain, -⟩ := hello_reads_iff 20 [20] 0 (by decide)
  have hwhole : Whole 20 0 := by
    rw [Whole, if_neg (by decide)]
    decide
  exact ⟨hread.mpr hwhole, (hdrain (hend (by decide))).mpr (by decide)⟩

/-- Five bytes asked for, none returned. -/
theorem hello_short_read :
    myRead true 5 0 = .ok (.ok [], 0) ∧ fileRead 5 0 = [0x48, 0x65, 0x6C, 0x6C, 0x6F] := by
  decide

end Lkm.CharDevice
