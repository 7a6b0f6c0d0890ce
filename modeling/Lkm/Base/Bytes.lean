import Mathlib.Algebra.GroupWithZero.Nat
import Mathlib.Data.List.GetD
import Mathlib.Tactic.Common

/-!
# Byte buffers and little-endian fields

A buffer is a map from byte offsets to bytes; a program's bounds checks decide
which offsets it may touch. The module supplies what a struct layout needs:

* **stores** — `put b off data` overwrites `data.length` bytes from `off`, with
  a frame lemma (`getLE_put_frame`) and a field lemma (`getLE_put_field`);
* **integers** — `leBytes n v` and `getLE n b off`, the `n`-byte little-endian
  encoding and its decoder (`getLE_put_field` is the round trip);
* **strings** — `cstr` (the bytes of a field up to its first NUL) and `cstrEq`
  (the test `strcmp(field, s) == 0` for a string `s` without NUL).
-/

namespace Base

/-- A byte of memory. -/
abbrev Byte := BitVec 8

/-- A buffer, addressed by byte offset. -/
abbrev Buf := Nat → Byte

/-! ## Stores -/

/-- Overwrite `data.length` bytes of `b`, starting at `off`. -/
def put (b : Buf) (off : Nat) (data : List Byte) : Buf :=
  fun i => if off ≤ i ∧ i < off + data.length then data.getD (i - off) 0 else b i

/-- The `len` bytes of `b` from `off`. -/
def slice (b : Buf) (off len : Nat) : List Byte :=
  (List.range len).map fun i => b (off + i)

@[simp] theorem slice_length (b : Buf) (off len : Nat) : (slice b off len).length = len := by
  simp [slice]

theorem put_frame {b : Buf} {off i : Nat} {data : List Byte}
    (h : i < off ∨ off + data.length ≤ i) : put b off data i = b i := by
  unfold put
  rw [if_neg (by omega)]

theorem put_inside {b : Buf} {off i : Nat} {data : List Byte}
    (h : i < data.length) : put b off data (off + i) = data.getD i 0 := by
  unfold put
  rw [if_pos (by omega), Nat.add_sub_cancel_left]

@[simp] theorem put_nil (b : Buf) (off : Nat) : put b off [] = b := by
  funext i
  exact put_frame (by simp; omega)

/-- Two slices that meet end to end are one slice. -/
theorem slice_add (b : Buf) (off m n : Nat) :
    slice b off (m + n) = slice b off m ++ slice b (off + m) n := by
  unfold slice
  rw [List.range_add, List.map_append, List.map_map]
  simp only [Function.comp_def, Nat.add_assoc]

theorem slice_succ (b : Buf) (off n : Nat) : slice b off (n + 1) = b off :: slice b (off + 1) n := by
  unfold slice
  rw [List.range_succ_eq_map, List.map_cons, List.map_map]
  congr 1
  refine List.map_congr_left fun i _ => ?_
  show b (off + (i + 1)) = b (off + 1 + i)
  congr 1
  omega

/-- Two stores that meet end to end are one store. -/
theorem put_append (b : Buf) (off : Nat) (xs ys : List Byte) :
    put (put b off xs) (off + xs.length) ys = put b off (xs ++ ys) := by
  funext i
  unfold put
  simp only [List.length_append]
  by_cases hy : off + xs.length ≤ i ∧ i < off + xs.length + ys.length
  · rw [if_pos hy, if_pos (by omega), List.getD_append_right _ _ _ _ (by omega)]
    congr 1
    omega
  · rw [if_neg hy]
    by_cases hx : off ≤ i ∧ i < off + xs.length
    · rw [if_pos hx, if_pos (by omega), List.getD_append _ _ _ _ (by omega)]
    · rw [if_neg hx, if_neg (by omega)]

/-- A store is read back. -/
theorem slice_put_self (b : Buf) (off : Nat) (data : List Byte) :
    slice (put b off data) off data.length = data := by
  refine List.ext_getElem (slice_length _ _ _) fun i _ hi => ?_
  simp only [slice, List.getElem_map, List.getElem_range]
  rw [put_inside hi, List.getD_eq_getElem _ _ hi]

/-- A store of what is there already. -/
theorem put_eq_self {b : Buf} {off : Nat} {data : List Byte} (h : slice b off data.length = data) :
    put b off data = b := by
  funext i
  by_cases hi : off ≤ i ∧ i < off + data.length
  · obtain ⟨k, rfl⟩ := Nat.exists_eq_add_of_le hi.1
    have hk : k < data.length := by omega
    rw [put_inside hk, ← h, List.getD_eq_getElem _ _ (by rwa [slice_length])]
    simp [slice]
  · exact put_frame (by omega)

theorem slice_take (b : Buf) (off n k : Nat) : (slice b off n).take k = slice b off (min n k) := by
  unfold slice
  rw [← List.map_take, List.take_range, Nat.min_comm]

/-- Everything up to the end of a store. -/
theorem slice_put_end (b : Buf) (off : Nat) (data : List Byte) :
    slice (put b off data) 0 (off + data.length) = slice b 0 off ++ data := by
  have hbefore : slice (put b off data) 0 off = slice b 0 off := by
    apply List.map_congr_left
    intro i hi
    exact put_frame (by have := List.mem_range.mp hi; omega)
  rw [slice_add, Nat.zero_add, slice_put_self, hbefore]

/-! ## Little-endian integers -/

/-- The `n` little-endian bytes of `v`; bits above `8 * n` are dropped. -/
def leBytes : Nat → Nat → List Byte
  | 0, _ => []
  | n + 1, v => BitVec.ofNat 8 v :: leBytes n (v / 256)

@[simp] theorem leBytes_length (n v : Nat) : (leBytes n v).length = n := by
  induction n generalizing v with
  | zero => rfl
  | succ n ih => simp only [leBytes, List.length_cons, ih]

/-- The natural number stored in the `n` bytes from `off`, least byte first. -/
def getLE : Nat → Buf → Nat → Nat
  | 0, _, _ => 0
  | n + 1, b, off => (b off).toNat + 256 * getLE n b (off + 1)

theorem getLE_lt (n : Nat) (b : Buf) (off : Nat) : getLE n b off < 256 ^ n := by
  induction n generalizing off with
  | zero => simp [getLE]
  | succ n ih =>
      have hb := (b off).isLt
      have hrest := ih (off + 1)
      simp only [getLE, Nat.pow_succ]
      omega

/-- A number whose highest byte is not zero is large. -/
theorem pow_le_getLE {n : Nat} {b : Buf} {off : Nat} (h : b (off + n) ≠ 0) :
    256 ^ n ≤ getLE (n + 1) b off := by
  induction n generalizing off with
  | zero =>
      have hpos : (b off).toNat ≠ 0 := by
        intro hzero
        exact h (BitVec.eq_of_toNat_eq hzero)
      simp only [getLE, Nat.pow_zero]
      omega
  | succ n ih =>
      have hlast : b (off + 1 + n) ≠ 0 := by rwa [Nat.add_right_comm, Nat.add_assoc]
      have hrest := ih hlast
      rw [getLE, Nat.pow_succ]
      omega

/-- A decoder sees only the bytes of its own field. -/
theorem getLE_congr {n : Nat} {b b' : Buf} {off : Nat}
    (h : ∀ i, off ≤ i → i < off + n → b i = b' i) : getLE n b off = getLE n b' off := by
  induction n generalizing off with
  | zero => rfl
  | succ n ih =>
      simp only [getLE]
      rw [h off (by omega) (by omega), ih fun i hlo hhi => h i (by omega) (by omega)]

/-- A store leaves the integers outside its range alone. -/
theorem getLE_put_frame {n : Nat} {b : Buf} {off at' : Nat} {data : List Byte}
    (h : at' + n ≤ off ∨ off + data.length ≤ at') :
    getLE n (put b off data) at' = getLE n b at' :=
  getLE_congr fun _ hlo hhi => put_frame (by omega)

/-- Decoding the bytes that a store put there gives the stored number back. -/
theorem getLE_of_bytes {n : Nat} {b : Buf} {off v : Nat}
    (h : ∀ i, i < n → b (off + i) = (leBytes n v).getD i 0) :
    getLE n b off = v % 256 ^ n := by
  induction n generalizing off v with
  | zero => simp [getLE, Nat.mod_one]
  | succ n ih =>
      have hhead : b off = BitVec.ofNat 8 v := by simpa [leBytes] using h 0 (by omega)
      have htail : getLE n b (off + 1) = v / 256 % 256 ^ n := by
        refine ih fun i hi => ?_
        have := h (i + 1) (by omega)
        rw [show off + 1 + i = off + (i + 1) by omega, this]
        simp [leBytes]
      simp only [getLE]
      rw [hhead, htail, BitVec.toNat_ofNat]
      change v % 256 + 256 * (v / 256 % 256 ^ n) = v % 256 ^ (n + 1)
      rw [Nat.pow_succ, Nat.mul_comm (256 ^ n) 256, Nat.mod_mul]

/-- The field lemma: a store whose data holds an encoded integer at distance
`pre.length` is read back there. -/
theorem getLE_put_field {n : Nat} (b : Buf) (off v : Nat) (pre post : List Byte) :
    getLE n (put b off (pre ++ leBytes n v ++ post)) (off + pre.length) = v % 256 ^ n := by
  refine getLE_of_bytes fun i hi => ?_
  rw [Nat.add_assoc, put_inside (by simp; omega), List.append_assoc,
    List.getD_append_right _ _ _ _ (by omega), Nat.add_sub_cancel_left,
    List.getD_append _ _ _ _ (by simpa using hi)]

/-- A decoder in a part of a buffer. -/
theorem getLE_shift (n : Nat) (b : Buf) (base off : Nat) :
    getLE n (fun i => b (base + i)) off = getLE n b (base + off) := by
  induction n generalizing off with
  | zero => rfl
  | succ n ih =>
      rw [getLE, getLE, ih (off + 1)]
      rfl

/-! ### Fixed widths -/

/-- The bytes of an `n`-byte word. -/
def wordBytes (n : Nat) {w : Nat} (v : BitVec w) : List Byte := leBytes n v.toNat

/-- The `n`-byte word at `off`. -/
def getWord (n w : Nat) (b : Buf) (off : Nat) : BitVec w := BitVec.ofNat w (getLE n b off)

@[simp] theorem wordBytes_length (n : Nat) {w : Nat} (v : BitVec w) :
    (wordBytes n v).length = n := leBytes_length n v.toNat

theorem getWord_congr {n w : Nat} {b b' : Buf} {off : Nat}
    (h : ∀ i, off ≤ i → i < off + n → b i = b' i) : getWord n w b off = getWord n w b' off := by
  rw [getWord, getWord, getLE_congr h]

theorem getWord_put_frame {n w : Nat} {b : Buf} {off at' : Nat} {data : List Byte}
    (h : at' + n ≤ off ∨ off + data.length ≤ at') :
    getWord n w (put b off data) at' = getWord n w b at' := by
  rw [getWord, getWord, getLE_put_frame h]

/-- The field lemma for words: a word stored `pre.length` bytes into `data` is
read back from there. -/
theorem getWord_put_field {n w : Nat} (hw : 2 ^ w ≤ 256 ^ n) (b : Buf) (off : Nat) (v : BitVec w)
    (pre post : List Byte) :
    getWord n w (put b off (pre ++ wordBytes n v ++ post)) (off + pre.length) = v := by
  have hlt : v.toNat < 256 ^ n := Nat.lt_of_lt_of_le v.isLt hw
  rw [getWord, wordBytes, getLE_put_field, Nat.mod_eq_of_lt hlt, BitVec.ofNat_toNat,
    BitVec.setWidth_eq]

/-- A stored word is read back. -/
theorem getWord_put_self {n w : Nat} (hw : 2 ^ w ≤ 256 ^ n) (b : Buf) (off : Nat) (v : BitVec w) :
    getWord n w (put b off (wordBytes n v)) off = v := by
  have h := getWord_put_field hw b off v [] []
  rwa [List.nil_append, List.append_nil, List.length_nil, Nat.add_zero] at h

theorem getWord_shift (n w : Nat) (b : Buf) (base off : Nat) :
    getWord n w (fun i => b (base + i)) off = getWord n w b (base + off) := by
  rw [getWord, getWord, getLE_shift]

/-- The bytes of a number that was read are the bytes that were there. -/
theorem leBytes_getLE (n : Nat) (b : Buf) (off : Nat) : leBytes n (getLE n b off) = slice b off n := by
  induction n generalizing off with
  | zero => rfl
  | succ n ih =>
      have hb := (b off).isLt
      have hdiv : ((b off).toNat + 256 * getLE n b (off + 1)) / 256 = getLE n b (off + 1) := by omega
      rw [slice_succ, getLE, leBytes, hdiv, ih]
      congr 1
      apply BitVec.eq_of_toNat_eq
      rw [BitVec.toNat_ofNat]
      omega

theorem wordBytes_getWord {n w : Nat} (hw : 256 ^ n ≤ 2 ^ w) (b : Buf) (off : Nat) :
    wordBytes n (getWord n w b off) = slice b off n := by
  have hlt := getLE_lt n b off
  rw [wordBytes, getWord, BitVec.toNat_ofNat, Nat.mod_eq_of_lt (by omega), leBytes_getLE]

theorem slice_getD {b : Buf} {off len i : Nat} (h : i < len) : (slice b off len).getD i 0 = b (off + i) := by
  rw [List.getD_eq_getElem _ _ (by rwa [slice_length])]
  simp [slice]

/-- A word is the one whose bytes are there. -/
theorem getWord_eq_iff {n w : Nat} (hw : 256 ^ n = 2 ^ w) (b : Buf) (off : Nat) (v : BitVec w) :
    getWord n w b off = v ↔ ∀ i, i < n → b (off + i) = (wordBytes n v).getD i 0 := by
  constructor
  · rintro rfl i hi
    rw [wordBytes_getWord (Nat.le_of_eq hw), slice_getD hi]
  · intro h
    rw [getWord, getLE_of_bytes h, hw]
    simp

/-- A word copied from another buffer. -/
theorem getWord_put_slice (n w : Nat) (b src : Buf) (off from' : Nat) :
    getWord n w (put b off (slice src from' n)) off = getWord n w src from' := by
  rw [← Nat.add_zero off, ← Nat.add_zero from', ← getWord_shift n w _ off 0,
    ← getWord_shift n w src from' 0]
  apply getWord_congr
  intro i _ hi
  show put b (off + 0) (slice src (from' + 0) n) (off + i) = src (from' + i)
  rw [Nat.add_zero, Nat.add_zero, put_inside (by rw [slice_length]; omega), slice,
    List.getD_eq_getElem _ _ (by rw [List.length_map, List.length_range]; omega), List.getElem_map,
    List.getElem_range]

-- unification must not start to decode words
attribute [irreducible] getWord

/-! ## NUL-terminated strings -/

/-- The string in a field of `n` bytes at `off`: its bytes before the first
NUL. -/
def cstr (b : Buf) (off n : Nat) : List Byte :=
  (slice b off n).takeWhile (· ≠ 0)

/-- Some byte of the field is NUL. -/
def Terminated (b : Buf) (off n : Nat) : Prop := ∃ i, i < n ∧ b (off + i) = 0

/-- `strcmp(b + off, s) == 0`, for a string `s` that holds no NUL. -/
def cstrEq (b : Buf) : Nat → List Byte → Bool
  | off, [] => b off == 0
  | off, c :: s => b off == c && cstrEq b (off + 1) s

theorem cstrEq_iff {b : Buf} {off : Nat} {s : List Byte} :
    cstrEq b off s = true ↔
      (∀ i, i < s.length → b (off + i) = s.getD i 0) ∧ b (off + s.length) = 0 := by
  induction s generalizing off with
  | nil => simp [cstrEq]
  | cons c s ih =>
      simp only [cstrEq, Bool.and_eq_true, beq_iff_eq, ih, List.length_cons]
      constructor
      · rintro ⟨hc, hs, hz⟩
        refine ⟨fun i hi => ?_, by rw [← hz]; congr 1; omega⟩
        cases i with
        | zero => simpa using hc
        | succ i =>
            rw [show off + (i + 1) = off + 1 + i by omega, hs i (by omega)]
            simp
      · rintro ⟨hs, hz⟩
        refine ⟨by simpa using hs 0 (by omega), fun i hi => ?_, by rw [← hz]; congr 1; omega⟩
        have := hs (i + 1) (by omega)
        rw [show off + 1 + i = off + (i + 1) by omega, this]
        simp

/-- The test sees the bytes of the string and the one after them. -/
theorem cstrEq_congr {b b' : Buf} {off : Nat} {s : List Byte}
    (h : ∀ i, off ≤ i → i ≤ off + s.length → b i = b' i) : cstrEq b off s = cstrEq b' off s := by
  induction s generalizing off with
  | nil =>
      simp only [cstrEq]
      rw [h off (by omega) (by omega)]
  | cons c s ih =>
      simp only [cstrEq]
      rw [h off (by omega) (by omega), ih fun i hlo hhi => h i (by omega) (by
        simp only [List.length_cons]
        omega)]

/-- A field equals one string only. -/
theorem cstrEq_unique {b : Buf} {off : Nat} {s t : List Byte} (hs : 0 ∉ s) (ht : 0 ∉ t)
    (h : cstrEq b off s = true) (h' : cstrEq b off t = true) : s = t := by
  induction s generalizing off t with
  | nil =>
      cases t with
      | nil => rfl
      | cons d t =>
          simp only [cstrEq, Bool.and_eq_true, beq_iff_eq] at h h'
          rw [← h'.1, h] at ht
          simp at ht
  | cons c s ih =>
      cases t with
      | nil =>
          simp only [cstrEq, Bool.and_eq_true, beq_iff_eq] at h h'
          rw [← h.1, h'] at hs
          simp at hs
      | cons d t =>
          simp only [cstrEq, Bool.and_eq_true, beq_iff_eq] at h h'
          simp only [List.mem_cons, not_or] at hs ht
          rw [← h.1, ← h'.1, ih hs.2 ht.2 h.2 h'.2]

/-- `strcpy` is read back. -/
theorem cstrEq_put (b : Buf) (off : Nat) (s : List Byte) :
    cstrEq (put b off (s ++ [0])) off s = true := by
  refine cstrEq_iff.mpr ⟨fun i hi => ?_, ?_⟩
  · rw [put_inside (by simp; omega), List.getD_append _ _ _ _ hi]
  · rw [put_inside (by simp), List.getD_append_right _ _ _ _ (by omega)]
    simp

theorem cstr_succ (b : Buf) (off n : Nat) :
    cstr b off (n + 1) = if b off = 0 then [] else b off :: cstr b (off + 1) n := by
  unfold cstr
  rw [slice_succ, List.takeWhile_cons]
  by_cases h : b off = 0 <;> simp [h]

/-- Where the first byte is not NUL, the NUL is further on. -/
theorem Terminated.tail {b : Buf} {off n : Nat} (h : Terminated b off (n + 1)) (hz : b off ≠ 0) :
    Terminated b (off + 1) n := by
  obtain ⟨i, hi, hb⟩ := h
  cases i with
  | zero => exact absurd hb hz
  | succ i =>
      refine ⟨i, by omega, ?_⟩
      rw [← hb]
      congr 1
      omega

/-- The string of a terminated field is shorter than the field. -/
theorem cstr_length_lt {b : Buf} {off n : Nat} (h : Terminated b off n) :
    (cstr b off n).length < n := by
  induction n generalizing off with
  | zero =>
      obtain ⟨i, hi, -⟩ := h
      omega
  | succ n ih =>
      rw [cstr_succ]
      by_cases hz : b off = 0
      · rw [if_pos hz]
        exact Nat.succ_pos n
      · rw [if_neg hz, List.length_cons]
        exact Nat.succ_lt_succ (ih (h.tail hz))

/-- On a terminated field, the test is equality with the string it holds. -/
theorem cstrEq_iff_cstr {b : Buf} {off n : Nat} {s : List Byte} (hs : 0 ∉ s)
    (h : Terminated b off n) : cstrEq b off s = true ↔ cstr b off n = s := by
  induction n generalizing off s with
  | zero =>
      obtain ⟨i, hi, -⟩ := h
      omega
  | succ n ih =>
      rw [cstr_succ]
      by_cases hz : b off = 0
      · rw [if_pos hz]
        cases s with
        | nil => simp [cstrEq, hz]
        | cons c s =>
            have hc : (0 : Byte) ≠ c := fun h0 => hs (by simp [← h0])
            simp only [cstrEq, hz, Bool.and_eq_true, beq_iff_eq, hc, false_and, List.nil_eq,
              reduceCtorEq]
      · rw [if_neg hz]
        have hrest : Terminated b (off + 1) n := h.tail hz
        cases s with
        | nil => simp only [cstrEq, beq_iff_eq, hz, reduceCtorEq]
        | cons c s =>
            have hs' : 0 ∉ s := fun h0 => hs (List.mem_cons_of_mem c h0)
            simp only [cstrEq, Bool.and_eq_true, beq_iff_eq, ih hs' hrest, List.cons.injEq]

end Base
