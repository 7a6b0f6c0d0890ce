import Lkm.Base.Decimal

/-!
# Three integers in sysfs (`sysfs/simple.c`)

The module shows three integers as the files `attr1`, `attr2` and `attr3`. The first has
functions of its own; the other two share theirs, which look at the attribute's name.

* **texts** — lists of bytes. `sscanfD` and `sprintfD` are the kernel's conversion `%d`: blanks in
  front are skipped, a minus sign is taken, digits are added up modulo 2^64 and stored as
  an `int`; without a digit nothing is stored, and `store` reports success all the same;
* **runs** — any sequence of reads and writes of the three files.

What is written to a file as a number is what the file shows from then on, in every run
that does not write another number to it (`stored_value_shown`).
-/

namespace Lkm.Sysfs

open Base

/-! ## The kernel's conversions -/

/-- `isspace`, with the no-break space of the kernel's table. -/
def isspace (c : Byte) : Bool := (9 ≤ c.toNat && c.toNat ≤ 13) || c == 32 || c == 160

def minus : Byte := 45

/-- `_parse_integer` in base 10: the digits at the start of the text, modulo 2^64. -/
def parseInteger : BitVec 64 → List Byte → BitVec 64
  | acc, [] => acc
  | acc, c :: cs =>
      if isDigit c then parseInteger (acc * 10 + BitVec.ofNat 64 (digitVal c)) cs else acc

def simpleStrtoll (str : List Byte) : BitVec 64 :=
  if str.head? = some minus then -parseInteger 0 str.tail else parseInteger 0 str

/-- Where `sscanf` looks for a digit. -/
def unsigned (str : List Byte) : List Byte := if str.head? = some minus then str.tail else str

/-- `sscanf(buf, "%d", &v)`: the new value of `v`, if there is one. -/
def sscanfD (buf : List Byte) : Option (BitVec 32) :=
  let str := buf.dropWhile isspace
  if (unsigned str).head?.any isDigit then some ((simpleStrtoll str).setWidth 32) else none

/-- `%d` of `sprintf`. -/
def sprintfD (v : BitVec 32) : List Byte :=
  if v.toInt < 0 then minus :: decimal v.toInt.natAbs else decimal v.toInt.natAbs

/-! ## The module -/

structure State where
  attr1 : BitVec 32
  attr2 : BitVec 32
  attr3 : BitVec 32

/-- `struct kobj_attribute`: its name, and `show` and `store`, which are given the attribute's
name. A store returns `count`. -/
structure KobjAttribute where
  name : List Byte
  showText : List Byte → State → List Byte
  store : List Byte → List Byte → State → Nat × State

def attr1Name : List Byte := textBytes ['a', 't', 't', 'r', '1']
def attr2Name : List Byte := textBytes ['a', 't', 't', 'r', '2']
def attr3Name : List Byte := textBytes ['a', 't', 't', 'r', '3']

/-- `"<name>: %d\n"`. -/
def line (name : List Byte) (v : BitVec 32) : List Byte :=
  name ++ textBytes [':', ' '] ++ sprintfD v ++ textBytes ['\n']

def attr1Show (_ : List Byte) (s : State) : List Byte := line attr1Name s.attr1

def attr1Store (_ buf : List Byte) (s : State) : Nat × State :=
  (buf.length, { s with attr1 := (sscanfD buf).getD s.attr1 })

def attr23Show (name : List Byte) (s : State) : List Byte :=
  if name = attr2Name then line attr2Name s.attr2 else line attr3Name s.attr3

def attr23Store (name buf : List Byte) (s : State) : Nat × State :=
  if name = attr2Name then (buf.length, { s with attr2 := (sscanfD buf).getD s.attr2 })
  else (buf.length, { s with attr3 := (sscanfD buf).getD s.attr3 })

def attr1Attribute : KobjAttribute := ⟨attr1Name, attr1Show, attr1Store⟩
def attr2Attribute : KobjAttribute := ⟨attr2Name, attr23Show, attr23Store⟩
def attr3Attribute : KobjAttribute := ⟨attr3Name, attr23Show, attr23Store⟩

/-- The entries of `attrs`. -/
inductive Attr where
  | attr1
  | attr2
  | attr3
deriving DecidableEq

def Attr.attribute : Attr → KobjAttribute
  | .attr1 => attr1Attribute
  | .attr2 => attr2Attribute
  | .attr3 => attr3Attribute

/-- A read or a write of a file. -/
inductive Access where
  | read (f : Attr)
  | write (f : Attr) (buf : List Byte)

namespace State

/-- The module's variables when it is loaded. -/
def loaded : State := ⟨0, 0, 0⟩

/-- What reading the file returns. -/
def read (s : State) (f : Attr) : List Byte := f.attribute.showText f.attribute.name s

def write (s : State) (f : Attr) (buf : List Byte) : Nat × State :=
  f.attribute.store f.attribute.name buf s

/-- One access: what it returns, as a text or a count, and the state behind it. -/
def access (s : State) : Access → (List Byte ⊕ Nat) × State
  | .read f => (.inl (s.read f), s)
  | .write f buf => (.inr (s.write f buf).1, (s.write f buf).2)

def run : List Access → State → List (List Byte ⊕ Nat) × State
  | [], s => ([], s)
  | x :: xs, s =>
      let (r, s') := s.access x
      let (rs, s'') := run xs s'
      (r :: rs, s'')

/-- The integer behind a file. -/
def value (s : State) : Attr → BitVec 32
  | .attr1 => s.attr1
  | .attr2 => s.attr2
  | .attr3 => s.attr3

theorem read_eq (s : State) (f : Attr) : s.read f = line f.attribute.name (s.value f) := by
  cases f with
  | attr1 => rfl
  | attr2 => rfl
  | attr3 => rfl

theorem value_write_self (s : State) (f : Attr) (buf : List Byte) :
    (s.write f buf).2.value f = (sscanfD buf).getD (s.value f) := by
  cases f with
  | attr1 => rfl
  | attr2 => rfl
  | attr3 => rfl

theorem value_write_ne (s : State) {f g : Attr} (h : g ≠ f) (buf : List Byte) :
    (s.write f buf).2.value g = s.value g := by
  cases f <;> cases g <;> first | exact absurd rfl h | rfl

end State

/-- The access writes no number to `f`. -/
def Access.Spares (f : Attr) : Access → Prop
  | .read _ => True
  | .write g buf => g = f → sscanfD buf = none

theorem value_access {s : State} {f : Attr} {x : Access} (hx : x.Spares f) :
    (s.access x).2.value f = s.value f := by
  cases x with
  | read g => rfl
  | write g buf =>
      by_cases hg : g = f
      · subst hg
        rw [State.access, State.value_write_self, hx rfl]
        rfl
      · exact State.value_write_ne s (Ne.symm hg) buf

theorem value_run {s : State} {f : Attr} {xs : List Access} (hxs : ∀ x ∈ xs, x.Spares f) :
    (State.run xs s).2.value f = s.value f := by
  induction xs generalizing s with
  | nil => rfl
  | cons x xs ih =>
      have hx := value_access (s := s) (hxs x List.mem_cons_self)
      exact (ih fun y hy => hxs y (List.mem_cons_of_mem x hy)).trans hx

/-! ## The round trip of `%d` -/

theorem parseInteger_eq (acc : Nat) (cs : List Byte) :
    parseInteger (BitVec.ofNat 64 acc) cs = BitVec.ofNat 64 (accumulate acc cs) := by
  induction cs generalizing acc with
  | nil => rfl
  | cons c cs ih =>
      rw [parseInteger, accumulate]
      split
      · rw [← ih, BitVec.ofNat_add, BitVec.ofNat_mul]
        rfl
      · rfl

theorem isspace_of_isDigit : ∀ c : Byte, isDigit c = true → isspace c = false := by
  decide

theorem ne_minus_of_isDigit : ∀ c : Byte, isDigit c = true → c ≠ minus := by
  decide

theorem decimal_cons (n : Nat) : ∃ c cs, decimal n = c :: cs ∧ isDigit c = true := by
  cases h : decimal n with
  | nil => exact absurd h (decimal_ne_nil n)
  | cons c cs =>
      refine ⟨c, cs, rfl, isDigit_of_mem_decimal (n := n) ?_⟩
      rw [h]
      exact List.mem_cons_self

/-- A text that begins with a digit. -/
theorem sscanfD_digit {c : Byte} (hc : isDigit c = true) (cs : List Byte) :
    sscanfD (c :: cs) = some (BitVec.ofNat 32 (accumulate 0 (c :: cs))) := by
  have hminus : ¬ (c :: cs).head? = some minus := by
    intro h
    exact ne_minus_of_isDigit c hc (Option.some.inj h)
  have hstart : (c :: cs).dropWhile isspace = c :: cs := by
    rw [List.dropWhile_cons, isspace_of_isDigit c hc]
    rfl
  have hdigit : (unsigned (c :: cs)).head?.any isDigit = true := by
    rw [unsigned, if_neg hminus]
    exact hc
  simp only [sscanfD, hstart, hdigit, if_true, simpleStrtoll, if_neg hminus]
  rw [show (0 : BitVec 64) = BitVec.ofNat 64 0 from rfl, parseInteger_eq,
    BitVec.setWidth_ofNat_of_le (by decide)]

/-- A minus sign in front of one. -/
theorem sscanfD_minus {c : Byte} (hc : isDigit c = true) (cs : List Byte) :
    sscanfD (minus :: c :: cs) = some (-BitVec.ofNat 32 (accumulate 0 (c :: cs))) := by
  have hminus : (minus :: c :: cs).head? = some minus := rfl
  have hstart : (minus :: c :: cs).dropWhile isspace = minus :: c :: cs := rfl
  have hdigit : (unsigned (minus :: c :: cs)).head?.any isDigit = true := by
    rw [unsigned, if_pos hminus]
    exact hc
  simp only [sscanfD, hstart, hdigit, if_true, simpleStrtoll, if_pos hminus, List.tail_cons]
  rw [show (0 : BitVec 64) = BitVec.ofNat 64 0 from rfl, parseInteger_eq,
    BitVec.setWidth_neg_of_le (by decide), BitVec.setWidth_ofNat_of_le (by decide)]

/-- What `%d` prints, `%d` reads. -/
theorem sscanfD_sprintfD (v : BitVec 32) {tail : List Byte}
    (htail : ∀ c ∈ tail.head?, isDigit c = false) : sscanfD (sprintfD v ++ tail) = some v := by
  obtain ⟨c, cs, hdecimal, hc⟩ := decimal_cons v.toInt.natAbs
  have hvalue : accumulate 0 (c :: (cs ++ tail)) = v.toInt.natAbs := by
    rw [← List.cons_append, ← hdecimal]
    exact accumulate_decimal_append _ htail
  have hv : v = BitVec.ofInt 32 v.toInt := BitVec.ofInt_toInt.symm
  rw [sprintfD, hdecimal]
  split
  · next hneg =>
      rw [List.cons_append, List.cons_append, sscanfD_minus hc, hvalue]
      have habs : v.toInt = -(v.toInt.natAbs : Int) := by omega
      rw [habs, BitVec.ofInt_neg, BitVec.ofInt_natCast] at hv
      exact congrArg some hv.symm
  · next hpos =>
      rw [List.cons_append, sscanfD_digit hc, hvalue]
      have habs : v.toInt = (v.toInt.natAbs : Int) := by omega
      rw [habs, BitVec.ofInt_natCast] at hv
      exact congrArg some hv.symm

theorem sscanfD_blanks {blanks : List Byte} (h : ∀ c ∈ blanks, isspace c = true) (buf : List Byte) :
    sscanfD (blanks ++ buf) = sscanfD buf := by
  rw [sscanfD, sscanfD, List.dropWhile_append_of_pos h]

/-- After a number has been written to a file, the file shows that number in every run
that writes no other number to it, whatever is written to the other files. -/
theorem stored_value_shown (s : State) (f : Attr) (v : BitVec 32) {blanks tail : List Byte}
    (hblanks : ∀ c ∈ blanks, isspace c = true) (htail : ∀ c ∈ tail.head?, isDigit c = false)
    {xs : List Access} (hxs : ∀ x ∈ xs, x.Spares f) :
    (State.run xs (s.write f (blanks ++ sprintfD v ++ tail)).2).2.read f =
      line f.attribute.name v := by
  rw [State.read_eq, value_run hxs, State.value_write_self, List.append_assoc, sscanfD_blanks hblanks,
    sscanfD_sprintfD v htail]
  rfl

theorem stored_value_shown_negative :
    (State.run [.write .attr3 (textBytes ['7']), .write .attr2 (textBytes ['x']), .read .attr2]
      (State.loaded.write .attr2 (textBytes [' '] ++ sprintfD (-5) ++ textBytes ['\n'])).2).2.read .attr2 =
      line attr2Name (-5) := by
  apply stored_value_shown State.loaded .attr2 (-5) (by decide) (by decide)
  intro x hx
  simp only [List.mem_cons, List.not_mem_nil, or_false] at hx
  rcases hx with rfl | rfl | rfl
  · exact fun h => nomatch h
  · exact fun _ => rfl
  · trivial

end Lkm.Sysfs
