import Lkm.Base.Bytes

/-!
# Texts and decimal numbers

`decimal n` is the text of a number, most significant digit first, and `accumulate` is
what a parser makes of the digits that a text begins with. Reading what was written gives
the number back, whatever follows that is not a digit (`accumulate_decimal_append`).
-/

namespace Base

/-- The bytes of an ASCII text. -/
def textBytes (text : List Char) : List Byte := text.map fun c => BitVec.ofNat 8 c.toNat

def isDigit (c : Byte) : Bool := 48 ≤ c.toNat && c.toNat ≤ 57

def digit (d : Nat) : Byte := BitVec.ofNat 8 (48 + d)

def digitVal (c : Byte) : Nat := c.toNat - 48

def decimal (n : Nat) : List Byte :=
  if n < 10 then [digit n] else decimal (n / 10) ++ [digit (n % 10)]

/-- Go on from `acc` with the digits at the start of the text. -/
def accumulate : Nat → List Byte → Nat
  | acc, [] => acc
  | acc, c :: cs => if isDigit c then accumulate (acc * 10 + digitVal c) cs else acc

section

variable {d n acc : Nat}

theorem digit_toNat (h : d < 10) : (digit d).toNat = 48 + d := by
  rw [digit, BitVec.toNat_ofNat]
  exact Nat.mod_eq_of_lt (by omega)

theorem isDigit_digit (h : d < 10) : isDigit (digit d) = true := by
  simp only [isDigit, digit_toNat h, Bool.and_eq_true, decide_eq_true_eq]
  omega

theorem digitVal_digit (h : d < 10) : digitVal (digit d) = d := by
  rw [digitVal, digit_toNat h]
  omega

theorem isDigit_of_mem_decimal {c : Byte} (hc : c ∈ decimal n) : isDigit c = true := by
  induction n using decimal.induct with
  | case1 n h =>
      rw [decimal, if_pos h] at hc
      rw [List.mem_singleton.mp hc]
      exact isDigit_digit h
  | case2 n h ih =>
      rw [decimal, if_neg h] at hc
      rcases List.mem_append.mp hc with hc | hc
      · exact ih hc
      · rw [List.mem_singleton.mp hc]
        exact isDigit_digit (Nat.mod_lt n (by decide))

theorem decimal_ne_nil (n : Nat) : decimal n ≠ [] := by
  rw [decimal]
  split
  · exact List.cons_ne_nil _ _
  · exact List.append_ne_nil_of_right_ne_nil _ (List.cons_ne_nil _ _)

theorem accumulate_append {ds : List Byte} (hds : ∀ c ∈ ds, isDigit c = true) (cs : List Byte) :
    accumulate acc (ds ++ cs) = accumulate (accumulate acc ds) cs := by
  induction ds generalizing acc with
  | nil => rfl
  | cons c ds ih =>
      have hc : isDigit c = true := hds c List.mem_cons_self
      rw [List.cons_append, accumulate, accumulate, if_pos hc, if_pos hc]
      exact ih fun c' hc' => hds c' (List.mem_cons_of_mem c hc')

theorem accumulate_digit (h : d < 10) : accumulate acc [digit d] = acc * 10 + d := by
  rw [accumulate, if_pos (isDigit_digit h), accumulate, digitVal_digit h]

theorem accumulate_decimal (n : Nat) : accumulate 0 (decimal n) = n := by
  induction n using decimal.induct with
  | case1 n h =>
      rw [decimal, if_pos h, accumulate_digit h]
      omega
  | case2 n h ih =>
      rw [decimal, if_neg h, accumulate_append fun _ => isDigit_of_mem_decimal, ih,
        accumulate_digit (Nat.mod_lt n (by decide))]
      omega

/-- The round trip, in front of a text that does not begin with a digit. -/
theorem accumulate_decimal_append (n : Nat) {cs : List Byte}
    (hcs : ∀ c ∈ cs.head?, isDigit c = false) : accumulate 0 (decimal n ++ cs) = n := by
  rw [accumulate_append fun _ => isDigit_of_mem_decimal, accumulate_decimal]
  cases cs with
  | nil => rfl
  | cons c cs =>
      rw [accumulate, hcs c rfl]
      rfl

end

end Base
