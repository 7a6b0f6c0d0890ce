import Lkm.Pci.HelloDriver

/-!
# Interrupt line and interrupt status

The line and `threw_irq` are two copies of one fact. Accesses of any origin come in
any order; among them are those of invocations of `hello_tic_handler`, of which any
number may be in progress.

The pulse at the head of `hello_iowrite` ends with the line down, and only the
branch for port 0 sets it again: a write to another port while an interrupt is
pending takes the line down and leaves the status. This is the only way in which
the copies come apart.
-/

namespace Lkm.Pci

open Base

namespace PCIHelloDevState

/-- The line is asserted if and only if the status is nonzero. -/
def Agrees (d : PCIHelloDevState) : Prop := d.line = true ↔ d.threwIrq ≠ 0

/-- The access is not a port write that finds an interrupt pending and is not for
port 0. -/
def Quiet (d : PCIHelloDevState) : Access → Prop
  | .ioWrite addr _ => addr = 0 ∨ d.threwIrq = 0
  | _ => True

theorem setWidth_eq_zero (value : BitVec 32) : value.setWidth 64 = 0 ↔ value = 0 := by
  constructor
  · intro h
    apply BitVec.eq_of_toNat_eq
    have hnat := congrArg BitVec.toNat h
    rw [BitVec.toNat_setWidth, Nat.mod_eq_of_lt (by omega)] at hnat
    exact hnat
  · rintro rfl
    rfl

theorem threwIrq_iowrite_zero (rand : Nat → Byte) (d : PCIHelloDevState) (value : BitVec 32) :
    (d.access rand (.ioWrite 0 value)).1.threwIrq ≠ 0 ↔ value ≠ 0 := by
  simp only [access, helloIowrite, if_true, ne_eq, setWidth_eq_zero]
  split <;> simp_all [pciIrqAssert, pciIrqDeassert]

theorem agrees_iowrite_zero (rand : Nat → Byte) (d : PCIHelloDevState) (value : BitVec 32) :
    (d.access rand (.ioWrite 0 value)).1.Agrees := by
  simp only [Agrees, access, helloIowrite, if_true]
  split <;> simp [pciIrqAssert, pciIrqDeassert]

/-- A write to another port than 0 keeps the status, and takes the line down. -/
theorem iowrite_other (rand : Nat → Byte) (d : PCIHelloDevState) {addr : BitVec 64}
    (haddr : addr ≠ 0) (value : BitVec 32) :
    (d.access rand (.ioWrite addr value)).1.threwIrq = d.threwIrq ∧
      (d.access rand (.ioWrite addr value)).1.line = false := by
  simp only [access, helloIowrite, if_neg haddr]
  split <;> simp [dma, pciIrqAssert, pciIrqDeassert]

theorem threwIrq_mmioWrite (rand : Nat → Byte) (d : PCIHelloDevState) (addr : BitVec 64)
    (value : BitVec 32) :
    (d.access rand (.mmioWrite addr value)).1.threwIrq = d.threwIrq ∧
      (d.access rand (.mmioWrite addr value)).1.line = d.line := by
  simp only [access, helloMmiowrite]
  split <;> simp

/-- Only a write to port 0 changes the status. -/
theorem threwIrq_access (rand : Nat → Byte) (d : PCIHelloDevState) (a : Access)
    (ha : ∀ value, a ≠ .ioWrite 0 value) : (d.access rand a).1.threwIrq = d.threwIrq := by
  cases a with
  | ioRead addr => rfl
  | mmioRead addr => rfl
  | mmioWrite addr value => exact (threwIrq_mmioWrite rand d addr value).1
  | ioWrite addr value =>
      have haddr : addr ≠ 0 := by
        rintro rfl
        exact ha value rfl
      exact (iowrite_other rand d haddr value).1

/-- One access to a device whose line and status agree: they agree afterwards if and
only if the access is quiet. -/
theorem Agrees.access_iff (rand : Nat → Byte) {d : PCIHelloDevState} (h : d.Agrees) (a : Access) :
    (d.access rand a).1.Agrees ↔ d.Quiet a := by
  cases a with
  | ioRead addr => simpa [Quiet, access] using h
  | mmioRead addr => simpa [Quiet, access] using h
  | mmioWrite addr value =>
      obtain ⟨hstatus, hline⟩ := threwIrq_mmioWrite rand d addr value
      simpa [Quiet, Agrees, hstatus, hline] using h
  | ioWrite addr value =>
      by_cases haddr : addr = 0
      · subst haddr
        simpa [Quiet] using agrees_iowrite_zero rand d value
      · obtain ⟨hstatus, hline⟩ := iowrite_other rand d haddr value
        simp only [Quiet, Agrees, hstatus, hline, haddr, false_or]
        simp

end PCIHelloDevState

/-- The device and the invocations of the handler, under numbers. -/
structure Bus where
  dev : PCIHelloDevState
  handlers : Nat → Option Handler

inductive BusEvent where
  /-- An access by anybody but the handler. -/
  | access (a : Access)
  | invoke (h : Nat)
  /-- The next access of an invocation. -/
  | handler (h : Nat)

namespace Bus

/-- The access that an event makes. -/
def accessOf (b : Bus) : BusEvent → Option Access
  | .access a => some a
  | .invoke _ => none
  | .handler h => (b.handlers h).map Handler.access

def step (rand : Nat → Byte) (b : Bus) : BusEvent → Bus
  | .access a => { b with dev := (b.dev.access rand a).1 }
  | .invoke h =>
      -- an invocation that is in progress goes on
      if (b.handlers h).isSome then b
      else { b with handlers := Function.update b.handlers h (some .entered) }
  | .handler h =>
      match b.handlers h with
      | some i =>
          let (dev, value) := b.dev.access rand i.access
          { dev := dev, handlers := Function.update b.handlers h (helloTicHandler value i) }
      | none => b

def run (rand : Nat → Byte) (b : Bus) (es : List BusEvent) : Bus := es.foldl (step rand) b

/-- The accesses of a run, in order. -/
def accesses (rand : Nat → Byte) : Bus → List BusEvent → List Access
  | _, [] => []
  | b, e :: es => (b.accessOf e).toList ++ accesses rand (b.step rand e) es

/-- The device as `pci_hellodev_init` leaves it, and no invocation. -/
def start (dmaBuf ram : Buf) : Bus := ⟨pciHellodevInit dmaBuf ram, fun _ => none⟩

variable (rand : Nat → Byte)

/-- The device sees the accesses and nothing else. -/
theorem step_dev (b : Bus) (e : BusEvent) :
    (b.step rand e).dev = (b.accessOf e).elim b.dev fun a => (b.dev.access rand a).1 := by
  cases e with
  | access a => rfl
  | invoke h =>
      simp only [step, accessOf]
      split <;> rfl
  | handler h =>
      simp only [step, accessOf]
      cases b.handlers h <;> rfl

theorem run_append (b : Bus) (es es' : List BusEvent) :
    b.run rand (es ++ es') = (b.run rand es).run rand es' := List.foldl_append

/-- An event whose access, if it makes one, is quiet. -/
def Quiet (b : Bus) (e : BusEvent) : Prop := ∀ a ∈ b.accessOf e, b.dev.Quiet a

theorem agrees_step_iff {b : Bus} (h : b.dev.Agrees) (e : BusEvent) :
    (b.step rand e).dev.Agrees ↔ b.Quiet e := by
  rw [step_dev, Quiet]
  cases b.accessOf e with
  | none => simpa using h
  | some a => simpa using h.access_iff rand a

/-- In a run of quiet events the line and the status agree. -/
theorem agrees_run {b : Bus} (h : b.dev.Agrees) (es : List BusEvent)
    (hquiet : ∀ before e after, es = before ++ e :: after → (b.run rand before).Quiet e) :
    (b.run rand es).dev.Agrees := by
  induction es generalizing b with
  | nil => exact h
  | cons e es ih =>
      have hstep : (b.step rand e).dev.Agrees :=
        (agrees_step_iff rand h e).mpr (hquiet [] e es rfl)
      apply ih hstep
      intro before e' after hes
      have hcons : e :: es = (e :: before) ++ e' :: after := by rw [hes]; rfl
      exact hquiet (e :: before) e' after hcons

/-- A pending interrupt stays pending until 0 is written to port 0. -/
theorem pending_run {b : Bus} (h : b.dev.threwIrq ≠ 0) (es : List BusEvent)
    (hkept : Access.ioWrite 0 0 ∉ b.accesses rand es) : (b.run rand es).dev.threwIrq ≠ 0 := by
  induction es generalizing b with
  | nil => exact h
  | cons e es ih =>
      simp only [accesses, List.mem_append, not_or, Option.mem_toList] at hkept
      refine ih ?_ hkept.2
      rw [step_dev]
      cases he : b.accessOf e with
      | none => exact h
      | some a =>
          show (b.dev.access rand a).1.threwIrq ≠ 0
          by_cases hport : ∃ value, a = .ioWrite 0 value
          · obtain ⟨value, rfl⟩ := hport
            rw [PCIHelloDevState.threwIrq_iowrite_zero]
            rintro rfl
            exact hkept.1 he
          · rw [PCIHelloDevState.threwIrq_access rand b.dev a (not_exists.mp hport)]
            exact h

end Bus

/-- What an interrupt needs of a run: line and status agree after every event, and a
nonzero write to port 0 keeps the line asserted until 0 is written to port 0. -/
structure LineSound (rand : Nat → Byte) (b : Bus) (es : List BusEvent) : Prop where
  agrees : ∀ before, before <+: es → (b.run rand before).dev.Agrees
  kept : ∀ before e during value, before ++ e :: during <+: es →
    (b.run rand before).accessOf e = some (.ioWrite 0 value) → value ≠ 0 →
    Access.ioWrite 0 0 ∉ (b.run rand (before ++ [e])).accesses rand during →
    (b.run rand (before ++ e :: during)).dev.line = true

/-- A run is sound exactly when no port but port 0 is written while an interrupt is
pending. -/
theorem line_sound_iff (rand : Nat → Byte) (dmaBuf ram : Buf) (es : List BusEvent) :
    LineSound rand (Bus.start dmaBuf ram) es ↔
      ∀ before e after, es = before ++ e :: after →
        ((Bus.start dmaBuf ram).run rand before).Quiet e := by
  have hstart : (Bus.start dmaBuf ram).dev.Agrees := by
    simp [Bus.start, pciHellodevInit, PCIHelloDevState.Agrees]
  constructor
  · rintro h before e after rfl
    have hbefore := h.agrees before (List.prefix_append _ _)
    have hafter := h.agrees (before ++ [e]) ⟨after, by simp⟩
    rw [Bus.run_append] at hafter
    exact (Bus.agrees_step_iff rand hbefore e).mp hafter
  · intro hquiet
    have hagrees : ∀ before, before <+: es →
        ((Bus.start dmaBuf ram).run rand before).dev.Agrees := by
      rintro before ⟨rest, rfl⟩
      apply Bus.agrees_run rand hstart
      rintro before' e after rfl
      exact hquiet before' e (after ++ rest) (by simp)
    refine ⟨hagrees, ?_⟩
    intro before e during value hes he hvalue hkept
    -- the status is set by the write and stays, and the line follows it
    have hraised : ((Bus.start dmaBuf ram).run rand (before ++ [e])).dev.threwIrq ≠ 0 := by
      rw [Bus.run_append]
      show ((Bus.run rand _ before).step rand e).dev.threwIrq ≠ 0
      rw [Bus.step_dev, he]
      exact (PCIHelloDevState.threwIrq_iowrite_zero rand _ value).mpr hvalue
    have hpending := Bus.pending_run rand hraised during hkept
    rw [← Bus.run_append, List.append_assoc, List.singleton_append] at hpending
    exact (hagrees _ hes).mpr hpending

/-- An interrupt is raised at port 0; a write to port 4 starts a transfer and drops it. -/
def dropByDma : List BusEvent := [.access (.ioWrite 0 1), .access (.ioWrite 4 1)]

theorem interrupt_dropped :
    ∃ b, b = (Bus.start (fun _ => 0) fun _ => 0).run (fun _ => 0) dropByDma ∧
      b.dev.threwIrq = 1 ∧ b.dev.line = false ∧
      (LineSound (fun _ => 0) (Bus.start (fun _ => 0) fun _ => 0) dropByDma ↔ False) := by
  refine ⟨_, rfl, rfl, rfl, iff_false_intro ?_⟩
  intro h
  have hagrees := h.agrees dropByDma (List.prefix_refl _)
  exact absurd (hagrees.mpr (by decide)) (by decide)

end Lkm.Pci
