import Lkm.Base.Bytes
import Lkm.Ftrace.Loads

/-!
# Calls through the hooks

What the machine does while the hooks are up. A kernel function is a `Code`: it works on the
state of the kernel and calls other functions. On each call ftrace runs the thunk of the ops
that is registered for the function, and the thunk may send the call to the module instead,
unless it comes from there: that is how `fh_sys_clone` gets to the real `sys_clone`.

`hooks_transparent`: with the hooks, a call returns exactly if it does without them, with
the same result and the same state of the kernel, and the log is the history of the calls
of the two functions, in order. It is about calls of kernel functions from which no chain of
calls leads into the module (`Apart`), so not about `delete_module`. The one exception is a file name of 4096 bytes or more:
`duplicate_filename` does not terminate it, and `pr_info` reads past its end.

The proof compares tables of callees (`Simulates`): a body does the same over two tables that
do the same. A hooked call needs two levels where a plain one needs one, so `n` levels of
plain calls are `2 * n` of hooked ones.
-/

namespace Lkm.Ftrace

open Base

abbrev Long := BitVec 64

/-- The body of a function: it reads and changes the state of the kernel, and calls functions. -/
inductive Code (σ ρ : Type) where
  | ret (r : Long)
  | get (k : σ → Code σ ρ)
  | upd (f : σ → σ) (k : Code σ ρ)
  | call (a : Addr) (regs : ρ) (k : Long → Code σ ρ)

/-- The functions that a body calls satisfy `p`. -/
def Code.Calls {σ ρ : Type} (p : Addr → Prop) : Code σ ρ → Prop
  | .ret _ => True
  | .get k => ∀ s, (k s).Calls p
  | .upd _ k => k.Calls p
  | .call a _ k => p a ∧ ∀ r, (k r).Calls p

/-- A kernel with its registers `ρ`: the functions (a function that somebody else patches is the
patch), the register `di`, the memory of the user, and whether `kmalloc` succeeds. -/
structure Program (σ ρ : Type) where
  text : Addr → ρ → Code σ ρ
  di : ρ → Addr
  user : σ → Addr → Option Byte
  kmalloc : σ → Bool
  /-- `within_module(_, THIS_MODULE)`. -/
  withinModule : Addr → Bool

/-- A kernel function has been entered, or has returned. -/
inductive Entry (σ ρ : Type) where
  | enter (a : Addr) (regs : ρ) (s : σ)
  | leave (a : Addr) (r : Long)

/-- The machine. `live` counts the buffers of the module; the history is read by no code. -/
structure Mach (σ ρ : Type) where
  kernel : σ
  log : List String
  live : Nat
  history : List (Entry σ ρ)

/-- A string without an end is printed. -/
inductive Oops where
  | overread
deriving DecidableEq

/-- How a call ends; `none` while it has not. -/
abbrev Res (σ ρ : Type) := Option (Except Oops (Long × Mach σ ρ))

section Calls

variable {σ ρ : Type}

/-- Go on with a call that has returned. -/
def andThen (x : Res σ ρ) (f : Long → Mach σ ρ → Res σ ρ) : Res σ ρ :=
  match x with
  | none => none
  | some (.error e) => some (.error e)
  | some (.ok (r, m)) => f r m

namespace Mach

/-- `pr_info`, with the prefix of `pr_fmt`. -/
def prInfo (m : Mach σ ρ) (text : String) : Mach σ ρ :=
  { m with log := m.log ++ ["ftrace_hook: " ++ text] }

def record (m : Mach σ ρ) (e : Entry σ ρ) : Mach σ ρ := { m with history := m.history ++ [e] }

end Mach

/-- A function of the module, which calls others through `call`. -/
abbrev ModFn (σ ρ : Type) := (Addr → ρ → Mach σ ρ → Res σ ρ) → ρ → Mach σ ρ → Res σ ρ

/-! ## The functions of the module -/

/-- `strncpy_from_user(dst, src, count)`: the bytes that it writes, `none` if some are not there. -/
def strncpyFromUser (user : Addr → Option Byte) (src : Addr) : Nat → Option (List Byte)
  | 0 => some []
  | n + 1 =>
      match user src with
      | none => none
      | some b => if b = 0 then some [0] else (strncpyFromUser user (src + 1) n).map (b :: ·)

/-- `duplicate_filename`, `none` for NULL. -/
def duplicateFilename (P : Program σ ρ) (filename : Addr) (m : Mach σ ρ) :
    Option (List Byte) × Mach σ ρ :=
  if P.kmalloc m.kernel then
    let m := { m with live := m.live + 1 }
    match strncpyFromUser (P.user m.kernel) filename 4096 with
    | none => (none, { m with live := m.live - 1 })
    | some bytes => (some bytes, m)
  else (none, m)

/-- `kfree`, which takes NULL, too. -/
def kfree (p : Option (List Byte)) (m : Mach σ ρ) : Mach σ ρ :=
  if p.isSome then { m with live := m.live - 1 } else m

/-- The text for `%s`: up to the NUL, and a NULL pointer has one of its own. -/
def formatString : Option (List Byte) → Except Oops String
  | none => .ok "(null)"
  | some bytes =>
      if 0 ∈ bytes then
        .ok (String.ofList ((bytes.takeWhile (· ≠ 0)).map fun b => Char.ofNat b.toNat))
      else .error .overread

def fhSysClone (realSysClone : Addr) : ModFn σ ρ := fun call regs m =>
  let m := m.prInfo "clone() before\n"
  andThen (call realSysClone regs m) fun ret m =>
  let m := m.prInfo ("clone() after: " ++ toString ret.toInt ++ "\n")
  some (.ok (ret, m))

def fhSysExecve (P : Program σ ρ) (realSysExecve : Addr) : ModFn σ ρ := fun call regs m =>
  let (kernelFilename, m) := duplicateFilename P (P.di regs) m
  match formatString kernelFilename with
  | .error e => some (.error e)
  | .ok text =>
      let m := m.prInfo ("execve() before: " ++ text ++ "\n")
      let m := kfree kernelFilename m
      andThen (call realSysExecve regs m) fun ret m =>
      let m := m.prInfo ("execve() after: " ++ toString ret.toInt ++ "\n")
      some (.ok (ret, m))

/-! ## Running -/

/-- `fh_ftrace_thunk`: where the call of `ip` from `parentIp` goes. -/
def fhFtraceThunk (withinModule : Addr → Bool) (hook : Hook) (parentIp ip : Addr) : Addr :=
  if !withinModule parentIp then hook.function else ip

/-- The ops that is registered for the function has its thunk called. -/
def dispatch (withinModule : Addr → Bool) (T : HookTable) (t : Tracer) (parentIp ip : Addr) : Addr :=
  let hook := T.hooks.find? fun h => t.registered h.ops && (t.filter h.ops).contains ip
  (hook.map fun h => fhFtraceThunk withinModule h parentIp ip).getD ip

/-- A body, with `call` for the calls in it. -/
def runCode (call : Addr → ρ → Mach σ ρ → Res σ ρ) : Code σ ρ → Mach σ ρ → Res σ ρ
  | .ret r, m => some (.ok (r, m))
  | .get k, m => runCode call (k m.kernel) m
  | .upd f k, m => runCode call k { m with kernel := f m.kernel }
  | .call a regs k, m => andThen (call a regs m) fun r m => runCode call (k r) m

/-- A function of the kernel. -/
def runText (P : Program σ ρ) (call : Addr → ρ → Mach σ ρ → Res σ ρ) (ip : Addr) (regs : ρ)
    (m : Mach σ ρ) : Res σ ρ :=
  andThen (runCode call (P.text ip regs) (m.record (.enter ip regs m.kernel))) fun r m =>
  some (.ok (r, m.record (.leave ip r)))

/-- Call the function `ip` from `parentIp`, at most `fuel` calls deep. `goto` is what ftrace does,
`modText` the functions of the module. -/
def invoke (P : Program σ ρ) (modText : Addr → Option (ModFn σ ρ)) (goto : Addr → Addr → Addr) :
    Nat → Addr → Addr → ρ → Mach σ ρ → Res σ ρ
  | 0, _, _, _, _ => none
  | fuel + 1, parentIp, ip, regs, m =>
      let ip := goto parentIp ip
      match modText ip with
      | some fn => fn (invoke P modText goto fuel ip) regs m
      | none => runText P (invoke P modText goto fuel ip) ip regs m

/-- The functions of the module, which read `real_sys_clone` and `real_sys_execve`. -/
def demoText (P : Program σ ρ) (clone execve : Addr) (s : State) (ip : Addr) : Option (ModFn σ ρ) :=
  if ip = clone then some (fhSysClone (s.original 0))
  else if ip = execve then some (fhSysExecve P (s.original 1))
  else none

/-! ## Answers of a table of callees -/

/-- `call'` has all answers of `call`. -/
def Extends (call call' : Addr → ρ → Mach σ ρ → Res σ ρ) : Prop :=
  ∀ a regs m x, call a regs m = some x → call' a regs m = some x

theorem andThen_eq_ok {x : Res σ ρ} {f : Long → Mach σ ρ → Res σ ρ} {y : Long × Mach σ ρ} :
    andThen x f = some (.ok y) ↔ ∃ r m, x = some (.ok (r, m)) ∧ f r m = some (.ok y) := by
  constructor
  · intro h
    rcases x with _ | (e | ⟨r, m⟩)
    · cases h
    · cases h
    · exact ⟨r, m, rfl, h⟩
  · rintro ⟨r, m, rfl, h⟩
    exact h

theorem andThen_extends {x x' : Res σ ρ} {f f' : Long → Mach σ ρ → Res σ ρ}
    (hx : ∀ y, x = some y → x' = some y) (hf : ∀ r m y, f r m = some y → f' r m = some y)
    {y : Except Oops (Long × Mach σ ρ)} (h : andThen x f = some y) : andThen x' f' = some y := by
  rcases x with _ | (e | ⟨r, m⟩)
  · cases h
  · rw [hx _ rfl]
    exact h
  · rw [hx _ rfl]
    exact hf r m y h

section Extends

variable {call call' : Addr → ρ → Mach σ ρ → Res σ ρ} (h : Extends call call')

include h

theorem runCode_extends (c : Code σ ρ) (m : Mach σ ρ) {x : Except Oops (Long × Mach σ ρ)}
    (hrun : runCode call c m = some x) : runCode call' c m = some x := by
  induction c generalizing m x with
  | ret r => exact hrun
  | get k ih => exact ih m.kernel m hrun
  | upd f k ih => exact ih _ hrun
  | call a regs k ih => exact andThen_extends (h a regs m) (fun r m' _ => ih r m') hrun

theorem runText_extends (P : Program σ ρ) : Extends (runText P call) (runText P call') := by
  intro a regs m x hrun
  exact andThen_extends (fun _ => runCode_extends h _ _) (fun _ _ _ hdone => hdone) hrun

end Extends

/-- A function of the module is the better for a better table. -/
def ModFn.Monotone (fn : ModFn σ ρ) : Prop :=
  ∀ call call' : Addr → ρ → Mach σ ρ → Res σ ρ, Extends call call' →
    ∀ regs m x, fn call regs m = some x → fn call' regs m = some x

/-- More fuel does not change an answer. -/
theorem invoke_succ_extends {P : Program σ ρ} {modText : Addr → Option (ModFn σ ρ)}
    {goto : Addr → Addr → Addr} (hmod : ∀ ip fn, modText ip = some fn → fn.Monotone) (n : Nat)
    (parentIp : Addr) :
    Extends (invoke P modText goto n parentIp) (invoke P modText goto (n + 1) parentIp) := by
  induction n generalizing parentIp with
  | zero =>
      intro a regs m x hrun
      cases hrun
  | succ n ih =>
      intro a regs m x hrun
      unfold invoke at hrun ⊢
      dsimp only at hrun ⊢
      cases htext : modText (goto parentIp a) with
      | some fn =>
          rw [htext] at hrun
          exact hmod _ fn htext _ _ (ih _) regs m x hrun
      | none =>
          rw [htext] at hrun
          exact runText_extends (ih _) P _ regs m x hrun

/-! ## Wrappers

Both functions of the module have one shape: a line, the real function, another line. -/

/-- What a wrapper prints before the real function, and after it. -/
structure Shape (σ ρ : Type) where
  before : ρ → σ → Except Oops String
  after : Long → String

/-- A function of the module that prints as `sh` says around the real one. -/
def wrapper (sh : Shape σ ρ) (real : Addr) : ModFn σ ρ := fun call regs m =>
  match sh.before regs m.kernel with
  | .error e => some (.error e)
  | .ok text =>
      andThen (call real regs (m.prInfo text)) fun ret m => some (.ok (ret, m.prInfo (sh.after ret)))

theorem wrapper_monotone (sh : Shape σ ρ) (real : Addr) : (wrapper sh real).Monotone := by
  intro call call' h regs m x hrun
  unfold wrapper at hrun ⊢
  cases hbefore : sh.before regs m.kernel with
  | error e =>
      rw [hbefore] at hrun
      exact hrun
  | ok text =>
      rw [hbefore] at hrun
      exact andThen_extends (h real regs _) (fun _ _ _ hdone => hdone) hrun

/-- When a wrapper returns. -/
theorem wrapper_eq_ok {sh : Shape σ ρ} {real : Addr} {call : Addr → ρ → Mach σ ρ → Res σ ρ}
    {regs : ρ} {m m' : Mach σ ρ} {r : Long} :
    wrapper sh real call regs m = some (.ok (r, m')) ↔
      ∃ text m₁, sh.before regs m.kernel = .ok text ∧
        call real regs (m.prInfo text) = some (.ok (r, m₁)) ∧ m' = m₁.prInfo (sh.after r) := by
  unfold wrapper
  cases hbefore : sh.before regs m.kernel with
  | error e => simp
  | ok text =>
      simp only [andThen_eq_ok, Option.some.injEq, Except.ok.injEq, Prod.mk.injEq]
      constructor
      · rintro ⟨r₁, m₁, hcall, rfl, rfl⟩
        exact ⟨text, m₁, rfl, hcall, rfl⟩
      · rintro ⟨_, m₁, rfl, hcall, rfl⟩
        exact ⟨r, m₁, hcall, rfl, rfl⟩

def cloneShape : Shape σ ρ where
  before := fun _ _ => .ok "clone() before\n"
  after := fun ret => "clone() after: " ++ toString ret.toInt ++ "\n"

/-- What `duplicate_filename` returns. -/
def filenameCopy (P : Program σ ρ) (filename : Addr) (s : σ) : Option (List Byte) :=
  if P.kmalloc s then strncpyFromUser (P.user s) filename 4096 else none

def execveShape (P : Program σ ρ) : Shape σ ρ where
  before := fun regs s =>
    (formatString (filenameCopy P (P.di regs) s)).map fun text => "execve() before: " ++ text ++ "\n"
  after := fun ret => "execve() after: " ++ toString ret.toInt ++ "\n"

/-- A buffer is left exactly if there is one to return. -/
theorem duplicateFilename_eq (P : Program σ ρ) (filename : Addr) (m : Mach σ ρ) :
    duplicateFilename P filename m = (filenameCopy P filename m.kernel,
      if (filenameCopy P filename m.kernel).isSome then { m with live := m.live + 1 } else m) := by
  unfold duplicateFilename filenameCopy
  by_cases hmalloc : P.kmalloc m.kernel = true
  · rw [if_pos hmalloc, if_pos hmalloc]
    dsimp only
    cases strncpyFromUser (P.user m.kernel) filename 4096 with
    | none => rfl
    | some bytes => rfl
  · rw [if_neg hmalloc, if_neg hmalloc]
    rfl

theorem fhSysClone_eq (real : Addr) : (fhSysClone real : ModFn σ ρ) = wrapper cloneShape real := rfl

/-- The buffer is gone before the real function is called, however the copy went. -/
theorem fhSysExecve_eq (P : Program σ ρ) (real : Addr) :
    fhSysExecve P real = wrapper (execveShape P) real := by
  funext call regs m
  unfold fhSysExecve wrapper execveShape
  rw [duplicateFilename_eq]
  dsimp only
  cases filenameCopy P (P.di regs) m.kernel with
  | none => rfl
  | some bytes =>
      cases formatString (some bytes) with
      | error e => rfl
      | ok text => rfl

/-! ## The log of a history -/

/-- The lines for an entry, if they can be printed. -/
def lines (shape : Addr → Option (Shape σ ρ)) : Entry σ ρ → Option (List String)
  | .enter a regs s =>
      match shape a with
      | none => some []
      | some sh => (sh.before regs s).toOption.map fun text => ["ftrace_hook: " ++ text]
  | .leave a r =>
      match shape a with
      | none => some []
      | some sh => some ["ftrace_hook: " ++ sh.after r]

/-- The log of a history, if all of it can be printed. -/
def render (shape : Addr → Option (Shape σ ρ)) (history : List (Entry σ ρ)) : Option (List String) :=
  (history.mapM (lines shape)).map List.flatten

theorem render_append {shape : Addr → Option (Shape σ ρ)} {h h' : List (Entry σ ρ)} {l : List String} :
    render shape (h ++ h') = some l ↔
      ∃ l₁ l₂, render shape h = some l₁ ∧ render shape h' = some l₂ ∧ l = l₁ ++ l₂ := by
  unfold render
  rw [List.mapM_append]
  cases h.mapM (lines shape) with
  | none => simp
  | some a =>
      cases h'.mapM (lines shape) with
      | none => simp
      | some b => simp [eq_comm]

theorem render_snoc {shape : Addr → Option (Shape σ ρ)} {h : List (Entry σ ρ)} {e : Entry σ ρ}
    {l₁ l₂ : List String} (hl₁ : render shape h = some l₁) (hl₂ : lines shape e = some l₂) :
    render shape (h ++ [e]) = some (l₁ ++ l₂) := by
  refine render_append.mpr ⟨l₁, l₂, hl₁, ?_, rfl⟩
  simp [render, hl₂]

/-! ## A kernel with detours and a plain one -/

/-- The machine with the hooks and the one without them, which prints nothing. -/
structure Sim (shape : Addr → Option (Shape σ ρ)) (m m₀ : Mach σ ρ) : Prop where
  kernel : m.kernel = m₀.kernel
  live : m.live = m₀.live
  history : m.history = m₀.history
  log : render shape m₀.history = some m.log

namespace Sim

variable {shape : Addr → Option (Shape σ ρ)} {m m₀ : Mach σ ρ}

theorem update (h : Sim shape m m₀) (f : σ → σ) :
    Sim shape { m with kernel := f m.kernel } { m₀ with kernel := f m₀.kernel } :=
  ⟨congrArg f h.kernel, h.live, h.history, h.log⟩

/-- Both machines pass an entry for which there is nothing to print. -/
theorem record (h : Sim shape m m₀) {e : Entry σ ρ} (he : lines shape e = some []) :
    Sim shape (m.record e) (m₀.record e) := by
  refine ⟨h.kernel, h.live, congrArg (· ++ [e]) h.history, ?_⟩
  have hlog := render_snoc h.log he
  rw [List.append_nil] at hlog
  exact hlog

/-- The hooked machine has printed what there is for the entry. -/
theorem record_printed (h : Sim shape m m₀) {e : Entry σ ρ} {text : String}
    (he : lines shape e = some ["ftrace_hook: " ++ text]) :
    Sim shape ((m.prInfo text).record e) (m₀.record e) :=
  ⟨h.kernel, h.live, congrArg (· ++ [e]) h.history, render_snoc h.log he⟩

end Sim

/-- A set of kernel functions that call each other and nothing else, as the code is linked. -/
structure Apart (P : Program σ ρ) (A : Addr → Prop) : Prop where
  outside : ∀ ip, A ip → P.withinModule ip = false
  calls : ∀ ip regs, A ip → (P.text ip regs).Calls A

/-- What the hooks do to the calls: from the kernel a call of a hooked function goes to its wrapper,
from the module to the function itself. -/
structure Detours (P : Program σ ρ) (modText : Addr → Option (ModFn σ ρ)) (goto : Addr → Addr → Addr)
    (shape : Addr → Option (Shape σ ρ)) : Prop where
  monotone : ∀ ip fn, modText ip = some fn → fn.Monotone
  outside : ∀ ip, P.withinModule ip = false → modText ip = none
  hooked : ∀ parentIp ip sh, P.withinModule parentIp = false → shape ip = some sh →
    P.withinModule (goto parentIp ip) = true ∧ modText (goto parentIp ip) = some (wrapper sh ip)
  back : ∀ parentIp ip, P.withinModule parentIp = true → goto parentIp ip = ip
  other : ∀ parentIp ip, shape ip = none → goto parentIp ip = ip

/-- A call without the hooks. -/
abbrev plain (P : Program σ ρ) := invoke P (fun _ => none) (fun _ ip => ip)

theorem plain_extends (P : Program σ ρ) (n : Nat) (parentIp : Addr) :
    Extends (plain P n parentIp) (plain P (n + 1) parentIp) := by
  apply invoke_succ_extends
  intro ip fn hnone
  cases hnone

/-- What any code may do to a plain machine: the history grows and the buffers are as they were. -/
structure Grows (m m' : Mach σ ρ) : Prop where
  history : m.history <+: m'.history
  live : m'.live = m.live

theorem Grows.trans {m m₁ m' : Mach σ ρ} (h : Grows m m₁) (h' : Grows m₁ m') : Grows m m' :=
  ⟨h.history.trans h'.history, h'.live.trans h.live⟩

theorem Grows.record (m : Mach σ ρ) (e : Entry σ ρ) : Grows m (m.record e) :=
  ⟨List.prefix_append _ _, rfl⟩

section Bodies

variable {call call₀ : Addr → ρ → Mach σ ρ → Res σ ρ} {p : Addr → Prop}
  {shape : Addr → Option (Shape σ ρ)}

theorem runCode_grows (hcall : ∀ a regs m r m', call a regs m = some (.ok (r, m')) → Grows m m')
    (c : Code σ ρ) {m m' : Mach σ ρ} {r : Long} (h : runCode call c m = some (.ok (r, m'))) :
    Grows m m' := by
  induction c generalizing m with
  | ret r₁ =>
      cases h
      exact ⟨List.prefix_rfl, rfl⟩
  | get k ih => exact ih m.kernel h
  | upd f k ih =>
      have hrest := ih h
      exact ⟨hrest.history, hrest.live⟩
  | call a regs k ih =>
      obtain ⟨r₁, m₁, hfirst, hrest⟩ := andThen_eq_ok.mp h
      exact (hcall a regs m r₁ m₁ hfirst).trans (ih r₁ hrest)

/-- Whatever `call` returns for a function in `p`, `call₀` returns on a similar machine. -/
def Simulates (shape : Addr → Option (Shape σ ρ)) (p : Addr → Prop)
    (call call₀ : Addr → ρ → Mach σ ρ → Res σ ρ) : Prop :=
  ∀ a regs m m₀ r m', p a → Sim shape m m₀ → call a regs m = some (.ok (r, m')) →
    ∃ m₀', call₀ a regs m₀ = some (.ok (r, m₀')) ∧ Sim shape m' m₀'

/-- The other way round, as long as what is entered can be printed. -/
def Simulated (shape : Addr → Option (Shape σ ρ)) (p : Addr → Prop)
    (call call₀ : Addr → ρ → Mach σ ρ → Res σ ρ) : Prop :=
  ∀ a regs m m₀ r m₀', p a → Sim shape m m₀ → call₀ a regs m₀ = some (.ok (r, m₀')) →
    (render shape m₀'.history).isSome → ∃ m', call a regs m = some (.ok (r, m')) ∧ Sim shape m' m₀'

theorem runCode_simulates (h : Simulates shape p call call₀) (c : Code σ ρ) (hc : c.Calls p)
    {m m₀ m' : Mach σ ρ} {r : Long} (hsim : Sim shape m m₀)
    (hrun : runCode call c m = some (.ok (r, m'))) :
    ∃ m₀', runCode call₀ c m₀ = some (.ok (r, m₀')) ∧ Sim shape m' m₀' := by
  induction c generalizing m m₀ with
  | ret r₁ =>
      cases hrun
      exact ⟨m₀, rfl, hsim⟩
  | get k ih =>
      have hrun' : runCode call (k m₀.kernel) m = some (.ok (r, m')) := hsim.kernel ▸ hrun
      exact ih m₀.kernel (hc m₀.kernel) hsim hrun'
  | upd f k ih =>
      exact ih hc (hsim.update f) hrun
  | call a regs k ih =>
      obtain ⟨r₁, m₁, hfirst, hrest⟩ := andThen_eq_ok.mp hrun
      obtain ⟨m₁₀, hfirst₀, hsim₁⟩ := h a regs m m₀ r₁ m₁ hc.1 hsim hfirst
      obtain ⟨m₀', hrest₀, hsim'⟩ := ih r₁ (hc.2 r₁) hsim₁ hrest
      exact ⟨m₀', andThen_eq_ok.mpr ⟨r₁, m₁₀, hfirst₀, hrest₀⟩, hsim'⟩

/-- An earlier history can be printed if a later one can. -/
theorem Grows.render {m m' : Mach σ ρ} (h : Grows m m')
    (hsome : (render shape m'.history).isSome) : (render shape m.history).isSome := by
  obtain ⟨new, hnew⟩ := h.history
  obtain ⟨l, hl⟩ := Option.isSome_iff_exists.mp hsome
  rw [← hnew] at hl
  obtain ⟨l₁, _, hl₁, -, -⟩ := render_append.mp hl
  exact Option.isSome_iff_exists.mpr ⟨l₁, hl₁⟩

theorem runCode_simulated (h : Simulated shape p call call₀)
    (hgrows : ∀ a regs m r m', call₀ a regs m = some (.ok (r, m')) → Grows m m')
    (c : Code σ ρ) (hc : c.Calls p) {m m₀ m₀' : Mach σ ρ} {r : Long} (hsim : Sim shape m m₀)
    (hrun : runCode call₀ c m₀ = some (.ok (r, m₀')))
    (hprints : (render shape m₀'.history).isSome) :
    ∃ m', runCode call c m = some (.ok (r, m')) ∧ Sim shape m' m₀' := by
  induction c generalizing m m₀ with
  | ret r₁ =>
      cases hrun
      exact ⟨m, rfl, hsim⟩
  | get k ih =>
      obtain ⟨m', hrun', hsim'⟩ := ih m₀.kernel (hc m₀.kernel) hsim hrun
      refine ⟨m', ?_, hsim'⟩
      rw [← hrun', ← hsim.kernel]
      rfl
  | upd f k ih =>
      exact ih hc (hsim.update f) hrun
  | call a regs k ih =>
      obtain ⟨r₁, m₁₀, hfirst₀, hrest₀⟩ := andThen_eq_ok.mp hrun
      have hprints₁ := (runCode_grows hgrows _ hrest₀).render hprints
      obtain ⟨m₁, hfirst, hsim₁⟩ := h a regs m m₀ r₁ m₁₀ hc.1 hsim hfirst₀ hprints₁
      obtain ⟨m', hrest, hsim'⟩ := ih r₁ (hc.2 r₁) hsim₁ hrest₀
      exact ⟨m', andThen_eq_ok.mpr ⟨r₁, m₁, hfirst, hrest⟩, hsim'⟩

/-- When a kernel function returns. -/
theorem runText_eq_ok {P : Program σ ρ} {ip : Addr} {regs : ρ} {m m' : Mach σ ρ} {r : Long} :
    runText P call ip regs m = some (.ok (r, m')) ↔
      ∃ m₁, runCode call (P.text ip regs) (m.record (.enter ip regs m.kernel)) = some (.ok (r, m₁)) ∧
        m' = m₁.record (.leave ip r) := by
  unfold runText
  simp only [andThen_eq_ok, Option.some.injEq, Except.ok.injEq, Prod.mk.injEq]
  constructor
  · rintro ⟨r₁, m₁, hrun, rfl, rfl⟩
    exact ⟨m₁, hrun, rfl⟩
  · rintro ⟨m₁, hrun, rfl⟩
    exact ⟨r, m₁, hrun, rfl, rfl⟩

/-- A kernel function that both machines enter alike, they leave alike. -/
theorem runText_simulates {P : Program σ ρ} (h : Simulates shape p call call₀) {ip : Addr} {regs : ρ}
    (hc : (P.text ip regs).Calls p) {m m₀ m' : Mach σ ρ} {r : Long} (hkernel : m.kernel = m₀.kernel)
    (hsim : Sim shape (m.record (.enter ip regs m₀.kernel)) (m₀.record (.enter ip regs m₀.kernel)))
    (hrun : runText P call ip regs m = some (.ok (r, m'))) :
    ∃ m₁ m₁₀, m' = m₁.record (.leave ip r) ∧ Sim shape m₁ m₁₀ ∧
      runText P call₀ ip regs m₀ = some (.ok (r, m₁₀.record (.leave ip r))) := by
  obtain ⟨m₁, hbody, rfl⟩ := runText_eq_ok.mp hrun
  rw [hkernel] at hbody
  obtain ⟨m₁₀, hbody₀, hsim₁⟩ := runCode_simulates h _ hc hsim hbody
  exact ⟨m₁, m₁₀, rfl, hsim₁, runText_eq_ok.mpr ⟨m₁₀, hbody₀, rfl⟩⟩

theorem runText_simulated {P : Program σ ρ} (h : Simulated shape p call call₀)
    (hgrows : ∀ a regs m r m', call₀ a regs m = some (.ok (r, m')) → Grows m m')
    {ip : Addr} {regs : ρ} (hc : (P.text ip regs).Calls p) {m m₀ m₁₀ : Mach σ ρ} {r : Long}
    (hkernel : m.kernel = m₀.kernel)
    (hsim : Sim shape (m.record (.enter ip regs m₀.kernel)) (m₀.record (.enter ip regs m₀.kernel)))
    (hbody₀ : runCode call₀ (P.text ip regs) (m₀.record (.enter ip regs m₀.kernel)) =
      some (.ok (r, m₁₀)))
    (hprints : (render shape m₁₀.history).isSome) :
    ∃ m₁, runText P call ip regs m = some (.ok (r, m₁.record (.leave ip r))) ∧ Sim shape m₁ m₁₀ := by
  obtain ⟨m₁, hbody, hsim₁⟩ := runCode_simulated h hgrows _ hc hsim hbody₀ hprints
  rw [← hkernel] at hbody
  exact ⟨m₁, runText_eq_ok.mpr ⟨m₁, hbody, rfl⟩, hsim₁⟩

theorem runText_grows {P : Program σ ρ}
    (hcall : ∀ a regs m r m', call a regs m = some (.ok (r, m')) → Grows m m') {ip : Addr} {regs : ρ}
    {m m' : Mach σ ρ} {r : Long} (h : runText P call ip regs m = some (.ok (r, m'))) : Grows m m' := by
  obtain ⟨m₁, hrun, rfl⟩ := runText_eq_ok.mp h
  exact ((Grows.record m _).trans (runCode_grows hcall _ hrun)).trans (Grows.record m₁ _)

end Bodies

theorem plain_grows (P : Program σ ρ) (n : Nat) (parentIp a : Addr) (regs : ρ) (m : Mach σ ρ) (r : Long)
    (m' : Mach σ ρ) (h : plain P n parentIp a regs m = some (.ok (r, m'))) : Grows m m' := by
  induction n generalizing parentIp a regs m r m' with
  | zero => cases h
  | succ n ih => exact runText_grows (fun a regs m r m' => ih _ a regs m r m') h

theorem lines_enter {shape : Addr → Option (Shape σ ρ)} {ip : Addr} {sh : Shape σ ρ}
    (hshape : shape ip = some sh) (regs : ρ) (s : σ) :
    lines shape (.enter ip regs s) = (sh.before regs s).toOption.map fun text => ["ftrace_hook: " ++ text] := by
  simp only [lines, hshape]

theorem lines_leave {shape : Addr → Option (Shape σ ρ)} {ip : Addr} {sh : Shape σ ρ}
    (hshape : shape ip = some sh) (r : Long) :
    lines shape (.leave ip r) = some ["ftrace_hook: " ++ sh.after r] := by
  simp only [lines, hshape]

namespace Detours

variable {P : Program σ ρ} {modText : Addr → Option (ModFn σ ρ)} {goto : Addr → Addr → Addr}
  {shape : Addr → Option (Shape σ ρ)} {A : Addr → Prop} (D : Detours P modText goto shape)
  (hA : Apart P A) (n : Nat) {parentIp ip : Addr} (hparent : P.withinModule parentIp = false) (hip : P.withinModule ip = false)
  (regs : ρ) (m : Mach σ ρ)

include D hip

/-- A function without a hook is called as ever. -/
theorem invoke_other (hshape : shape ip = none) :
    invoke P modText goto (n + 1) parentIp ip regs m =
      runText P (invoke P modText goto n ip) ip regs m := by
  unfold invoke
  simp only [D.other parentIp ip hshape, D.outside ip hip]

/-- The wrapper gets to the function itself. -/
theorem invoke_back (hparent : P.withinModule parentIp = true) :
    invoke P modText goto (n + 1) parentIp ip regs m =
      runText P (invoke P modText goto n ip) ip regs m := by
  unfold invoke
  simp only [D.back parentIp ip hparent, D.outside ip hip]

include hparent

/-- A hooked function is called through its wrapper, with one level more. -/
theorem invoke_hooked {sh : Shape σ ρ} (hshape : shape ip = some sh) {r : Long} {m' : Mach σ ρ} :
    invoke P modText goto (n + 2) parentIp ip regs m = some (.ok (r, m')) ↔
      ∃ text m₁, sh.before regs m.kernel = .ok text ∧
        runText P (invoke P modText goto n ip) ip regs (m.prInfo text) = some (.ok (r, m₁)) ∧
        m' = m₁.prInfo (sh.after r) := by
  obtain ⟨hin, htext⟩ := D.hooked parentIp ip sh hparent hshape
  have hcall : invoke P modText goto (n + 2) parentIp ip regs m =
      wrapper sh ip (invoke P modText goto (n + 1) (goto parentIp ip)) regs m := by
    rw [invoke]
    simp only [htext]
  rw [hcall, wrapper_eq_ok]
  simp only [D.invoke_back n hip regs _ hin]

omit hparent hip

include hA

/-- With the hooks nothing returns that does not return without them. -/
theorem simulates (hparent : P.withinModule parentIp = false) :
    Simulates shape A (invoke P modText goto n parentIp) (plain P n parentIp) := by
  induction n using Nat.strong_induction_on generalizing parentIp with
  | h n ih =>
    intro ip regs m m₀ r m' hAip hsim hrun
    have hip := hA.outside ip hAip
    cases hshape : shape ip with
    | none =>
        cases n with
        | zero => cases hrun
        | succ n =>
            rw [D.invoke_other n hip regs m hshape] at hrun
            have henter := hsim.record (e := .enter ip regs m₀.kernel) (by simp only [lines, hshape])
            obtain ⟨m₁, m₁₀, rfl, hsim₁, hrun₀⟩ := runText_simulates (ih n (Nat.lt_succ_self n) hip)
              (hA.calls ip regs hAip) hsim.kernel henter hrun
            exact ⟨_, hrun₀, hsim₁.record (by simp only [lines, hshape])⟩
    | some sh =>
        -- the wrapper uses a level, and the function that it calls another
        rcases n with _ | _ | n
        · cases hrun
        · exfalso
          rw [invoke] at hrun
          simp only [(D.hooked parentIp ip sh hparent hshape).2] at hrun
          obtain ⟨text, m₁, -, hnone, -⟩ := wrapper_eq_ok.mp hrun
          cases hnone
        · obtain ⟨text, m₁', htext, hreal, rfl⟩ :=
            (D.invoke_hooked n hparent hip regs m hshape).mp hrun
          have hline : lines shape (.enter ip regs m₀.kernel) = some ["ftrace_hook: " ++ text] := by
            rw [lines_enter hshape, ← hsim.kernel, htext]
            rfl
          have hless : n < n + 2 := Nat.lt_add_of_pos_right (Nat.succ_pos 1)
          obtain ⟨m₁, m₁₀, rfl, hsim₁, hrun₀⟩ := runText_simulates (ih n hless hip)
            (hA.calls ip regs hAip) (m := m.prInfo text) hsim.kernel (hsim.record_printed hline) hreal
          have hmore := plain_extends P (n + 1) parentIp ip regs m₀ _ hrun₀
          exact ⟨_, hmore, hsim₁.record_printed (lines_leave hshape r)⟩

/-- Without the hooks nothing returns that does not return with them, if it can be printed. -/
theorem simulated (hparent : P.withinModule parentIp = false) :
    Simulated shape A (invoke P modText goto (2 * n) parentIp) (plain P n parentIp) := by
  induction n generalizing parentIp with
  | zero =>
      intro ip regs m m₀ r m₀' _ _ hrun₀
      cases hrun₀
  | succ n ih =>
      intro ip regs m m₀ r m₀' hAip hsim hrun₀ hprints
      have hip := hA.outside ip hAip
      obtain ⟨m₁₀, hbody₀, rfl⟩ := runText_eq_ok.mp hrun₀
      have hgrows := plain_grows P n ip
      have hprints₁ := (Grows.record m₁₀ (.leave ip r)).render hprints
      cases hshape : shape ip with
      | none =>
          have henter := hsim.record (e := .enter ip regs m₀.kernel) (by simp only [lines, hshape])
          obtain ⟨m₁, hrun, hsim₁⟩ := runText_simulated (ih hip) hgrows (hA.calls ip regs hAip)
            hsim.kernel henter hbody₀ hprints₁
          refine ⟨_, ?_, hsim₁.record (by simp only [lines, hshape])⟩
          have hmore : Extends (invoke P modText goto (2 * n) ip) (invoke P modText goto (2 * n + 1) ip) :=
            invoke_succ_extends D.monotone (2 * n) ip
          rw [Nat.mul_succ, D.invoke_other (2 * n + 1) hip regs m hshape]
          exact runText_extends hmore P ip regs m _ hrun
      | some sh =>
          have hprints₀ := ((runCode_grows hgrows _ hbody₀).render hprints₁)
          obtain ⟨l, hl⟩ := Option.isSome_iff_exists.mp hprints₀
          obtain ⟨_, l₂, -, hl₂, -⟩ := render_append.mp hl
          obtain ⟨text, htext⟩ : ∃ text, sh.before regs m₀.kernel = .ok text := by
            cases hbefore : sh.before regs m₀.kernel with
            | ok text => exact ⟨text, rfl⟩
            | error e => simp [render, lines_enter hshape, hbefore, Except.toOption] at hl₂
          have hline : lines shape (.enter ip regs m₀.kernel) = some ["ftrace_hook: " ++ text] := by
            rw [lines_enter hshape, htext]
            rfl
          obtain ⟨m₁, hrun, hsim₁⟩ := runText_simulated (ih hip) hgrows (hA.calls ip regs hAip)
            (m := m.prInfo text) hsim.kernel (hsim.record_printed hline) hbody₀ hprints₁
          refine ⟨_, ?_, hsim₁.record_printed (lines_leave hshape r)⟩
          rw [Nat.mul_succ]
          exact (D.invoke_hooked (2 * n) hparent hip regs m hshape).mpr
            ⟨text, _, hsim.kernel ▸ htext, hrun, rfl⟩

end Detours

/-! ## The hooks of the module -/

section Dispatch

variable {T : HookTable} {K : Kernel} {base : Tracer} {s : State} (withinModule : Addr → Bool)

/-- The thunk that runs is that of the hook at the function. -/
theorem Hooked.dispatch_hook (h : Hooked T K base (members T.hooks) s) {hook : Hook}
    (hhook : hook ∈ T.hooks) (parentIp : Addr) :
    dispatch withinModule T s.tracer parentIp (K.lookupName hook.name) =
      fhFtraceThunk withinModule hook parentIp (K.lookupName hook.name) := by
  unfold dispatch
  cases hfind : T.hooks.find? fun h => s.tracer.registered h.ops &&
      (s.tracer.filter h.ops).contains (K.lookupName hook.name) with
  | none =>
      exfalso
      have hmiss := List.find?_eq_none.mp hfind hook hhook
      obtain ⟨hreg, hfilter, -⟩ := h.up hook hhook
      simp [hreg, hfilter] at hmiss
  | some h' =>
      have hmem := List.mem_of_find?_eq_some hfind
      have hhit := List.find?_some hfind
      have hfilter := (h.up h' hmem).2.1
      simp only [hfilter, List.contains_iff_mem, List.mem_singleton, Bool.and_eq_true] at hhit
      rw [h.apart hook hhook h' hmem hhit.2]
      rfl

theorem Hooked.dispatch_other (h : Hooked T K base (members T.hooks) s) {ip : Addr}
    (hip : ∀ hook ∈ T.hooks, K.lookupName hook.name ≠ ip) (parentIp : Addr) :
    dispatch withinModule T s.tracer parentIp ip = ip := by
  unfold dispatch
  have hnone : (T.hooks.find? fun h => s.tracer.registered h.ops &&
      (s.tracer.filter h.ops).contains ip) = none := by
    refine List.find?_eq_none.mpr fun hook hhook => ?_
    simp [(h.up hook hhook).2.1, (hip hook hhook).symm]
  rw [hnone]
  rfl

end Dispatch

/-- The two functions are in the module. -/
structure Linked (P : Program σ ρ) (clone execve : Addr) : Prop where
  cloneWithin : P.withinModule clone = true
  execveWithin : P.withinModule execve = true
  ne : clone ≠ execve

/-- What is printed about a function. -/
def demoShape (P : Program σ ρ) (K : Kernel) (ip : Addr) : Option (Shape σ ρ) :=
  if ip = K.lookupName "__x64_sys_clone" then some cloneShape
  else if ip = K.lookupName "__x64_sys_execve" then some (execveShape P)
  else none

theorem demoText_monotone (P : Program σ ρ) (clone execve : Addr) (s : State) (ip : Addr)
    (fn : ModFn σ ρ) (h : demoText P clone execve s ip = some fn) : fn.Monotone := by
  unfold demoText at h
  rw [fhSysClone_eq, fhSysExecve_eq] at h
  split_ifs at h
  · cases h
    exact wrapper_monotone _ _
  · cases h
    exact wrapper_monotone _ _

/-- When the hooks are up, the calls make the detours. -/
theorem Hooked.detours {P : Program σ ρ} {K : Kernel} {base : Tracer} {s : State} {clone execve : Addr}
    (h : Hooked (demoHooks clone execve) K base (members (demoHooks clone execve).hooks) s)
    (hlinked : Linked P clone execve) :
    Detours P (demoText P clone execve s)
      (dispatch P.withinModule (demoHooks clone execve) s.tracer) (demoShape P K) := by
  have hclone : (⟨"__x64_sys_clone", clone, 0⟩ : Hook) ∈ (demoHooks clone execve).hooks := by
    simp [demoHooks]
  have hexecve : (⟨"__x64_sys_execve", execve, 1⟩ : Hook) ∈ (demoHooks clone execve).hooks := by
    simp [demoHooks]
  have hreal₀ := (h.up _ hclone).2.2.2
  have hreal₁ := (h.up _ hexecve).2.2.2
  constructor
  case monotone => exact demoText_monotone P clone execve s
  case outside =>
    intro ip hip
    have hne₀ : ip ≠ clone := fun heq => by
      rw [heq, hlinked.cloneWithin] at hip
      cases hip
    have hne₁ : ip ≠ execve := fun heq => by
      rw [heq, hlinked.execveWithin] at hip
      cases hip
    simp [demoText, hne₀, hne₁]
  case hooked =>
    intro parentIp ip sh hparent hshape
    unfold demoShape at hshape
    split_ifs at hshape with hip₀ hip₁
    · cases hshape
      subst hip₀
      rw [h.dispatch_hook P.withinModule hclone parentIp]
      simp [fhFtraceThunk, hparent, hlinked.cloneWithin, demoText, fhSysClone_eq, hreal₀]
    · cases hshape
      subst hip₁
      rw [h.dispatch_hook P.withinModule hexecve parentIp]
      simp [fhFtraceThunk, hparent, hlinked.execveWithin, demoText, hlinked.ne.symm, fhSysExecve_eq, hreal₁]
  case back =>
    intro parentIp ip hparent
    by_cases hip₀ : ip = K.lookupName "__x64_sys_clone"
    · subst hip₀
      rw [h.dispatch_hook P.withinModule hclone parentIp]
      simp [fhFtraceThunk, hparent]
    by_cases hip₁ : ip = K.lookupName "__x64_sys_execve"
    · subst hip₁
      rw [h.dispatch_hook P.withinModule hexecve parentIp]
      simp [fhFtraceThunk, hparent]
    · refine h.dispatch_other P.withinModule (fun hook hhook => ?_) parentIp
      simp only [demoHooks, List.mem_cons, List.not_mem_nil, or_false] at hhook
      rcases hhook with rfl | rfl
      · exact Ne.symm hip₀
      · exact Ne.symm hip₁
  case other =>
    intro parentIp ip hshape
    unfold demoShape at hshape
    split_ifs at hshape with hip₀ hip₁
    refine h.dispatch_other P.withinModule (fun hook hhook => ?_) parentIp
    simp only [demoHooks, List.mem_cons, List.not_mem_nil, or_false] at hhook
    rcases hhook with rfl | rfl
    · exact Ne.symm hip₀
    · exact Ne.symm hip₁

/-- On a machine where the module is loaded and no hook was left behind before, a call from the
kernel that leads nowhere into the module by itself returns exactly if it returns on a machine
without the module and the names in its history can be printed. The result, the state
of the kernel and the history are the same, the log is that of the history, and no buffer is left. -/
theorem hooks_transparent (P : Program σ ρ) (clone execve : Addr) (base : Tracer)
    (hbase : ∀ h ∈ (demoHooks clone execve).hooks, base.registered h.ops = false) (machine : Machine)
    (hreach : (sys (demoHooks clone execve) base).Reach
      (fun _ e => e.Unregisters (demoHooks clone execve)) machine) (K : Kernel)
    (hloaded : machine.loaded = some K) (hlinked : Linked P clone execve) (A : Addr → Prop)
    (hA : Apart P A) (parentIp ip : Addr) (hparent : P.withinModule parentIp = false) (hip : A ip)
    (regs : ρ) (m m' : Mach σ ρ) (hstart : m.log = [] ∧ m.history = []) (r : Long) :
    (∃ fuel, invoke P (demoText P clone execve machine.state)
        (dispatch P.withinModule (demoHooks clone execve) machine.state.tracer) fuel parentIp ip regs m =
          some (.ok (r, m'))) ↔
      m'.live = m.live ∧ ∃ fuel m₀, plain P fuel parentIp ip regs m = some (.ok (r, m₀)) ∧
        m'.kernel = m₀.kernel ∧ m'.history = m₀.history ∧
        render (demoShape P K) m₀.history = some m'.log := by
  have D := ((lives_of_reach hbase hreach).loaded K hloaded).detours hlinked
  have hsim : Sim (demoShape P K) m m := by
    refine ⟨rfl, rfl, rfl, ?_⟩
    rw [hstart.1, hstart.2]
    rfl
  constructor
  · rintro ⟨fuel, hrun⟩
    obtain ⟨m₀, hrun₀, hsim'⟩ := D.simulates hA fuel hparent ip regs m m r m' hip hsim hrun
    have hlive := (plain_grows P fuel parentIp ip regs m r m₀ hrun₀).live
    exact ⟨hsim'.live.trans hlive, fuel, m₀, hrun₀, hsim'.kernel, hsim'.history, hsim'.log⟩
  · rintro ⟨hlive, fuel, m₀, hrun₀, hkernel, hhistory, hlog⟩
    obtain ⟨m₁, hrun, hsim'⟩ := D.simulated hA fuel hparent ip regs m m r m₀ hip hsim hrun₀
      (Option.isSome_iff_exists.mpr ⟨_, hlog⟩)
    have hlive₀ := (plain_grows P fuel parentIp ip regs m r m₀ hrun₀).live
    have heq : m₁ = m' := by
      rcases m₁ with ⟨kernel, log, live, history⟩
      rcases m' with ⟨kernel', log', live', history'⟩
      obtain rfl : kernel = kernel' := hsim'.kernel.trans hkernel.symm
      obtain rfl : live = live' := hsim'.live.trans (hlive₀.trans hlive.symm)
      obtain rfl : history = history' := hsim'.history.trans hhistory.symm
      obtain rfl : log = log' := Option.some.inj (hsim'.log.symm.trans hlog)
      rfl
    exact ⟨2 * fuel, heq ▸ hrun⟩

/-- A kernel whose only caller of the two functions adds up what they return. It also has a function
that calls the module's exit function. -/
def demoProgram : Program Nat Addr where
  text := fun ip regs =>
    if ip = 0x3000 then .call 0x1000 regs fun a => .call 0x2000 regs fun b => .ret (a + b)
    else if ip = 0x1000 then .upd (· + 1) (.get fun s => .ret (BitVec.ofNat 64 s))
    else if ip = 0x5000 then .call 0x9200 regs .ret
    else .ret 0
  di := id
  user := fun _ a => if a = 0x500 then some 0x61 else if a = 0x501 then some 0 else none
  kmalloc := fun _ => true
  withinModule := fun a => decide (0x9000 ≤ a)

/-- A process forks and starts the program `a`. -/
theorem hooks_transparent_demo :
    ∃ machine, (sys (demoHooks 0x9000 0x9100) quietTracer).run [.load demoKernel] demoMachine = some machine ∧
      ∃ fuel m', invoke demoProgram (demoText demoProgram 0x9000 0x9100 machine.state)
          (dispatch demoProgram.withinModule (demoHooks 0x9000 0x9100) machine.state.tracer) fuel 0x4000
          0x3000 0x500 ⟨4, [], 0, []⟩ = some (.ok (5, m')) ∧
        m'.log = ["ftrace_hook: clone() before\n", "ftrace_hook: clone() after: 5\n",
          "ftrace_hook: execve() before: a\n", "ftrace_hook: execve() after: 0\n"] := by
  obtain ⟨machine, hrun, hloaded⟩ : ∃ machine, (sys (demoHooks 0x9000 0x9100) quietTracer).run
      [.load demoKernel] demoMachine = some machine ∧ machine.loaded = some demoKernel := ⟨_, rfl, rfl⟩
  have hreach : (sys (demoHooks 0x9000 0x9100) quietTracer).Reach
      (fun _ e => e.Unregisters (demoHooks 0x9000 0x9100)) machine := by
    refine TSys.Reach.run (.init ⟨rfl, rfl⟩) ?_ hrun
    simp [Event.Unregisters, demoHooks, demoKernel]
  have hlinked : Linked demoProgram 0x9000 0x9100 := ⟨rfl, rfl, by decide⟩
  have hA : Apart demoProgram fun ip => ip = 0x3000 ∨ ip = 0x1000 ∨ ip = 0x2000 := by
    constructor
    · rintro ip (rfl | rfl | rfl) <;> rfl
    · rintro ip regs (rfl | rfl | rfl)
      · exact ⟨.inr (.inl rfl), fun _ => ⟨.inr (.inr rfl), fun _ => trivial⟩⟩
      · exact fun _ => trivial
      · trivial
  obtain ⟨m₀, hplain, hlog⟩ : ∃ m₀, plain demoProgram 2 0x4000 0x3000 0x500 ⟨4, [], 0, []⟩ =
      some (.ok (5, m₀)) ∧ render (demoShape demoProgram demoKernel) m₀.history =
        some ["ftrace_hook: clone() before\n", "ftrace_hook: clone() after: 5\n",
          "ftrace_hook: execve() before: a\n", "ftrace_hook: execve() after: 0\n"] := ⟨_, rfl, by decide⟩
  refine ⟨machine, hrun, ?_⟩
  obtain ⟨fuel, hhooked⟩ := (hooks_transparent demoProgram 0x9000 0x9100 quietTracer (fun _ _ => rfl) machine
    hreach demoKernel hloaded hlinked _ hA 0x4000 0x3000 (by decide) (.inl rfl) 0x500 ⟨4, [], 0, []⟩
    { m₀ with live := 0, log := _ } ⟨rfl, rfl⟩ 5).mpr ⟨rfl, 2, m₀, hplain, rfl, rfl, hlog⟩
  exact ⟨fuel, _, hhooked, rfl⟩

end Calls

end Lkm.Ftrace
