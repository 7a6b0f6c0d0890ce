import Lkm.MutexDevice.Reads

/-!
# The test program of the mutex device (`mutex/poc.c`)

One thread reads the buffer over and over and leaves its loop when it finds anything but
all `2` or all `3`; two others write these. A round of a loop is a call of the device with
what the thread does with the result, and the threads take their rounds in any order, with
their steps mixed. `child1_never_leaves`: the loop goes on for ever, in every schedule.

`printf` of the buffer is left out: it has no effect on the buffer.
-/

namespace Lkm.MutexDevice.Poc

open Base Protocol

/-- `cnt`. -/
def cnt : Nat := 0x100

def two : Byte := 0x32
def three : Byte := 0x33

/-- The buffers of `child2` and `child3`. -/
def filled (c : Byte) : List Byte := List.replicate cnt c

/-- One of the loops of `child1`: it breaks at the first byte that is not `c`. -/
def allAre (c : Byte) : List Byte → Bool
  | [] => true
  | b :: rest => if b ≠ c then false else allAre c rest

/-- `strlen`, as far as the buffer goes. -/
def strlen (buf : List Byte) : Nat := (buf.takeWhile (· ≠ 0)).length

/-- The condition of the `break`. -/
def leaves (buf : List Byte) : Bool :=
  let all2 := allAre two buf
  let all3 := allAre three buf
  !all2 && !all3 && decide (strlen buf ≠ 0)

/-- A round of a loop, with the buffer of `child1`. -/
inductive Round where
  | read (buf : List Byte)
  | wrote

inductive Child where
  | child1
  | child2
  | child3

/-- What the position of the file is does not matter to the device. -/
structure Turn where
  child : Child
  offt : LoffT

def child1 (offt : LoffT) : Code Round := do
  let r ← readFile 0x100 offt
  match r with
  | .read _ _ bytes => return .read bytes
  | .written _ _ => return .wrote

def child2 (offt : LoffT) : Code Round := do
  let _ ← writeFile (fun _ => two) (BitVec.ofNat 64 cnt) offt
  return .wrote

def child3 (offt : LoffT) : Code Round := do
  let _ ← writeFile (fun _ => three) (BitVec.ofNat 64 cnt) offt
  return .wrote

def Turn.prog : Turn → Code Round
  | ⟨.child1, offt⟩ => child1 offt
  | ⟨.child2, offt⟩ => child2 offt
  | ⟨.child3, offt⟩ => child3 offt

/-! ## What a round finds -/

theorem allAre_replicate (c : Byte) (n : Nat) : allAre c (List.replicate n c) = true := by
  induction n with
  | zero => rfl
  | succ n ih =>
      rw [List.replicate_succ, allAre, if_neg (fun hne => hne rfl)]
      exact ih

/-- The loop goes on when the buffer holds one write, or nothing. -/
theorem leaves_filled {c : Byte} (hc : c = 0 ∨ c = two ∨ c = three) : leaves (filled c) = false := by
  unfold leaves
  rcases hc with rfl | rfl | rfl
  · have hempty : strlen (filled 0) = 0 := rfl
    rw [hempty]
    exact Bool.and_false _
  · have hall : allAre two (filled two) = true := allAre_replicate two cnt
    simp [hall]
  · have hall : allAre three (filled three) = true := allAre_replicate three cnt
    simp [hall]

theorem slice_const (c : Byte) (off n : Nat) : slice (fun _ => c) off n = List.replicate n c := by
  induction n generalizing off with
  | zero => rfl
  | succ n ih => rw [slice_succ, ih, List.replicate_succ]

/-- Only the two buffers are ever written. -/
def OwnWrites (s : Mem) : Prop := ∀ w ∈ s.writes, w = filled two ∨ w = filled three

section

variable {initial : Buf} {t : Nat}

theorem maintains_copyToUser (I : Mem → Prop) (i n : Nat) : Maintains I (copyToUser i n) := by
  induction n generalizing i with
  | zero => exact maintains_ret _
  | succ n ih =>
      apply Maintains.bind (maintains_get fun _ => maintains_ret _)
      exact fun b => (ih (i + 1)).bind fun rest => maintains_ret _

/-- An update that leaves the history of writes alone. -/
theorem maintains_update {f : Mem → Mem} (hf : ∀ s, OwnWrites s → OwnWrites (f s)) :
    Maintains OwnWrites (update f) := maintains_act hf (maintains_ret _)

theorem maintains_copyFromUser (i : Nat) (data : List Byte) :
    Maintains OwnWrites (copyFromUser i data) := by
  induction data generalizing i with
  | nil => exact maintains_ret _
  | cons b rest ih =>
      have hstore : ∀ s, OwnWrites s → OwnWrites (s.storeByte i b) := fun _ hs => hs
      exact (maintains_update hstore).bind fun _ => ih (i + 1)

theorem maintains_mutexLock : Maintains OwnWrites mutexLock := by
  apply maintains_lock
  intro signal
  cases signal with
  | false => exact maintains_ret _
  | true => exact maintains_fail _

theorem maintains_mutexUnlock : Maintains OwnWrites mutexUnlock := maintains_unlock (maintains_ret _)

theorem maintains_writeFile {c : Byte} (hc : c = two ∨ c = three) (offt : LoffT) :
    Maintains OwnWrites (writeFile (fun _ => c) (BitVec.ofNat 64 cnt) offt) := by
  have hdata : slice (fun _ => c) 0 (BitVec.ofNat 64 cnt).toNat = filled c := slice_const c 0 cnt
  have hbegin : ∀ s, OwnWrites s →
      OwnWrites (s.begin (slice (fun _ => c) 0 (BitVec.ofNat 64 cnt).toNat)) := by
    intro s hs w hw
    rcases List.mem_append.mp hw with hold | hnew
    · exact hs w hold
    · rw [List.mem_singleton.mp hnew, hdata]
      exact hc.imp (congrArg filled) (congrArg filled)
  have hcomplete : ∀ s, OwnWrites s → OwnWrites s.complete := fun _ hs => hs
  refine maintains_mutexLock.bind fun _ => ?_
  refine (maintains_update hbegin).bind fun _ => ?_
  refine (maintains_copyFromUser 0 _).bind fun _ => ?_
  refine (maintains_update hcomplete).bind fun _ => ?_
  exact maintains_mutexUnlock.bind fun _ => maintains_ret _

theorem maintains_readFile (size : SizeT) (offt : LoffT) : Maintains OwnWrites (readFile size offt) := by
  refine maintains_mutexLock.bind fun _ => ?_
  refine (maintains_copyToUser OwnWrites 0 _).bind fun _ => ?_
  exact maintains_mutexUnlock.bind fun _ => maintains_ret _

theorem maintains_turn (turn : Turn) : Maintains OwnWrites turn.prog := by
  obtain ⟨child, offt⟩ := turn
  cases child with
  | child1 =>
      refine (maintains_readFile _ offt).bind fun r => ?_
      cases r with
      | read ret offt bytes => exact maintains_ret _
      | written ret offt => exact maintains_ret _
  | child2 => exact (maintains_writeFile (.inl rfl) offt).bind fun _ => maintains_ret _
  | child3 => exact (maintains_writeFile (.inr rfl) offt).bind fun _ => maintains_ret _

/-- A round of `child1` has the buffer after some of the completed writes. -/
def Found (initial : Buf) : Round → Mach Mem Mutex → Prop
  | .read buf, m => ∃ ws, ws <+: m.mem.completedWrites ∧ buf = slice (applyWrites initial ws) 0 cnt
  | .wrote, _ => True

theorem found_stable (r : Round) : (buffProtocol initial).Stable t (Found initial r) := by
  intro m m' hsafe h
  cases r with
  | read buf =>
      obtain ⟨ws, hfirst, hbuf⟩ := h
      exact ⟨ws, hfirst.trans hsafe.grows, hbuf⟩
  | wrote => trivial

theorem tri_child1 (offt : LoffT) :
    (buffProtocol initial).Triple t (fun _ => True) (child1 offt) (Found initial) := by
  apply triple_bind (tri_readFile offt (by decide))
  intro r
  apply triple_exists
  intro bytes
  apply triple_fact
  rintro rfl
  exact triple_ret _ fun m hm => hm

theorem tri_turn (turn : Turn) :
    (buffProtocol initial).Triple t (fun _ => True) turn.prog (Found initial) := by
  obtain ⟨child, offt⟩ := turn
  have hwrite : ∀ c : Byte, (buffProtocol initial).Triple t (fun _ => True)
      (writeFile (fun _ => c) (BitVec.ofNat 64 cnt) offt >>= fun _ => (.ret .wrote : Code Round))
      (Found initial) := fun c =>
    triple_bind (tri_writeFile _ offt (by decide)) fun _ => triple_ret _ fun _ _ => trivial
  cases child with
  | child1 => exact tri_child1 offt
  | child2 => exact hwrite two
  | child3 => exact hwrite three

end

/-- In every schedule of any number of these threads, a round of `child1` finds the buffer as it was
at first, all `2` or all `3`, and its loop goes on. -/
theorem child1_never_leaves (c : Config Mem Mutex Unit Fault Answer Round)
    (hc : Config.Reach Turn.prog (fun _ => True) (fun _ => False) (fun m => m = myInit fun _ => 0) c)
    (t : Nat) (buf : List Byte) (ht : c.threads t = some (.ret (.read buf))) :
    (buf = filled 0 ∨ buf = filled two ∨ buf = filled three) ∧ leaves buf = false := by
  have hown : OwnWrites c.mach.mem := by
    refine maintained (fun turn _ => maintains_turn turn) ?_ hc
    rintro m rfl w hw
    cases hw
  obtain ⟨ws, hfirst, hbuf⟩ : Found (fun _ => 0) (.read buf) c.mach := by
    refine (Protocol.returns (fun _ => true_stable) (fun _ r => found_stable r) (fun _ _ _ _ => trivial)
      (fun _ turn _ => tri_turn turn) ?_ hc).2 t _ ht
    rintro m rfl
    exact ⟨fun _ => ⟨rfl, rfl⟩, fun _ => trivial⟩
  have hws : ∀ w ∈ ws, w = filled two ∨ w = filled three := fun w hw =>
    hown w ((hfirst.trans (List.take_prefix _ _)).subset hw)
  have hfull : ∀ w ∈ ws, w.length = buffSize := by
    intro w hw
    rcases hws w hw with rfl | rfl
    · exact List.length_replicate
    · exact List.length_replicate
  have hfound : buf = filled 0 ∨ buf = filled two ∨ buf = filled three := by
    rw [hbuf]
    rcases slice_applyWrites (fun _ => 0) ws hfull with hfresh | hwritten
    · exact .inl (hfresh.trans (slice_const 0 0 cnt))
    · exact .inr (hws _ hwritten)
  refine ⟨hfound, ?_⟩
  rcases hfound with rfl | rfl | rfl
  · exact leaves_filled (.inl rfl)
  · exact leaves_filled (.inr (.inl rfl))
  · exact leaves_filled (.inr (.inr rfl))

/-- A world in which nothing is interrupted; the code asks nothing. -/
def calm : World Unit Answer := ⟨fun _ => false, nofun⟩

theorem run_copyToUser (t i n : Nat) (m : Mach Mem Mutex) :
    (copyToUser i n).run calm t m = .done (slice m.mem.buff i n) m := by
  induction n generalizing i with
  | zero => rfl
  | succ n ih =>
      have hload : (loadByte i).run calm t m = .done (m.mem.buff i) m := rfl
      rw [copyToUser, Prog.run_bind, hload]
      show (copyToUser (i + 1) n >>= _).run calm t m = _
      rw [Prog.run_bind, ih, slice_succ]
      rfl

theorem run_copyFromUser (t i : Nat) (data : List Byte) (m : Mach Mem Mutex) :
    ∃ m', (copyFromUser i data).run calm t m = .done () m' ∧ m'.owner = m.owner ∧
      m'.mem.buff = put m.mem.buff i data := by
  induction data generalizing i m with
  | nil => exact ⟨m, rfl, rfl, (put_nil _ _).symm⟩
  | cons b rest ih =>
      obtain ⟨m', hrest, howner, hbuff⟩ := ih (i + 1) (m.upd (·.storeByte i b))
      refine ⟨m', ?_, howner, ?_⟩
      · rw [copyFromUser, Prog.run_bind]
        exact hrest
      · rw [hbuff]
        exact put_append m.mem.buff i [b] rest

/-- A write alone. -/
theorem run_writeFile (t : Nat) (buf : Buf) (size : SizeT) (offt : LoffT) {m : Mach Mem Mutex}
    (hfree : m.owner .mutex = none) :
    ∃ r m', (writeFile buf size offt).run calm t m = .done r m' ∧ m'.owner .mutex = none ∧
      m'.mem.buff = put m.mem.buff 0 (slice buf 0 size.toNat) := by
  have hlock : mutexLock.run calm t m = .done () (m.acquire t .mutex) := by
    simp [mutexLock, Prog.run, hfree, calm]
  obtain ⟨m', hcopy, howner, hput⟩ := run_copyFromUser t 0 (slice buf 0 size.toNat)
    ((m.acquire t .mutex).upd (·.begin (slice buf 0 size.toNat)))
  refine ⟨.written (intOf size) (offt + size), (m'.upd (·.complete)).release .mutex, ?_, by simp, hput⟩
  rw [writeFile, Prog.run_bind, hlock]
  show (update _ >>= _).run calm t _ = _
  rw [Prog.run_bind]
  show (copyFromUser 0 _ >>= _).run calm t _ = _
  rw [Prog.run_bind, hcopy]
  rfl

/-- A read alone. -/
theorem run_readFile (t : Nat) (size : SizeT) (offt : LoffT) {m : Mach Mem Mutex}
    (hfree : m.owner .mutex = none) :
    ∃ m', (readFile size offt).run calm t m =
      .done (.read (intOf size) (offt + size) (slice m.mem.buff 0 size.toNat)) m' := by
  have hlock : mutexLock.run calm t m = .done () (m.acquire t .mutex) := by
    simp [mutexLock, Prog.run, hfree, calm]
  refine ⟨(m.acquire t .mutex).release .mutex, ?_⟩
  rw [readFile, Prog.run_bind, hlock]
  show (copyToUser 0 _ >>= _).run calm t _ = _
  rw [Prog.run_bind, run_copyToUser]
  rfl

/-- `child2` takes a round, and `child1` one after it. -/
theorem child1_never_leaves_twos :
    ∃ c : Config Mem Mutex Unit Fault Answer Round,
      Config.Reach Turn.prog (fun _ => True) (fun _ => False) (fun m => m = myInit fun _ => 0) c ∧
        c.threads 1 = some (.ret (.read (filled two))) ∧ leaves (filled two) = false := by
  have hinit : Config.Reach Turn.prog (fun _ => True) (fun _ => False)
      (fun m => m = myInit fun _ => 0) ⟨fun _ => none, myInit fun _ => 0⟩ := .init rfl
  obtain ⟨r, m₁, hwrite, hfree, hbuff⟩ := run_writeFile 2 (fun _ => two) (BitVec.ofNat 64 cnt) 0
    (m := myInit fun _ => 0) rfl
  have hchild2 : (child2 0).run calm 2 (myInit fun _ => 0) = .done .wrote m₁ := by
    rw [child2, Prog.run_bind, hwrite]
    rfl
  have hstart₂ := Config.Reach.step (.start 2 ⟨.child2, 0⟩) hinit trivial rfl
  obtain ⟨c₁, hc₁, -, hmach₁, hothers⟩ := hstart₂.alone (fun _ => rfl) (Config.goto_self _ _ _ _) hchild2
  have hidle : c₁.threads 1 = none := hothers 1 (by decide)
  obtain ⟨m₂, hread⟩ := run_readFile 1 0x100 0 hfree
  have hfound : slice m₁.mem.buff 0 (0x100 : SizeT).toNat = filled two := by
    have hself := slice_put_self (fun _ => (0 : Byte)) 0 (filled two)
    rw [show (filled two).length = (0x100 : SizeT).toNat from List.length_replicate] at hself
    rw [hbuff, slice_const]
    exact hself
  have hchild1 : (child1 0).run calm 1 m₁ = .done (.read (filled two)) m₂ := by
    rw [child1, Prog.run_bind, hread, hfound]
    rfl
  have hnext : c₁.next Turn.prog (.start 1 ⟨.child1, 0⟩) =
      some (c₁.goto 1 (some (child1 0)) c₁.mach) := by
    simp only [Config.next, hidle]
    rfl
  have hstart₁ := Config.Reach.step (.start 1 ⟨.child1, 0⟩) hc₁ trivial hnext
  obtain ⟨c₂, hc₂, hret, -, -⟩ := hstart₁.alone (fun _ => rfl) (Config.goto_self _ _ _ _)
    (hmach₁ ▸ hchild1)
  exact ⟨c₂, hc₂, hret, (child1_never_leaves c₂ hc₂ 1 _ hret).2⟩

end Lkm.MutexDevice.Poc
