import Mathlib.Data.List.Induction
import Lkm.Base.Protocol
import Lkm.MutexDevice.Driver

/-!
# Reads of the mutex device are not torn

The protocol between the threads: whoever holds the mutex finds the memory
unchanged from one of its steps to the next, and whenever the mutex is free the
buffer is the result of all writes so far (`Settled`). A critical section is
therefore verified like sequential code: its assertions are `Holding t s`, the
memory being exactly `s`.
-/

namespace Lkm.MutexDevice

open Base Protocol

/-- The writes that have been made in full. -/
def Mem.completedWrites (s : Mem) : List (List Byte) := s.writes.take s.completed

/-- Writes one after the other, each from the start of the buffer. -/
def applyWrites (initial : Buf) (writes : List (List Byte)) : Buf :=
  writes.foldl (fun b data => put b 0 data) initial

theorem applyWrites_concat (initial : Buf) (writes : List (List Byte)) (data : List Byte) :
    applyWrites initial (writes ++ [data]) = put (applyWrites initial writes) 0 data := by
  unfold applyWrites
  rw [List.foldl_append, List.foldl_cons, List.foldl_nil]

/-- No write is under way, and the buffer holds the result of all of them. -/
structure Settled (initial : Buf) (s : Mem) : Prop where
  completed : s.completed = s.writes.length
  buff : s.buff = applyWrites initial s.writes

theorem Settled.completedWrites {initial : Buf} {s : Mem} (h : Settled initial s) :
    s.completedWrites = s.writes := by
  unfold Mem.completedWrites
  rw [h.completed, List.take_length]

/-! ## The protocol -/

/-- What a step leaves to thread `u`. -/
structure BuffSafe (u : Nat) (m m' : Mach Mem Mutex) : Prop where
  held : m.owner .mutex = some u → m'.mem = m.mem ∧ m'.owner .mutex = some u
  grows : m.mem.completedWrites <+: m'.mem.completedWrites

theorem BuffSafe.trans {u : Nat} {m₁ m₂ m₃ : Mach Mem Mutex} (h₁ : BuffSafe u m₁ m₂)
    (h₂ : BuffSafe u m₂ m₃) : BuffSafe u m₁ m₃ := by
  constructor
  · intro howner
    obtain ⟨hmem₁, howner₁⟩ := h₁.held howner
    obtain ⟨hmem₂, howner₂⟩ := h₂.held howner₁
    exact ⟨hmem₂.trans hmem₁, howner₂⟩
  · exact h₁.grows.trans h₂.grows

def buffProtocol (initial : Buf) : Protocol Mem Mutex where
  inv := fun m => m.owner .mutex = none → Settled initial m.mem
  safe := BuffSafe
  refl := fun _ _ => ⟨fun h => ⟨rfl, h⟩, List.prefix_refl _⟩
  trans := fun _ _ _ _ => BuffSafe.trans

/-- Thread `t` holds the mutex, and the memory is `s`. -/
def Holding (t : Nat) (s : Mem) (m : Mach Mem Mutex) : Prop :=
  m.owner .mutex = some t ∧ m.mem = s

/-- The first `n` bytes of the buffer after some of the completed writes. -/
def FirstBytes (initial : Buf) (n : Nat) (bytes : List Byte) (m : Mach Mem Mutex) : Prop :=
  ∃ ws, ws <+: m.mem.completedWrites ∧ bytes = slice (applyWrites initial ws) 0 n

/-- A read of `size` bytes returned `size` and that many bytes; a write of `size` bytes returned
`size` and has been made in full. -/
def Answered (initial : Buf) : Call × Reply → Mach Mem Mutex → Prop
  | (.read size offt, reply), m => ∃ bytes, reply = .read size.toNat (offt + size) bytes ∧
      FirstBytes initial size.toNat bytes m
  | (.write buf size offt, reply), m => reply = .written size.toNat (offt + size) ∧
      slice buf 0 size.toNat ∈ m.mem.completedWrites

section

variable {initial : Buf} {t : Nat}

theorem holding_stable (s : Mem) : (buffProtocol initial).Stable t (Holding t s) := by
  intro m m' hsafe h
  obtain ⟨hmem, howner⟩ := hsafe.held h.1
  exact ⟨howner, hmem.trans h.2⟩

theorem answered_stable (r : Call × Reply) : (buffProtocol initial).Stable t (Answered initial r) := by
  intro m m' hsafe h
  obtain ⟨call, reply⟩ := r
  cases call with
  | read size offt =>
      obtain ⟨bytes, hreply, ws, hfirst, hbytes⟩ := h
      exact ⟨bytes, hreply, ws, hfirst.trans hsafe.grows, hbytes⟩
  | write buf size offt => exact ⟨h.1, hsafe.grows.subset h.2⟩

theorem true_stable : (buffProtocol initial).Stable t fun _ => True := fun _ _ _ _ => trivial

/-! ## Critical sections -/

theorem tri_mutexLock : (buffProtocol initial).Triple t (fun _ => True) mutexLock
    fun _ m => ∃ s, Settled initial s ∧ Holding t s m := by
  apply triple_lock true_stable (B := fun m => ∃ s, Settled initial s ∧ Holding t s m)
  · intro m hinv _ hfree
    constructor
    · intro howner
      simp at howner
    · intro u _
      constructor
      · intro howner
        rw [hfree] at howner
        cases howner
      · exact List.prefix_refl _
    · exact ⟨m.mem, hinv hfree, by simp, rfl⟩
  · exact triple_ret () fun _ h => h
  · exact triple_fail

theorem tri_mutexUnlock {s : Mem} (hs : Settled initial s) :
    (buffProtocol initial).Triple t (Holding t s) mutexUnlock fun _ m =>
      s.completedWrites <+: m.mem.completedWrites := by
  apply triple_unlock (holding_stable s)
    (B := fun m => s.completedWrites <+: m.mem.completedWrites)
  · intro m _ hm
    constructor
    · intro _
      show Settled initial m.mem
      rw [hm.2]
      exact hs
    · intro u hu
      constructor
      · intro howner
        rw [hm.1] at howner
        exact absurd (Option.some.inj howner).symm hu
      · exact List.prefix_refl _
    · have hsame : s.completedWrites = m.mem.completedWrites := by rw [hm.2]
      exact hsame ▸ List.prefix_refl _
  · exact triple_ret () fun _ h => h

theorem tri_update {s : Mem} {f : Mem → Mem} (hgrows : s.completedWrites <+: (f s).completedWrites) :
    (buffProtocol initial).Triple t (Holding t s) (update f) fun _ => Holding t (f s) := by
  apply triple_act (holding_stable s) (B := Holding t (f s))
  · intro m _ hm
    constructor
    · intro howner
      rw [Mach.upd_owner, hm.1] at howner
      cases howner
    · intro u hu
      constructor
      · intro howner
        rw [hm.1] at howner
        exact absurd (Option.some.inj howner).symm hu
      · rw [Mach.upd_mem, hm.2]
        exact hgrows
    · exact ⟨hm.1, by rw [Mach.upd_mem, hm.2]⟩
  · exact triple_ret () fun _ h => h

theorem tri_loadByte (s : Mem) (i : Nat) : (buffProtocol initial).Triple t (Holding t s) (loadByte i)
    fun b m => b = s.buff i ∧ Holding t s m := by
  apply triple_get (holding_stable s)
  intro m _ hm
  refine ⟨Holding t s, hm, ?_⟩
  apply triple_ret
  intro m' hm'
  exact ⟨by rw [hm.2], hm'⟩

/-- Under the mutex, a copy out is the buffer at one moment. -/
theorem tri_copyToUser (s : Mem) (i n : Nat) :
    (buffProtocol initial).Triple t (Holding t s) (copyToUser i n)
      fun bytes m => bytes = slice s.buff i n ∧ Holding t s m := by
  induction n generalizing i with
  | zero => exact triple_ret [] fun m hm => ⟨rfl, hm⟩
  | succ n ih =>
      apply triple_bind (tri_loadByte s i)
      intro b
      apply triple_fact
      intro hb
      apply triple_bind (ih (i + 1))
      intro rest
      apply triple_fact
      intro hrest
      apply triple_ret
      intro m hm
      exact ⟨by rw [slice_succ, hb, hrest], hm⟩

/-- A copy in moves all of its bytes. -/
theorem tri_copyFromUser (s : Mem) (i : Nat) (data : List Byte) :
    (buffProtocol initial).Triple t (Holding t s) (copyFromUser i data)
      fun _ => Holding t { s with buff := put s.buff i data } := by
  induction data generalizing s i with
  | nil =>
      apply triple_ret
      intro m hm
      rwa [put_nil]
  | cons b rest ih =>
      apply triple_bind (tri_update (f := (·.storeByte i b)) (List.prefix_refl _))
      intro _
      have hrest := ih (s.storeByte i b) (i + 1)
      have hjoin : put (put s.buff i [b]) (i + 1) rest = put s.buff i (b :: rest) :=
        put_append s.buff i [b] rest
      rw [show (s.storeByte i b).buff = put s.buff i [b] from rfl, hjoin] at hrest
      exact hrest

/-! ## Calls -/

theorem intOf_eq {count : SizeT} (h : count.toNat ≤ buffSize) : intOf count = count.toNat := by
  have hsize : count.toNat ≤ 256 := h
  unfold intOf
  rw [BitVec.toInt_eq_toNat_of_lt (by rw [BitVec.toNat_setWidth]; omega), BitVec.toNat_setWidth]
  omega

theorem tri_readFile {size : SizeT} (offt : LoffT) (h : size.toNat ≤ buffSize) :
    (buffProtocol initial).Triple t (fun _ => True) (readFile size offt)
      fun reply => Answered initial (.read size offt, reply) := by
  apply triple_bind tri_mutexLock
  intro _
  apply triple_exists
  intro s
  apply triple_fact
  intro hs
  apply triple_bind (tri_copyToUser s 0 size.toNat)
  intro bytes
  apply triple_fact
  intro hbytes
  apply triple_bind (tri_mutexUnlock hs)
  intro _
  apply triple_ret
  intro m hm
  refine ⟨bytes, by rw [intOf_eq h], s.completedWrites, hm, ?_⟩
  rw [hs.completedWrites, ← hs.buff, hbytes]

/-- A write leaves the buffer settled, with its data on top. -/
theorem Settled.write {s : Mem} (h : Settled initial s) (data : List Byte) :
    Settled initial { s with
      buff := put s.buff 0 data, writes := s.writes ++ [data], completed := s.completed + 1 } := by
  constructor
  · show s.completed + 1 = (s.writes ++ [data]).length
    rw [List.length_append, List.length_singleton, h.completed]
  · show put s.buff 0 data = applyWrites initial (s.writes ++ [data])
    rw [applyWrites_concat, h.buff]

theorem tri_writeFile (buf : Buf) {size : SizeT} (offt : LoffT) (h : size.toNat ≤ buffSize) :
    (buffProtocol initial).Triple t (fun _ => True) (writeFile buf size offt)
      fun reply => Answered initial (.write buf size offt, reply) := by
  apply triple_bind tri_mutexLock
  intro _
  apply triple_exists
  intro s
  apply triple_fact
  intro hs
  -- up to the last byte the write is not among the completed ones
  have hbegin : s.completedWrites <+: (s.begin (slice buf 0 size.toNat)).completedWrites := by
    have hsame : s.completedWrites =
        (s.writes ++ [slice buf 0 size.toNat]).take s.completed := by
      rw [hs.completedWrites, hs.completed, List.take_left]
    exact ⟨[], (List.append_nil _).trans hsame⟩
  apply triple_bind (tri_update hbegin)
  intro _
  apply triple_bind (tri_copyFromUser _ 0 _)
  intro _
  apply triple_bind (tri_update (by
    apply List.take_prefix_take_left
    exact Nat.le_succ _))
  intro _
  have hs' := hs.write (slice buf 0 size.toNat)
  apply triple_bind (tri_mutexUnlock hs')
  intro _
  apply triple_ret
  intro m hm
  refine ⟨by rw [intOf_eq h], hm.subset ?_⟩
  rw [hs'.completedWrites]
  exact List.mem_append_right _ (List.mem_singleton_self _)

end

/-! ## Runs -/

/-- Full writes leave nothing of what was there before. -/
theorem slice_applyWrites (initial : Buf) (ws : List (List Byte))
    (hfull : ∀ w ∈ ws, w.length = buffSize) :
    slice (applyWrites initial ws) 0 buffSize = slice initial 0 buffSize ∨
      slice (applyWrites initial ws) 0 buffSize ∈ ws := by
  induction ws using List.reverseRecOn with
  | nil => exact .inl rfl
  | append_singleton ws w _ =>
      have hlen : w.length = buffSize := hfull w (List.mem_append_right _ (List.mem_singleton_self w))
      right
      rw [applyWrites_concat, ← hlen, slice_put_self]
      exact List.mem_append_right _ (List.mem_singleton_self w)

theorem tri_answered {call : Call} (h : call.size.toNat ≤ buffSize) :
    (buffProtocol initial).Triple t (fun _ => True) call.answered (Answered initial) := by
  cases call with
  | read size offt =>
      apply triple_bind (tri_readFile offt h)
      intro reply
      exact triple_ret _ fun _ hm => hm
  | write buf size offt =>
      apply triple_bind (tri_writeFile buf offt h)
      intro reply
      exact triple_ret _ fun _ hm => hm

/-- In every reachable configuration, a read of `size` bytes that returns has `size` and the
first `size` bytes of the buffer after some of the completed writes, in the order in which
they acquired the mutex; if all writes are full and the read is, it has the data of one of
them, or the buffer as it was at first. A write that returns is among the completed ones,
with all of its data. -/
theorem reads_not_torn (initial : Buf) (c : Config Mem Mutex Unit Fault Answer (Call × Reply))
    (hc : Config.Reach Call.answered (fun call => call.size.toNat ≤ buffSize) (fun _ => False)
      (fun m => m = myInit initial) c) :
    (∀ t size offt reply, c.threads t = some (.ret (.read size offt, reply)) →
      ∃ bytes, reply = .read size.toNat (offt + size) bytes ∧ bytes.length = size.toNat ∧
        (∃ ws, ws <+: c.mach.mem.completedWrites ∧
          bytes = slice (applyWrites initial ws) 0 size.toNat) ∧
        ((∀ w ∈ c.mach.mem.writes, w.length = buffSize) → size.toNat = buffSize →
          bytes = slice initial 0 buffSize ∨ bytes ∈ c.mach.mem.completedWrites)) ∧
    ∀ t buf size offt reply, c.threads t = some (.ret (.write buf size offt, reply)) →
      reply = .written size.toNat (offt + size) ∧
        slice buf 0 size.toNat ∈ c.mach.mem.completedWrites := by
  have hinit : ∀ m, m = myInit initial →
      (buffProtocol initial).inv m ∧ ∀ _ : Nat, True := by
    rintro m rfl
    exact ⟨fun _ => ⟨rfl, rfl⟩, fun _ => trivial⟩
  have hanswered : ∀ t r, c.threads t = some (.ret r) → Answered initial r c.mach :=
    (Protocol.returns (fun _ => true_stable) (fun _ r => answered_stable r)
      (fun _ _ _ _ => trivial) (fun _ _ hsize => tri_answered hsize) hinit hc).2
  constructor
  · intro t size offt reply ht
    obtain ⟨bytes, hreply, ws, hfirst, hbytes⟩ := hanswered t _ ht
    refine ⟨bytes, hreply, by rw [hbytes, slice_length], ⟨ws, hfirst, hbytes⟩, ?_⟩
    intro hfull hsize
    have hws : ∀ w ∈ ws, w.length = buffSize := fun w hw =>
      hfull w ((hfirst.trans (List.take_prefix _ _)).subset hw)
    rw [hbytes, hsize]
    exact (slice_applyWrites initial ws hws).imp id fun hmem => hfirst.subset hmem
  · intro t buf size offt reply ht
    exact hanswered t _ ht

/-- Thread 0 writes two bytes. Thread 1 comes to read while the first is copied, and has
to wait. -/
def writeAroundRead : List (Event Call Answer) :=
  [.start 0 (.write (fun i => BitVec.ofNat 8 (i + 1)) 2 0), .step 0, .step 0, .step 0,
    .start 1 (.read 2 0), .step 0, .step 0, .step 0, .step 1, .step 1, .step 1, .step 1]

theorem reads_not_torn_waiting :
    ∃ c, Config.Reach Call.answered (fun call => call.size.toNat ≤ buffSize) (fun _ => False)
        (fun m => m = myInit fun _ => 0) c ∧
      c.threads 1 = some (.ret (.read 2 0, .read 2 2 [1, 2])) ∧
      ∃ ws, ws <+: [[1, 2]] ∧ [1, 2] = slice (applyWrites (fun _ => 0) ws) 0 2 := by
  obtain ⟨c, hexec, hret, hwrites⟩ : ∃ c, Config.exec Call.answered writeAroundRead
      ⟨fun _ => none, myInit fun _ => 0⟩ = some c ∧
      c.threads 1 = some (.ret (.read 2 0, .read 2 2 [1, 2])) ∧
      c.mach.mem.completedWrites = [[1, 2]] :=
    ⟨_, rfl, rfl, rfl⟩
  have hcalls : ∀ t call, Event.start t call ∈ writeAroundRead → call.size.toNat ≤ buffSize := by
    intro t call h
    simp only [writeAroundRead, List.mem_cons, Event.start.injEq, reduceCtorEq, List.not_mem_nil,
      false_or, or_false] at h
    rcases h with ⟨_, rfl⟩ | ⟨_, rfl⟩ <;> decide
  have hreach : Config.Reach Call.answered (fun call => call.size.toNat ≤ buffSize) (fun _ => False)
      (fun m => m = myInit fun _ => 0) c :=
    .exec_quiet writeAroundRead hcalls (by simp [writeAroundRead]) (.init rfl) hexec
  obtain ⟨bytes, hreply, -, hfirst, -⟩ := (reads_not_torn (fun _ => 0) c hreach).1 1 2 0 _ hret
  cases hreply
  rw [hwrites] at hfirst
  exact ⟨c, hreach, hret, hfirst⟩

end Lkm.MutexDevice
