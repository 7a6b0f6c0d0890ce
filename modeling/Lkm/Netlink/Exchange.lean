import Mathlib.Logic.Function.Basic
import Lkm.Base.Decimal
import Lkm.Base.Transitions

/-!
# Messages between programs and the kernel (`netlink/simple.c`, `netlink/user.c`)

`rcv_msg` prints what a program has sent to the kernel and answers `hello users!!!`,
always to port 100. `user.c` binds port 100, sends one message, waits for one and prints
it. Here any number of its processes run beside other programs that bind ports, receive,
and send the kernel any bytes:

* **messages** — bytes, with the header that `nlmsg_put` writes;
* **sockets** — a port is bound by at most one program, and what is sent to it waits in
  its queue. `netlink_unicast` fails when the port is not bound or its queue is full, and
  in the second case the next `recvfrom` fails with `ENOBUFS`, whatever is in the queue;
* **the kernel's log** — `none` stands for a `%s` that finds no NUL in the message and reads on
  behind it.

A process of `user.c` whose request has been answered gets out of its `recvfrom`, whoever else
has sent or received in between. It prints what the kernel has sent or, as it compares the
result of `recvfrom` with 0 only, an empty text if its queue was full once
(`answered_users_print`). The log stays inside the messages exactly if nobody may
send one without a NUL (`log_in_bounds_iff`).
-/

namespace Lkm.Netlink

open Base

def netlinkTest : BitVec 16 := 30

def userPort : Nat := 100

/-! ## Messages -/

def nlmsgHdrlen : Nat := 16

def nlmsgAlign (len : Nat) : Nat := (len + 3) / 4 * 4

def nlmsgMsgSize (payload : Nat) : Nat := nlmsgHdrlen + payload

def nlmsgTotalSize (payload : Nat) : Nat := nlmsgAlign (nlmsgMsgSize payload)

structure Nlmsghdr where
  nlmsgLen : BitVec 32
  nlmsgType : BitVec 16
  nlmsgFlags : BitVec 16
  nlmsgSeq : BitVec 32
  nlmsgPid : BitVec 32

def Nlmsghdr.toBytes (h : Nlmsghdr) : List Byte :=
  wordBytes 4 h.nlmsgLen ++ wordBytes 2 h.nlmsgType ++ wordBytes 2 h.nlmsgFlags ++
    wordBytes 4 h.nlmsgSeq ++ wordBytes 4 h.nlmsgPid

/-- `nlmsg_put`, with the payload that is copied in behind it: NULL if the buffer has no
room for it, and padded with zeros otherwise. -/
def nlmsgPut (tailroom : Nat) (portid seq : BitVec 32) (type : BitVec 16) (payload : List Byte)
    (flags : BitVec 16) : Option (List Byte) :=
  let size := nlmsgMsgSize payload.length
  if tailroom < nlmsgAlign size then none
  else some ((Nlmsghdr.mk (BitVec.ofNat 32 size) type flags seq portid).toBytes ++ payload ++
    List.replicate (nlmsgAlign size - size) 0)

def kmsg : List Byte :=
  textBytes ['h', 'e', 'l', 'l', 'o', ' ', 'u', 's', 'e', 'r', 's', '!', '!', '!']

def umsg : List Byte :=
  textBytes ['h', 'e', 'l', 'l', 'o', ' ', 'n', 'e', 't', 'l', 'i', 'n', 'k', '!', '!']

/-! ## The kernel -/

structure Socket where
  /-- The process of `user.c` that has bound the port, or another program. -/
  owner : Option Nat
  queue : List (List Byte)
  /-- `ENOBUFS`, for the next `recvfrom`. -/
  skErr : Bool
  /-- `NETLINK_S_CONGESTED`: nothing is queued before the queue has been empty. -/
  congested : Bool

namespace Socket

/-- A socket that has just been bound. -/
def fresh (owner : Option Nat) : Socket := ⟨owner, [], false, false⟩

def netlinkOverrun (sock : Socket) : Socket :=
  if sock.congested then sock else { sock with skErr := true, congested := true }

def netlinkRcvWake (sock : Socket) : Socket :=
  if sock.queue.isEmpty then { sock with congested := false } else sock

/-- `netlink_recvmsg`, which waits while there is neither an error nor a message. The error, `none`
here, comes first. -/
def netlinkRecvmsg (sock : Socket) : Option (Option (List Byte) × Socket) :=
  if sock.skErr then some (none, { sock with skErr := false }.netlinkRcvWake)
  else
    match sock.queue with
    | [] => none
    | msg :: queue => some (some msg, { sock with queue := queue }.netlinkRcvWake)

end Socket

/-- Where a process of `user.c` is. -/
inductive User where
  | start
  | bound
  /-- In `recvfrom`. `answered` remembers whether the kernel's answer to its message has been queued;
  the program does not know. -/
  | waiting (answered : Bool)
  | printed (text : List Byte)
  | closed (text : List Byte)
  | failed
deriving DecidableEq

/-- What `%s` makes of the bytes behind a header. -/
def said (payload : List Byte) : Option (List Byte) :=
  if payload.contains 0 then some (payload.takeWhile (· ≠ 0)) else none

structure State where
  sockets : Nat → Option Socket
  user : Nat → User
  log : List (Option (List Byte))

namespace State

def setSocket (s : State) (port : Nat) (sock : Option Socket) : State :=
  { s with sockets := Function.update s.sockets port sock }

def setUser (s : State) (i : Nat) (u : User) : State :=
  { s with user := Function.update s.user i u }

/-- `printk("kernel recv from user: %s\n", umsg)`. -/
def printk (s : State) (payload : List Byte) : State := { s with log := s.log ++ [said payload] }

/-- The length of what has been queued, or an error. -/
def netlinkUnicast (room : Bool) (port : Nat) (skb : List Byte) (s : State) : Int × State :=
  match s.sockets port with
  | none => (-111, s)
  | some sock =>
      if room && !sock.congested then
        (skb.length, s.setSocket port (some { sock with queue := sock.queue ++ [skb] }))
      else (-11, s.setSocket port (some sock.netlinkOverrun))

/-- `alloc`: there is memory for the message. `room`: there is room in the queue. -/
def sendMsg (alloc room : Bool) (pbuf : List Byte) (s : State) : Int × State :=
  if alloc then
    match nlmsgPut (nlmsgTotalSize pbuf.length) 0 0 netlinkTest pbuf 0 with
    | none => (-1, s)
    | some skb => s.netlinkUnicast room userPort skb
  else (-1, s)

/-- The result of `send_msg`, which the source does not look at, and 0 if it is not called. -/
def rcvMsg (alloc room : Bool) (skb : List Byte) (s : State) : Int × State :=
  if nlmsgTotalSize 0 ≤ skb.length then (s.printk (skb.drop nlmsgHdrlen)).sendMsg alloc room kmsg
  else (0, s)

end State

/-! ## The program -/

def maxPload : Nat := 125

/-- `NLMSG_SPACE(MAX_PLOAD)` zeroed bytes, the header and the text in front. -/
def userMsg : List Byte :=
  (Nlmsghdr.mk (BitVec.ofNat 32 (nlmsgTotalSize maxPload)) 0 0 0 (BitVec.ofNat 32 userPort)).toBytes ++
    umsg ++ List.replicate (nlmsgTotalSize maxPload - nlmsgHdrlen - umsg.length) 0

/-- `sizeof(user_msg_info)`. -/
def sizeofUserMsgInfo : Nat := 144

/-- The text at `u_info.msg` once the message is in the zeroed `u_info`. -/
def userText (msg : List Byte) : List Byte :=
  let uInfo := msg.take sizeofUserMsgInfo ++ List.replicate (sizeofUserMsgInfo - msg.length) 0
  ((uInfo.drop nlmsgHdrlen).take maxPload).takeWhile (· ≠ 0)

inductive Event where
  /-- The steps of process `i` of `user.c`. -/
  | bind (i : Nat)
  | sendto (i : Nat) (sent alloc room : Bool)
  | recvfrom (i : Nat)
  | close (i : Nat)
  | kill (i : Nat)
  /-- Other programs. -/
  | otherBind (port : Nat)
  | otherClose (port : Nat)
  | otherRecv (port : Nat)
  | otherSend (skb : List Byte) (alloc room : Bool)

/-- The process has the port. -/
def User.Open : User → Prop
  | .bound | .waiting _ | .printed _ => True
  | .start | .closed _ | .failed => False

namespace State

def bind (s : State) (i : Nat) : Option State :=
  match s.user i with
  | .start =>
      match s.sockets userPort with
      | none => some ((s.setSocket userPort (some (.fresh (some i)))).setUser i .bound)
      | some _ => some (s.setUser i .failed)
  | _ => none

/-- A `sendto` that fails (`sent` is false) is not noticed: its result is compared with 0. -/
def sendto (s : State) (i : Nat) (sent alloc room : Bool) : Option State :=
  match s.user i with
  | .bound =>
      if sent then
        let out := s.rcvMsg alloc room userMsg
        some (out.2.setUser i (.waiting (0 < out.1)))
      else some (s.setUser i (.waiting false))
  | _ => none

/-- A `recvfrom` that fails is not noticed, either, and `u_info` is as empty as it was. -/
def recvfrom (s : State) (i : Nat) : Option State :=
  match s.user i, s.sockets userPort with
  | .waiting _, some sock =>
      if sock.owner = some i then
        sock.netlinkRecvmsg.map fun out =>
          (s.setSocket userPort (some out.2)).setUser i (.printed (userText (out.1.getD [])))
      else none
  | _, _ => none

def close (s : State) (i : Nat) : Option State :=
  match s.user i with
  | .printed text => some ((s.setSocket userPort none).setUser i (.closed text))
  | _ => none

/-- A process that is killed gives the port back. -/
def kill (s : State) (i : Nat) : Option State :=
  match s.user i with
  | .bound | .waiting _ | .printed _ => some ((s.setSocket userPort none).setUser i .failed)
  | _ => none

def otherBind (s : State) (port : Nat) : Option State :=
  match s.sockets port with
  | none => some (s.setSocket port (some (.fresh none)))
  | some _ => none

def otherClose (s : State) (port : Nat) : Option State :=
  match s.sockets port with
  | some sock => if sock.owner = none then some (s.setSocket port none) else none
  | none => none

def otherRecv (s : State) (port : Nat) : Option State :=
  match s.sockets port with
  | some sock =>
      if sock.owner = none then
        sock.netlinkRecvmsg.map fun out => s.setSocket port (some out.2)
      else none
  | none => none

def next (s : State) : Event → Option State
  | .bind i => s.bind i
  | .sendto i sent alloc room => s.sendto i sent alloc room
  | .recvfrom i => s.recvfrom i
  | .close i => s.close i
  | .kill i => s.kill i
  | .otherBind port => s.otherBind port
  | .otherClose port => s.otherClose port
  | .otherRecv port => s.otherRecv port
  | .otherSend skb alloc room => some (s.rcvMsg alloc room skb).2

def idle : State := ⟨fun _ => none, fun _ => .start, []⟩

end State

def exchange : TSys State Event where
  init s := s = .idle
  next := State.next

/-! ## The answer -/

/-- What `send_msg` makes of the kernel's text. -/
def reply : List Byte :=
  (Nlmsghdr.mk 30 netlinkTest 0 0 0).toBytes ++ kmsg ++ [0, 0]

theorem nlmsgPut_kmsg :
    nlmsgPut (nlmsgTotalSize kmsg.length) 0 0 netlinkTest kmsg 0 = some reply := by
  decide

theorem userText_reply : userText reply = kmsg := by
  decide

theorem userText_nil : userText [] = [] := by
  decide

/-! ## What every run keeps -/

namespace State

variable (s : State) (p i : Nat) (sock : Option Socket) (u : User)

theorem setSocket_self : (s.setSocket p sock).sockets p = sock := Function.update_self ..

theorem setSocket_ne {q : Nat} (h : q ≠ p) : (s.setSocket p sock).sockets q = s.sockets q :=
  Function.update_of_ne h ..

theorem setUser_self : (s.setUser i u).user i = u := Function.update_self ..

theorem setUser_ne {j : Nat} (h : j ≠ i) : (s.setUser i u).user j = s.user j :=
  Function.update_of_ne h ..

theorem setUser_log : (s.setUser i u).log = s.log := rfl

end State

namespace Socket

variable {sock sock' : Socket}

theorem netlinkRcvWake_frame (sock : Socket) :
    sock.netlinkRcvWake.owner = sock.owner ∧ sock.netlinkRcvWake.queue = sock.queue ∧
      sock.netlinkRcvWake.skErr = sock.skErr ∧
      (sock.congested = false → sock.netlinkRcvWake.congested = false) := by
  unfold netlinkRcvWake
  split
  · exact ⟨rfl, rfl, rfl, fun _ => rfl⟩
  · exact ⟨rfl, rfl, rfl, id⟩

/-- What a `recvfrom` takes: the error, or the first message if there is no error. -/
theorem netlinkRecvmsg_cases {msg : Option (List Byte)} (h : sock.netlinkRecvmsg = some (msg, sock')) :
    sock'.owner = sock.owner ∧
      (sock.skErr = true ∧ msg = none ∧ sock'.queue = sock.queue ∨
        sock.skErr = false ∧ ∃ m, msg = some m ∧ sock.queue = m :: sock'.queue) ∧
      sock'.skErr = false ∧ (sock.congested = false → sock'.congested = false) := by
  unfold netlinkRecvmsg at h
  cases herr : sock.skErr with
  | true =>
      rw [if_pos herr] at h
      obtain ⟨rfl, rfl⟩ := Prod.mk.inj (Option.some.inj h)
      obtain ⟨howner, hqueue, hskErr, hcongested⟩ := netlinkRcvWake_frame { sock with skErr := false }
      exact ⟨howner, .inl ⟨rfl, rfl, hqueue⟩, hskErr, hcongested⟩
  | false =>
      rw [if_neg (Bool.eq_false_iff.mp herr)] at h
      cases hq : sock.queue with
      | nil =>
          rw [hq] at h
          cases h
      | cons m queue =>
          rw [hq] at h
          obtain ⟨rfl, rfl⟩ := Prod.mk.inj (Option.some.inj h)
          obtain ⟨howner, hqueue, hskErr, hcongested⟩ := netlinkRcvWake_frame { sock with queue := queue }
          exact ⟨howner, .inr ⟨rfl, m, rfl, by rw [hqueue]⟩, hskErr.trans herr, hcongested⟩

/-- It waits while there is nothing to take. -/
theorem isSome_netlinkRecvmsg :
    sock.netlinkRecvmsg.isSome = true ↔ sock.skErr = true ∨ sock.queue ≠ [] := by
  unfold netlinkRecvmsg
  cases herr : sock.skErr with
  | true => simp
  | false => cases hq : sock.queue <;> simp

end Socket

/-- `lossless`: in the run so far no answer has found the queue full. -/
structure Inv (lossless : Prop) (s : State) : Prop where
  /-- What waits in a queue is the kernel's answer, and it is at port 100. -/
  queues : ∀ p sock, s.sockets p = some sock → ∀ m ∈ sock.queue, p = userPort ∧ m = reply
  opened : ∀ i, (s.user i).Open → ∃ sock, s.sockets userPort = some sock ∧ sock.owner = some i
  /-- An answer that has been queued has not been taken away by anyone else. -/
  pending : ∀ i, s.user i = .waiting true → ∀ sock, s.sockets userPort = some sock → sock.queue ≠ []
  errors : lossless → ∀ p sock, s.sockets p = some sock → sock.skErr = false ∧ sock.congested = false
  texts : ∀ i t, s.user i = .printed t ∨ s.user i = .closed t → t = kmsg ∨ t = [] ∧ ¬lossless

namespace Inv

variable {lossless : Prop} {s : State}

theorem idle : Inv lossless .idle where
  queues p sock h := nomatch h
  opened i h := h.elim
  pending i h := nomatch h
  errors _ p sock h := nomatch h
  texts i t h := by rcases h with h | h <;> cases h

theorem open_of_waiting {i : Nat} {answered : Bool} (hi : s.user i = .waiting answered) :
    (s.user i).Open := by
  rw [hi]
  trivial

/-- The port has one owner. -/
theorem owner_unique (h : Inv lossless s) {i j : Nat} (hi : (s.user i).Open) (hj : (s.user j).Open) :
    i = j := by
  obtain ⟨sock, hsock, howner⟩ := h.opened i hi
  obtain ⟨sock', hsock', howner'⟩ := h.opened j hj
  obtain rfl := Option.some.inj (hsock.symm.trans hsock')
  exact Option.some.inj (howner.symm.trans howner')

/-- Something has happened to a socket: what is in its queue are answers, and it is not empty if one is
expected. -/
theorem setSocket (h : Inv lossless s) {p : Nat} {sock sock' : Socket} (hsock : s.sockets p = some sock)
    (howner : sock'.owner = sock.owner) (hqueue : ∀ m ∈ sock'.queue, p = userPort ∧ m = reply)
    (hpending : ∀ i, p = userPort → s.user i = .waiting true → sock'.queue ≠ [])
    (herrors : lossless → sock'.skErr = false ∧ sock'.congested = false) :
    Inv lossless (s.setSocket p (some sock')) where
  queues p' sock₁ hsock₁ m hm := by
    by_cases hp : p' = p
    · subst hp
      rw [State.setSocket_self] at hsock₁
      cases hsock₁
      exact hqueue m hm
    · rw [State.setSocket_ne _ _ _ hp] at hsock₁
      exact h.queues p' sock₁ hsock₁ m hm
  opened i hi := by
    obtain ⟨sock₁, hsock₁, howner₁⟩ := h.opened i hi
    by_cases hp : userPort = p
    · subst hp
      obtain rfl := Option.some.inj (hsock.symm.trans hsock₁)
      exact ⟨sock', State.setSocket_self .., howner.trans howner₁⟩
    · exact ⟨sock₁, (State.setSocket_ne _ _ _ hp).trans hsock₁, howner₁⟩
  pending i hi sock₁ hsock₁ := by
    by_cases hp : userPort = p
    · subst hp
      rw [State.setSocket_self] at hsock₁
      cases hsock₁
      exact hpending i rfl hi
    · rw [State.setSocket_ne _ _ _ hp] at hsock₁
      exact h.pending i hi sock₁ hsock₁
  errors hl p' sock₁ hsock₁ := by
    by_cases hp : p' = p
    · subst hp
      rw [State.setSocket_self] at hsock₁
      cases hsock₁
      exact herrors hl
    · rw [State.setSocket_ne _ _ _ hp] at hsock₁
      exact h.errors hl p' sock₁ hsock₁
  texts := h.texts

/-- A port is bound. -/
theorem openSocket (h : Inv lossless s) {p : Nat} (hfree : s.sockets p = none) (owner : Option Nat) :
    Inv lossless (s.setSocket p (some (.fresh owner))) := by
  have hbound : ∀ i, (s.user i).Open → userPort ≠ p := by
    rintro i hi rfl
    obtain ⟨sock, hsock, -⟩ := h.opened i hi
    cases hfree.symm.trans hsock
  constructor
  case queues =>
    intro p' sock' hsock' m hm
    by_cases hp : p' = p
    · subst hp
      rw [State.setSocket_self] at hsock'
      cases hsock'
      cases hm
    · rw [State.setSocket_ne _ _ _ hp] at hsock'
      exact h.queues p' sock' hsock' m hm
  case opened =>
    intro i hi
    obtain ⟨sock, hsock, howner⟩ := h.opened i hi
    exact ⟨sock, (State.setSocket_ne _ _ _ (hbound i hi)).trans hsock, howner⟩
  case pending =>
    intro i hi sock' hsock'
    rw [State.setSocket_ne _ _ _ (hbound i (open_of_waiting hi))] at hsock'
    exact h.pending i hi sock' hsock'
  case errors =>
    intro hl p' sock' hsock'
    by_cases hp : p' = p
    · subst hp
      rw [State.setSocket_self] at hsock'
      cases hsock'
      exact ⟨rfl, rfl⟩
    · rw [State.setSocket_ne _ _ _ hp] at hsock'
      exact h.errors hl p' sock' hsock'
  case texts => exact h.texts

/-- A port is given back that no process of `user.c` has. -/
theorem dropSocket (h : Inv lossless s) {p : Nat} (hp : p = userPort → ∀ i, ¬ (s.user i).Open) :
    Inv lossless (s.setSocket p none) := by
  have hleft : ∀ p' sock', (s.setSocket p none).sockets p' = some sock' → s.sockets p' = some sock' := by
    intro p' sock' hsock'
    by_cases hp' : p' = p
    · subst hp'
      rw [State.setSocket_self] at hsock'
      cases hsock'
    · rwa [State.setSocket_ne _ _ _ hp'] at hsock'
  constructor
  case queues => exact fun p' sock' hsock' => h.queues p' sock' (hleft p' sock' hsock')
  case opened =>
    intro i hi
    obtain ⟨sock, hsock, howner⟩ := h.opened i hi
    exact ⟨sock, (State.setSocket_ne _ _ _ fun heq => hp heq.symm i hi).trans hsock, howner⟩
  case pending => exact fun i hi sock' hsock' => h.pending i hi sock' (hleft userPort sock' hsock')
  case errors => exact fun hl p' sock' hsock' => h.errors hl p' sock' (hleft p' sock' hsock')
  case texts => exact h.texts

/-- A process goes on. -/
theorem setUser (h : Inv lossless s) {i : Nat} {u : User}
    (hopen : u.Open → ∃ sock, s.sockets userPort = some sock ∧ sock.owner = some i)
    (hpending : u = .waiting true → ∀ sock, s.sockets userPort = some sock → sock.queue ≠ [])
    (htexts : ∀ t, u = .printed t ∨ u = .closed t → t = kmsg ∨ t = [] ∧ ¬lossless) :
    Inv lossless (s.setUser i u) where
  queues := h.queues
  opened j hj := by
    by_cases hij : j = i
    · subst hij
      rw [State.setUser_self] at hj
      exact hopen hj
    · rw [State.setUser_ne _ _ _ hij] at hj
      exact h.opened j hj
  pending j hj := by
    by_cases hij : j = i
    · subst hij
      rw [State.setUser_self] at hj
      exact hpending hj
    · rw [State.setUser_ne _ _ _ hij] at hj
      exact h.pending j hj
  errors := h.errors
  texts j t hj := by
    by_cases hij : j = i
    · subst hij
      rw [State.setUser_self] at hj
      exact htexts t hj
    · rw [State.setUser_ne _ _ _ hij] at hj
      exact h.texts j t hj

/-- The process that had the port gives it back. -/
theorem leave (h : Inv lossless s) {i : Nat} {u : User} (hi : (s.user i).Open) (hu : ¬ u.Open)
    (htexts : ∀ t, u = .closed t → t = kmsg ∨ t = [] ∧ ¬lossless) :
    Inv lossless ((s.setSocket userPort none).setUser i u) := by
  have hgone : Inv lossless (s.setUser i u) := by
    refine h.setUser (fun ho => absurd ho hu) ?_ ?_
    · rintro rfl
      exact absurd trivial hu
    · rintro t (rfl | ht)
      · exact absurd trivial hu
      · exact htexts t ht
  refine hgone.dropSocket fun _ j hj => ?_
  by_cases hij : j = i
  · subst hij
    rw [State.setUser_self] at hj
    exact hu hj
  · rw [State.setUser_ne _ _ _ hij] at hj
    exact hij (h.owner_unique hj hi)

/-- A process begins to wait for an answer. -/
theorem wait (h : Inv lossless s) {i : Nat} {answered : Bool} (hi : (s.user i).Open)
    (hpending : answered = true → ∀ sock, s.sockets userPort = some sock → sock.queue ≠ []) :
    Inv lossless (s.setUser i (.waiting answered)) := by
  refine h.setUser (fun _ => h.opened i hi) (fun hu => hpending (User.waiting.inj hu)) ?_
  rintro t (ht | ht) <;> cases ht

end Inv

/-- What the kernel does with a message: the processes stay as they are, and if it answers
there is something in the queue. -/
structure Served (lossless : Prop) (s s' : State) (ret : Int) : Prop where
  user : s'.user = s.user
  inv : Inv lossless s → Inv lossless s'
  queued : 0 < ret → ∀ sock, s'.sockets userPort = some sock → sock.queue ≠ []

section Served

variable {lossless : Prop}

theorem served_unanswered {s s' : State} {ret : Int} (hret : ret ≤ 0)
    (hsockets : s'.sockets = s.sockets) (huser : s'.user = s.user) : Served lossless s s' ret where
  user := huser
  inv h := by
    obtain ⟨sockets', user', log'⟩ := s'
    obtain rfl : sockets' = s.sockets := hsockets
    obtain rfl : user' = s.user := huser
    exact ⟨h.queues, h.opened, h.pending, h.errors, h.texts⟩
  queued hpos := absurd hpos (by omega)

theorem netlinkOverrun_frame (sock : Socket) :
    sock.netlinkOverrun.owner = sock.owner ∧ sock.netlinkOverrun.queue = sock.queue := by
  unfold Socket.netlinkOverrun
  split <;> exact ⟨rfl, rfl⟩

theorem served_netlinkUnicast {room : Bool} (hroom : lossless → room = true) (s : State)
    (herrors : ∀ sock, s.sockets userPort = some sock → lossless → sock.congested = false) :
    Served lossless s (s.netlinkUnicast room userPort reply).2
      (s.netlinkUnicast room userPort reply).1 := by
  unfold State.netlinkUnicast
  cases hsock : s.sockets userPort with
  | none => exact served_unanswered (show (-111 : Int) ≤ 0 by decide) rfl rfl
  | some sock =>
      dsimp only
      by_cases hfree : (room && !sock.congested) = true
      · rw [if_pos hfree]
        have hne : sock.queue ++ [reply] ≠ [] :=
          List.append_ne_nil_of_right_ne_nil _ (List.cons_ne_nil _ _)
        refine ⟨rfl, fun h => ?_, fun _ sock' hsock' => ?_⟩
        · refine h.setSocket hsock rfl ?_ (fun _ _ _ => hne) fun hl => h.errors hl userPort sock hsock
          intro m hm
          rcases List.mem_append.mp hm with hm | hm
          · exact h.queues userPort sock hsock m hm
          · exact ⟨rfl, List.mem_singleton.mp hm⟩
        · rw [State.setSocket_self] at hsock'
          cases hsock'
          exact hne
      · rw [if_neg hfree]
        obtain ⟨howner, hqueue⟩ := netlinkOverrun_frame sock
        refine ⟨rfl, fun h => ?_, fun hpos => absurd hpos (show ¬(0 : Int) < -11 by decide)⟩
        refine h.setSocket hsock howner ?_ ?_ ?_
        · rw [hqueue]
          exact h.queues userPort sock hsock
        · intro i _ hi
          rw [hqueue]
          exact h.pending i hi sock hsock
        · intro hl
          refine absurd ?_ hfree
          rw [hroom hl, herrors sock hsock hl]
          rfl

theorem served_rcvMsg {room : Bool} (hroom : lossless → room = true) (alloc : Bool) (skb : List Byte)
    {s : State} (h : Inv lossless s) :
    Served lossless s (s.rcvMsg alloc room skb).2 (s.rcvMsg alloc room skb).1 := by
  unfold State.rcvMsg
  split
  · have hlog := served_netlinkUnicast hroom (s.printk (skb.drop nlmsgHdrlen))
      fun sock hsock hl => (h.errors hl userPort sock hsock).2
    cases alloc with
    | false => exact served_unanswered (show (-1 : Int) ≤ 0 by decide) rfl rfl
    | true =>
        simp only [State.sendMsg, nlmsgPut_kmsg, if_true]
        exact ⟨hlog.user, fun h => hlog.inv ⟨h.queues, h.opened, h.pending, h.errors, h.texts⟩,
          hlog.queued⟩
  · exact served_unanswered (show (0 : Int) ≤ 0 by decide) rfl rfl

end Served

/-- An answer that the event brings about finds room. -/
def Event.Roomy : Event → Prop
  | .sendto _ _ _ room => room = true
  | .otherSend _ _ room => room = true
  | _ => True

namespace Inv

variable {lossless : Prop} {s s' : State}

theorem bind (h : Inv lossless s) {i : Nat} (hs : s.bind i = some s') : Inv lossless s' := by
  unfold State.bind at hs
  cases hi : s.user i with
  | start =>
      cases hsock : s.sockets userPort with
      | none =>
          simp only [hi, hsock] at hs
          cases hs
          refine (h.openSocket hsock (some i)).setUser
            (fun _ => ⟨_, State.setSocket_self .., rfl⟩) nofun ?_
          rintro t (ht | ht) <;> cases ht
      | some sock =>
          simp only [hi, hsock] at hs
          cases hs
          refine h.setUser (fun ho => ho.elim) nofun ?_
          rintro t (ht | ht) <;> cases ht
  | _ => simp only [hi] at hs; cases hs

theorem sendto (h : Inv lossless s) {i : Nat} {sent alloc room : Bool} (hroom : lossless → room = true)
    (hs : s.sendto i sent alloc room = some s') : Inv lossless s' := by
  unfold State.sendto at hs
  cases hi : s.user i with
  | bound =>
      have hopen : (s.user i).Open := by
        rw [hi]
        trivial
      simp only [hi] at hs
      cases sent with
      | true =>
          obtain rfl := Option.some.inj hs
          have hserved := served_rcvMsg hroom alloc userMsg h
          refine (hserved.inv h).wait (by rwa [hserved.user]) fun hanswered => ?_
          exact hserved.queued (of_decide_eq_true hanswered)
      | false =>
          obtain rfl := Option.some.inj hs
          exact h.wait hopen nofun
  | _ => simp only [hi] at hs; cases hs

/-- What a process prints that its `recvfrom` has let go on. -/
theorem userText_recv (h : Inv lossless s) {sock sock' : Socket} (hsock : s.sockets userPort = some sock)
    {msg : Option (List Byte)} (hrecv : sock.netlinkRecvmsg = some (msg, sock')) :
    userText (msg.getD []) = if sock.skErr then [] else kmsg := by
  rcases (Socket.netlinkRecvmsg_cases hrecv).2.1 with ⟨herr, rfl, -⟩ | ⟨herr, m, rfl, hqueue⟩
  · rw [if_pos herr]
    exact userText_nil
  · have hm : m = reply := (h.queues _ _ hsock m (hqueue ▸ List.mem_cons_self)).2
    rw [if_neg (Bool.eq_false_iff.mp herr), hm]
    exact userText_reply

/-- A program takes something from its socket. -/
theorem recv (h : Inv lossless s) {p : Nat} {sock sock' : Socket} (hsock : s.sockets p = some sock)
    {msg : Option (List Byte)} (hrecv : sock.netlinkRecvmsg = some (msg, sock'))
    (hnone : p = userPort → ∀ i, s.user i ≠ .waiting true) :
    Inv lossless (s.setSocket p (some sock')) := by
  obtain ⟨howner, hcases, hskErr, hcongested⟩ := Socket.netlinkRecvmsg_cases hrecv
  refine h.setSocket hsock howner ?_ (fun i hp hi => absurd hi (hnone hp i)) ?_
  · intro m hm
    apply h.queues p sock hsock
    rcases hcases with ⟨-, -, hqueue⟩ | ⟨-, m', -, hqueue⟩
    · rwa [hqueue] at hm
    · rw [hqueue]
      exact List.mem_cons_of_mem m' hm
  · exact fun hl => ⟨hskErr, hcongested (h.errors hl p sock hsock).2⟩

theorem recvfrom (h : Inv lossless s) {i : Nat} (hs : s.recvfrom i = some s') : Inv lossless s' := by
  unfold State.recvfrom at hs
  split at hs
  · next answered sock hi hsock =>
      obtain ⟨-, hs⟩ := Option.ite_none_right_eq_some.mp hs
      obtain ⟨⟨msg, sock'⟩, hrecv, rfl⟩ := Option.map_eq_some_iff.mp hs
      have hopen := open_of_waiting hi
      have htext := h.userText_recv hsock hrecv
      have hprinted : Inv lossless (s.setUser i (.printed (userText (msg.getD [])))) := by
        refine h.setUser (fun _ => h.opened i hopen) nofun ?_
        rintro t (ht | ht)
        · cases ht
          rw [htext]
          cases herr : sock.skErr with
          | false => exact .inl rfl
          | true =>
              refine .inr ⟨rfl, fun hl => ?_⟩
              cases herr.symm.trans (h.errors hl _ sock hsock).1
        · cases ht
      refine hprinted.recv hsock hrecv fun _ k hk => ?_
      -- nobody else has the port
      by_cases hki : k = i
      · subst hki
        rw [State.setUser_self] at hk
        cases hk
      · rw [State.setUser_ne _ _ _ hki] at hk
        exact hki (h.owner_unique (open_of_waiting hk) hopen)
  · cases hs

theorem close (h : Inv lossless s) {i : Nat} (hs : s.close i = some s') : Inv lossless s' := by
  unfold State.close at hs
  cases hi : s.user i with
  | printed text =>
      simp only [hi] at hs
      cases hs
      refine h.leave (by rw [hi]; trivial) id ?_
      intro t ht
      cases ht
      exact h.texts i text (.inl hi)
  | _ => simp only [hi] at hs; cases hs

theorem kill (h : Inv lossless s) {i : Nat} (hs : s.kill i = some s') : Inv lossless s' := by
  unfold State.kill at hs
  cases hi : s.user i with
  | bound | waiting answered | printed text =>
      simp only [hi] at hs
      cases hs
      exact h.leave (by rw [hi]; trivial) id nofun
  | _ => simp only [hi] at hs; cases hs

theorem otherBind (h : Inv lossless s) {p : Nat} (hs : s.otherBind p = some s') : Inv lossless s' := by
  unfold State.otherBind at hs
  cases hsock : s.sockets p with
  | none =>
      simp only [hsock] at hs
      cases hs
      exact h.openSocket hsock none
  | some sock =>
      simp only [hsock] at hs
      cases hs

/-- A socket of another program is not that of a process of `user.c`. -/
theorem not_open_of_other (h : Inv lossless s) {sock : Socket} (hsock : s.sockets userPort = some sock)
    (howner : sock.owner = none) (i : Nat) : ¬ (s.user i).Open := by
  intro hi
  obtain ⟨sock', hsock', howner'⟩ := h.opened i hi
  obtain rfl := Option.some.inj (hsock.symm.trans hsock')
  cases howner.symm.trans howner'

theorem otherClose (h : Inv lossless s) {p : Nat} (hs : s.otherClose p = some s') : Inv lossless s' := by
  unfold State.otherClose at hs
  split at hs
  · next sock hsock =>
      obtain ⟨howner, hs⟩ := Option.ite_none_right_eq_some.mp hs
      obtain rfl := Option.some.inj hs
      refine h.dropSocket ?_
      rintro rfl
      exact h.not_open_of_other hsock howner
  · cases hs

theorem otherRecv (h : Inv lossless s) {p : Nat} (hs : s.otherRecv p = some s') : Inv lossless s' := by
  unfold State.otherRecv at hs
  split at hs
  · next sock hsock =>
      obtain ⟨howner, hs⟩ := Option.ite_none_right_eq_some.mp hs
      obtain ⟨⟨msg, sock'⟩, hrecv, rfl⟩ := Option.map_eq_some_iff.mp hs
      refine h.recv hsock hrecv ?_
      rintro rfl i hi
      exact h.not_open_of_other hsock howner i (open_of_waiting hi)
  · cases hs

theorem next (h : Inv lossless s) {e : Event} (he : lossless → e.Roomy) (hs : s.next e = some s') :
    Inv lossless s' := by
  cases e with
  | bind i => exact h.bind hs
  | sendto i sent alloc room => exact h.sendto he hs
  | recvfrom i => exact h.recvfrom hs
  | close i => exact h.close hs
  | kill i => exact h.kill hs
  | otherBind port => exact h.otherBind hs
  | otherClose port => exact h.otherClose hs
  | otherRecv port => exact h.otherRecv hs
  | otherSend skb alloc room =>
      obtain rfl := Option.some.inj hs
      exact (served_rcvMsg he alloc skb h).inv h

end Inv

theorem inv_of_reach {lossless : Prop} {P : State → Event → Prop} {s : State}
    (hP : lossless → ∀ s e, P s e → e.Roomy) (h : exchange.Reach P s) : Inv lossless s := by
  refine TSys.Reach.invariant ?_ ?_ h
  · rintro s rfl
    exact Inv.idle
  · intro s e s' hs he hnext
    exact hs.next (fun hl => hP hl s e he) hnext

/-- In every interleaving of processes of `user.c` with each other and with other programs: one
process has port 100 at a time. One that waits goes on exactly if its socket has an error or a
message, as it does if the kernel has answered it, and prints an empty text or that of the kernel.
Whatever has been printed is one of the two, and the second if no answer has ever found the queue
full. Nothing is ever queued at another port. -/
theorem answered_users_print {s : State} (h : exchange.Reachable s) :
    (∀ i j, (s.user i).Open → (s.user j).Open → i = j) ∧
      (∀ i answered, s.user i = .waiting answered → ∃ sock, s.sockets userPort = some sock ∧
        (answered = true → sock.queue ≠ []) ∧
        ((s.next (.recvfrom i)).isSome = true ↔ sock.skErr = true ∨ sock.queue ≠ []) ∧
        ∀ s', s.next (.recvfrom i) = some s' →
          s'.user i = .printed (if sock.skErr then [] else kmsg)) ∧
      (∀ i t, s.user i = .printed t ∨ s.user i = .closed t →
        (t = kmsg ∨ t = []) ∧ (exchange.Reach (fun _ e => e.Roomy) s → t = kmsg)) ∧
      ∀ p sock, p ≠ userPort → s.sockets p = some sock → sock.queue = [] := by
  have hinv : Inv False s := inv_of_reach False.elim h
  refine ⟨fun i j hi hj => hinv.owner_unique hi hj, ?_, ?_, ?_⟩
  · intro i answered hi
    obtain ⟨sock, hsock, howner⟩ := hinv.opened i (Inv.open_of_waiting hi)
    have hnext : s.next (.recvfrom i) = sock.netlinkRecvmsg.map fun out =>
        (s.setSocket userPort (some out.2)).setUser i (.printed (userText (out.1.getD []))) := by
      simp only [State.next, State.recvfrom, hi, hsock, if_pos howner]
    refine ⟨sock, hsock, ?_, ?_, ?_⟩
    · rintro rfl
      exact hinv.pending i hi sock hsock
    · rw [hnext, Option.isSome_map]
      exact Socket.isSome_netlinkRecvmsg
    · intro s' hs'
      rw [hnext] at hs'
      obtain ⟨⟨msg, sock'⟩, hrecv, rfl⟩ := Option.map_eq_some_iff.mp hs'
      rw [State.setUser_self, hinv.userText_recv hsock hrecv]
  · intro i t ht
    refine ⟨(hinv.texts i t ht).imp_right And.left, fun hroomy => ?_⟩
    have hlossless : Inv True s := inv_of_reach (fun _ _ _ he => he) hroomy
    exact (hlossless.texts i t ht).resolve_right fun hempty => hempty.2 trivial
  · intro p sock hp hsock
    apply List.eq_nil_iff_forall_not_mem.mpr
    intro m hm
    exact hp (hinv.queues p sock hsock m hm).1

/-- Another program has the port when process 1 wants it; then process 0 gets it. The answer to
the last message finds its queue full. -/
def busyRun : List Event :=
  [.otherBind userPort, .bind 1, .otherClose userPort, .bind 0, .otherSend [] true true,
    .sendto 0 true true true, .otherSend userMsg true false]

/-- The process has been answered, and prints an empty text. -/
theorem answered_users_print_busy : ∃ s, exchange.Reachable s ∧ s.user 0 = .waiting true ∧
    ∃ s', s.next (.recvfrom 0) = some s' ∧ s'.user 0 = .printed [] := by
  have hrun : ((exchange.run busyRun .idle).map fun s =>
      (s.user 0, (s.sockets userPort).map (·.skErr))) = some (.waiting true, some true) := by
    decide +kernel
  obtain ⟨s, hrun, hend⟩ := Option.map_eq_some_iff.mp hrun
  obtain ⟨hwaiting, herr⟩ := Prod.mk.inj hend
  have hreach : exchange.Reachable s := TSys.Reachable.run (.init rfl) hrun
  obtain ⟨sock, hsock, -, hiff, htext⟩ := (answered_users_print hreach).2.1 0 true hwaiting
  have hskErr : sock.skErr = true := by
    rw [hsock] at herr
    exact Option.some.inj herr
  obtain ⟨s', hs'⟩ := Option.isSome_iff_exists.mp (hiff.mpr (.inl hskErr))
  refine ⟨s, hreach, hwaiting, s', hs', ?_⟩
  rw [htext s' hs', if_pos hskErr]

/-! ## The kernel's log -/

/-- What other programs send is among `W`. -/
def Event.In (W : Set (List Byte)) : Event → Prop
  | .otherSend skb _ _ => skb ∈ W
  | _ => True

theorem said_eq_none {payload : List Byte} : said payload = none ↔ 0 ∉ payload := by
  rw [said]
  split
  · next h => exact iff_of_false (fun hn => nomatch hn) (not_not_intro (List.contains_iff_mem.mp h))
  · next h => exact iff_of_true rfl fun hmem => h (List.contains_iff_mem.mpr hmem)

theorem log_sendMsg (alloc room : Bool) (pbuf : List Byte) (s : State) :
    (s.sendMsg alloc room pbuf).2.log = s.log := by
  unfold State.sendMsg State.netlinkUnicast
  split
  · split
    · rfl
    · split
      · rfl
      · split <;> rfl
  · rfl

theorem log_rcvMsg (alloc room : Bool) (skb : List Byte) (s : State) :
    (s.rcvMsg alloc room skb).2.log = s.log ∨ nlmsgTotalSize 0 ≤ skb.length ∧
      (s.rcvMsg alloc room skb).2.log = s.log ++ [said (skb.drop nlmsgHdrlen)] := by
  unfold State.rcvMsg
  split
  · next hlen =>
      right
      exact ⟨hlen, log_sendMsg alloc room kmsg _⟩
  · exact .inl rfl

/-- Only messages get into the log. -/
theorem log_next {s s' : State} {e : Event} (hs : s.next e = some s') :
    s'.log = s.log ∨ ∃ skb, (skb = userMsg ∨ ∃ alloc room, e = .otherSend skb alloc room) ∧
      nlmsgTotalSize 0 ≤ skb.length ∧ s'.log = s.log ++ [said (skb.drop nlmsgHdrlen)] := by
  cases e with
  | bind i =>
      simp only [State.next, State.bind] at hs
      split at hs
      · split at hs <;> exact .inl (by obtain rfl := Option.some.inj hs; rfl)
      · cases hs
  | sendto i sent alloc room =>
      simp only [State.next, State.sendto] at hs
      split at hs
      · split at hs
        · obtain rfl := Option.some.inj hs
          rw [State.setUser_log]
          exact (log_rcvMsg alloc room userMsg s).imp id fun h => ⟨userMsg, .inl rfl, h⟩
        · exact .inl (by obtain rfl := Option.some.inj hs; rfl)
      · cases hs
  | recvfrom i =>
      simp only [State.next, State.recvfrom] at hs
      split at hs
      · obtain ⟨-, hs⟩ := Option.ite_none_right_eq_some.mp hs
        obtain ⟨out, -, rfl⟩ := Option.map_eq_some_iff.mp hs
        exact .inl rfl
      · cases hs
  | close i =>
      simp only [State.next, State.close] at hs
      split at hs
      · exact .inl (by obtain rfl := Option.some.inj hs; rfl)
      · cases hs
  | kill i =>
      simp only [State.next, State.kill] at hs
      split at hs
      case h_4 => cases hs
      all_goals exact .inl (by obtain rfl := Option.some.inj hs; rfl)
  | otherBind port =>
      simp only [State.next, State.otherBind] at hs
      split at hs
      · exact .inl (by obtain rfl := Option.some.inj hs; rfl)
      · cases hs
  | otherClose port =>
      simp only [State.next, State.otherClose] at hs
      split at hs
      · obtain ⟨-, hs⟩ := Option.ite_none_right_eq_some.mp hs
        exact .inl (by obtain rfl := Option.some.inj hs; rfl)
      · cases hs
  | otherRecv port =>
      simp only [State.next, State.otherRecv] at hs
      split at hs
      · obtain ⟨-, hs⟩ := Option.ite_none_right_eq_some.mp hs
        obtain ⟨out, -, rfl⟩ := Option.map_eq_some_iff.mp hs
        exact .inl rfl
      · cases hs
  | otherSend skb alloc room =>
      obtain rfl := Option.some.inj hs
      exact (log_rcvMsg alloc room skb s).imp id fun h => ⟨skb, .inr ⟨alloc, room, rfl⟩, h⟩

theorem said_userMsg : said (userMsg.drop nlmsgHdrlen) = some umsg := by
  decide +kernel

/-- If `W` is what other programs may send: the kernel's `printk` never reads behind a
message exactly if every message of `W` that is long enough to be answered has a NUL
behind its header. -/
theorem log_in_bounds_iff (W : Set (List Byte)) :
    (∀ s, exchange.Reach (fun _ e => e.In W) s → none ∉ s.log) ↔
      ∀ skb ∈ W, nlmsgTotalSize 0 ≤ skb.length → 0 ∈ skb.drop nlmsgHdrlen := by
  constructor
  · intro h skb hskb hlen
    by_contra hnul
    have hreach : exchange.Reach (fun _ e => e.In W) (State.idle.rcvMsg false false skb).2 :=
      .step (.otherSend skb false false) (.init rfl) hskb rfl
    apply h _ hreach
    rw [State.rcvMsg, if_pos hlen, log_sendMsg, State.printk, said_eq_none.mpr hnul]
    exact List.mem_append_right _ List.mem_cons_self
  · intro hW s hs
    refine TSys.Reach.invariant (I := fun s => none ∉ s.log) ?_ ?_ hs
    · rintro s rfl
      exact List.not_mem_nil
    · intro s e s' hlog he hnext hmem
      rcases log_next hnext with hsame | ⟨skb, hskb, hlen, hnew⟩
      · exact hlog (hsame ▸ hmem)
      · rw [hnew] at hmem
        rcases List.mem_append.mp hmem with hmem | hmem
        · exact hlog hmem
        · have hsaid := (List.mem_singleton.mp hmem).symm
          rcases hskb with rfl | ⟨alloc, room, rfl⟩
          · rw [said_userMsg] at hsaid
            cases hsaid
          · exact said_eq_none.mp hsaid (hW skb he hlen)

end Lkm.Netlink
