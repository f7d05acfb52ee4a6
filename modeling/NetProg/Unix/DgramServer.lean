/-
# NetProg.Unix.DgramServer -- to whom `dg_echo` of `C/unix_dgram_server.c` sends its replies.

`clilen` is the size of `cliaddr` when the loop starts, and is never set again: `recvfrom` copies at most that
many bytes of the sender's address, and leaves the address's own length there, for `sendto` and for the next
`recvfrom`.  Behind a short address a longer one is cut off, and `sendto` gets the length of all of it, with
what earlier senders left in `cliaddr` behind the cut.  A reply reaches its sender exactly when that happens
to be the rest of the address (`server_replyLaws`).

The round is that of `UnixDgram.dgEcho` with the address beside it (`dgEcho_echo`).
-/
import NetProg.Base.History
import NetProg.Server.EchoServers

namespace NetProg.UnixDgramServer

open EchoServer (Echo Formats RecvAnswer SendAnswer echoBack)

/-- `sizeof (struct sockaddr_un)`. -/
def addrSize : ℕ := 110

/-- The kernel's answers in one round, with the address of the sender. -/
structure Answers where
  recv : RecvAnswer
  addr : List UInt8
  send : SendAnswer
  deriving DecidableEq, Repr

/-- Every address fits into a `struct sockaddr_un`. -/
def Answers.Admits (a : Answers) : Prop := a.recv.Admits ∧ a.addr.length ≤ addrSize

instance (a : Answers) : Decidable a.Admits := inferInstanceAs (Decidable (_ ∧ _))

/-- A reply: who sent the datagram, and the address given to `sendto`. -/
structure Reply where
  sender : List UInt8
  destination : List UInt8
  deriving DecidableEq, Repr

/-- The locals of `dg_echo`, and the replies sent so far. -/
structure Server where
  echo : Echo
  cliaddr : Vector UInt8 addrSize
  clilen : ℕ
  replies : List Reply

namespace Server

/-- `dg_echo (sockfd, &cliaddr, sizeof(cliaddr))`; `main` does not initialise `cliaddr`. -/
def start (cliaddr : Vector UInt8 addrSize) : Server := ⟨Echo.start, cliaddr, addrSize, []⟩

def clear (s : Server) : Server := { s with echo := s.echo.clear }

/-- `recvfrom (sockfd, recv_msg, sizeof(recv_msg), 0, pcliaddr, &clilen)`. -/
def receive (s : Server) (bs addr : List UInt8) : Server where
  echo := s.echo.receive bs
  cliaddr := store s.cliaddr 0 (addr.take s.clilen)
  clilen := addr.length
  replies := s.replies

/-- What the buffers do; the address stays as it is. -/
def lift (s : Server) (f : Flow Echo) : Flow Server := f.map fun echo => { s with echo := echo }

def format (s : Server) : Flow Server := s.lift (s.echo.format echoBack)

/-- `cliaddr`, as far as `clilen` goes, is the destination. -/
def logReply (sender : List UInt8) (s : Server) : Server :=
  { s with replies := s.replies ++ [⟨sender, window s.cliaddr 0 s.clilen⟩] }

/-- `sendto (sockfd, send_msg, strlen(send_msg), 0, pcliaddr, clilen)`. -/
def send (sender : List UInt8) (s : Server) : Flow Server :=
  (s.lift s.echo.send).andThen fun s => .next (s.logReply sender)

/-- One round of `dg_echo`. -/
def dgEcho (s : Server) (a : Answers) : Flow Server :=
  match a.recv with
  | .error true => .again s.clear
  | .error false => .exit "recvfrom" s.clear
  | .data bs =>
    ((s.clear.receive bs a.addr).format.andThen (Server.send a.addr)).andThen fun s =>
      match a.send with
      | .sent => .next s
      | .error true => .again s
      | .error false => .exit "sendto" s

end Server

/-- The server, with what was in `cliaddr` before, and what a run shows of each round: the state it starts
from, and the kernel's answers. -/
def server (cliaddr : Vector UInt8 addrSize) : System (Flow Server × List (Server × Answers)) Answers :=
  (whileLoop Server.dgEcho (fun _ a => a.Admits) (Server.start cliaddr)).observe fun f a => [(f.state, a)]

/-- The addresses that the datagrams of a run came from. -/
def senders (ps : List (Server × Answers)) : List (List UInt8) :=
  ps.filterMap fun p => match p.2.recv with
    | .data _ => some p.2.addr
    | .error _ => none

/-! ## The law -/

/-- A datagram came whose reply fits into `send_msg`. -/
def Answers.Answered (a : Answers) : Prop := ∃ bs, a.recv = .data bs ∧ Formats echoBack bs

/-- The bytes of `cliaddr` behind the length given to `recvfrom` are the rest of the address. -/
def Server.Kept (s : Server) (addr : List UInt8) : Prop :=
  addr.drop s.clilen <+: s.cliaddr.toList.drop s.clilen

instance (s : Server) (addr : List UInt8) : Decidable (s.Kept addr) :=
  inferInstanceAs (Decidable (_ <+: _))

/-- The reply went to the address that the datagram came from. -/
def Reply.ToSender (r : Reply) : Prop := r.destination = r.sender

instance (r : Reply) : Decidable r.ToSender := inferInstanceAs (Decidable (_ = _))

/-! ## One round -/

section Round

variable {s : Server} {a : Answers}

@[simp] theorem lift_next (s : Server) (e : Echo) : s.lift (.next e) = .next { s with echo := e } := rfl

@[simp] theorem lift_undef (s : Server) (e : Echo) : s.lift (.undef e) = .undef { s with echo := e } := rfl

@[simp] theorem receive_replies (s : Server) (bs addr : List UInt8) :
    (s.clear.receive bs addr).replies = s.replies := by
  simp only [Server.receive, Server.clear]

/-- Formatting and sending, at once. -/
theorem format_send (s : Server) (sender : List UInt8) : s.format.andThen (Server.send sender) =
    (s.lift ((s.echo.format echoBack).andThen Echo.send)).andThen fun s => .next (s.logReply sender) := by
  unfold Server.format
  cases s.echo.format echoBack with
  | next e => rfl
  | again e | ret e | exit msg e | undef e => rfl

/-- **Without the address it is the round of the echo server.** -/
theorem dgEcho_echo (s : Server) (a : Answers) :
    (s.dgEcho a).map Server.echo = EchoServer.UnixDgram.dgEcho s.echo ⟨a.recv, a.send⟩ := by
  obtain ⟨recv, addr, snd⟩ := a
  cases recv with
  | error eintr => cases eintr <;> rfl
  | data bs =>
    simp only [Server.dgEcho, EchoServer.UnixDgram.dgEcho, format_send]
    show _ = (((s.clear.receive bs addr).echo.format echoBack).andThen Echo.send).andThen _
    cases ((s.clear.receive bs addr).echo.format echoBack).andThen Echo.send with
    | next e => rcases snd with _ | (_ | _) <;> rfl
    | again e | ret e | exit msg e | undef e => rfl

/-- A datagram whose reply fits is answered, to what is in `cliaddr` then. -/
theorem dgEcho_answered (ha : a.Answered) : (s.dgEcho a).state.replies = s.replies ++
    [⟨a.addr, window (store s.cliaddr 0 (a.addr.take s.clilen)) 0 a.addr.length⟩] := by
  obtain ⟨recv, addr, snd⟩ := a
  obtain ⟨bs, rfl, hformats⟩ := ha
  obtain ⟨t, e, -, hround, -, -⟩ := EchoServer.format_of_formats (s := s.echo) (by decide) hformats
  have hecho : ((s.clear.receive bs addr).echo.format echoBack).andThen Echo.send = .next e := hround
  simp only [Server.dgEcho, format_send, hecho, lift_next, Flow.andThen_next]
  rcases snd with _ | (_ | _) <;>
    simp only [Flow.state, Server.logReply, Server.receive, Server.clear]

/-- Nothing else is. -/
theorem dgEcho_not_answered (ha : ¬ a.Answered) : (s.dgEcho a).state.replies = s.replies := by
  obtain ⟨recv, addr, snd⟩ := a
  cases recv with
  | error eintr => cases eintr <;> rfl
  | data bs =>
    have hnot : ¬ Formats echoBack bs := fun hformats => ha ⟨bs, rfl, hformats⟩
    have hecho : ((s.clear.receive bs addr).echo.format echoBack).andThen Echo.send =
        .undef (s.clear.receive bs addr).echo := EchoServer.format_of_not_formats hnot
    simp only [Server.dgEcho, format_send, hecho, lift_undef, Flow.andThen_undef, Flow.state, receive_replies]

/-- `clilen` is the length of the address that a datagram came from, and else what it was. -/
theorem dgEcho_clilen : (s.dgEcho a).state.clilen =
    match a.recv with
    | .data _ => a.addr.length
    | .error _ => s.clilen := by
  obtain ⟨recv, addr, snd⟩ := a
  cases recv with
  | error eintr => cases eintr <;> rfl
  | data bs =>
    simp only [Server.dgEcho, format_send]
    cases ((s.clear.receive bs addr).echo.format echoBack).andThen Echo.send with
    | next e => rcases snd with _ | (_ | _) <;> rfl
    | again e | ret e | exit msg e | undef e => rfl

/-- **One reply reaches its sender exactly when the bytes behind the cut are right.** -/
theorem dgEcho_toSender_iff (hadmits : a.Admits) : (∀ r ∈ (s.dgEcho a).state.replies, r.ToSender) ↔
    (∀ r ∈ s.replies, r.ToSender) ∧ (a.Answered → s.Kept a.addr) := by
  by_cases ha : a.Answered
  · rw [dgEcho_answered ha, List.forall_mem_append, List.forall_mem_singleton, forall_prop_of_true ha]
    exact and_congr_right fun _ => window_store_take_eq_iff s.cliaddr hadmits.2 s.clilen
  · rw [dgEcho_not_answered ha, forall_prop_of_false ha, and_true]

end Round

/-! ## Every run -/

/-- What holds of a run: the replies reach their senders if and only if the addresses were kept, and `clilen`
is the length of the last sender's address. -/
structure ReplyLaws (f : Flow Server) (ps : List (Server × Answers)) : Prop where
  toSender_iff : (∀ r ∈ f.state.replies, r.ToSender) ↔ ∀ p ∈ ps, p.2.Answered → p.1.Kept p.2.addr
  clilen : f.state.clilen = ((senders ps).getLast?.map List.length).getD addrSize

/-- **When `unix_dgram_server` answers the sender.** -/
theorem server_replyLaws (cliaddr : Vector UInt8 addrSize) {f : Flow Server} {ps : List (Server × Answers)}
    (hf : (server cliaddr).Reachable (f, ps)) : ReplyLaws f ps := by
  refine whileLoop_observe_invariant (P := ReplyLaws) ⟨?_, rfl⟩ ?_ hf
  · exact iff_of_true (fun r hr => absurd hr List.not_mem_nil) fun p hp => absurd hp List.not_mem_nil
  · intro s ps a _ h hadmits
    constructor
    · rw [Flow.state_loopBack, dgEcho_toSender_iff hadmits, List.forall_mem_append,
        List.forall_mem_singleton]
      exact and_congr_left' h.toSender_iff
    · have hclilen := h.clilen
      rw [Flow.state_loopBack, dgEcho_clilen, senders, List.filterMap_append]
      cases hrecv : a.recv with
      | error eintr =>
        rw [List.filterMap_cons_none (by rw [hrecv]), List.filterMap_nil, List.append_nil]
        exact hclilen
      | data bs =>
        rw [List.filterMap_cons_some (b := a.addr) (by rw [hrecv]), List.filterMap_nil, List.getLast?_concat]
        rfl

/-- "hi" comes from `addr`, and is answered. -/
def hiFrom (addr : List UInt8) : Answers := ⟨.data [104, 105], addr, .sent⟩

/-- The second address is the shorter one. -/
theorem server_replyLaws_shorter : ∃ f ps, (server (cleared addrSize)).Reachable (f, ps) ∧
    f.state.replies.length = 2 ∧ ∀ r ∈ f.state.replies, r.ToSender := by
  obtain ⟨⟨f, ps⟩, hf, hrun⟩ := (server (cleared addrSize)).exists_reachable_of_run
    [hiFrom [1, 0, 97, 97], hiFrom [1, 0, 98]]
    (fun q => q.1.state.replies.length == 2 && q.2.all fun p => decide (p.1.Kept p.2.addr))
    (by decide +kernel)
  simp only [Bool.and_eq_true, beq_iff_eq, List.all_eq_true, decide_eq_true_eq] at hrun
  obtain ⟨hlen, hkept⟩ := hrun
  exact ⟨f, ps, hf, hlen, (server_replyLaws _ hf).toSender_iff.mpr fun p hp _ => hkept p hp⟩

/-- The second address is the longer one: its reply goes elsewhere. -/
theorem server_misdirects : ∃ f ps, (server (cleared addrSize)).Reachable (f, ps) ∧
    ⟨[1, 0, 98, 98], [1, 0, 98, 0]⟩ ∈ f.state.replies ∧ ¬ ∀ r ∈ f.state.replies, r.ToSender := by
  obtain ⟨⟨f, ps⟩, hf, hrun⟩ := (server (cleared addrSize)).exists_reachable_of_run
    [hiFrom [1, 0, 97], hiFrom [1, 0, 98, 98]]
    (fun q => decide (⟨[1, 0, 98, 98], [1, 0, 98, 0]⟩ ∈ q.1.state.replies)) (by decide +kernel)
  have hmem := of_decide_eq_true hrun
  exact ⟨f, ps, hf, hmem, fun hall => absurd (hall _ hmem) (by decide)⟩

end NetProg.UnixDgramServer
