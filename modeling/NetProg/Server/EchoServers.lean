/-
# NetProg.Server.EchoServers -- `basic_udp_server.c`, `unix_dgram_server.c`, `unix_stream_server.c`.

Three loops over one receive buffer and one send buffer of 256 bytes, which both are cleared at the start of
a round: receive, format the reply with `sprintf`, send it.  They differ in the call that receives, in the
text before `%s`, in what is printed, and in which errors end the loop.  The receive calls may fill the
whole buffer.

`sprintf` is undefined when no NUL ends its argument in the receive buffer, and when the reply with its NUL
does not fit into the send buffer.  A run of a server is undefined exactly when a message was received that
holds too many bytes before its first NUL (`Serves.isUndef_iff`).
-/
import NetProg.Base.CString
import NetProg.Base.Loop
import NetProg.Server.SelectServer

namespace NetProg.EchoServer

open SelectServer (cstr)

/-- `#define BUF_SIZE 256`, in each of the files. -/
def bufSize : ℕ := 256

/-- What the receive call returns: `-1`, with `errno` equal to EINTR or not, or the bytes stored. -/
inductive RecvAnswer where
  | error (eintr : Bool)
  | data (bs : List UInt8)
  deriving DecidableEq, Repr

/-- What the send call returns. -/
inductive SendAnswer where
  | sent
  | error (eintr : Bool)
  deriving DecidableEq, Repr

/-- The kernel's answers in one round. -/
structure Answers where
  recv : RecvAnswer
  send : SendAnswer
  deriving DecidableEq, Repr

/-- At most `sizeof (recv_msg)` bytes are stored. -/
def RecvAnswer.Admits : RecvAnswer → Prop
  | error _ => True
  | data bs => bs.length ≤ bufSize

instance : (r : RecvAnswer) → Decidable r.Admits
  | .error _ => inferInstanceAs (Decidable True)
  | .data bs => inferInstanceAs (Decidable (bs.length ≤ bufSize))

/-- The buffers, and the messages received and sent so far. -/
structure Echo where
  recvMsg : Vector UInt8 bufSize
  sendMsg : Vector UInt8 bufSize
  received : List (List UInt8)
  sent : List (List UInt8)

namespace Echo

def start : Echo where
  recvMsg := cleared bufSize
  sendMsg := cleared bufSize
  received := []
  sent := []

/-- `bzero (recv_msg, sizeof (recv_msg)); bzero (send_msg, sizeof (send_msg));`. -/
def clear (s : Echo) : Echo := { s with recvMsg := cleared bufSize, sendMsg := cleared bufSize }

/-- The receive call stores `bs`. -/
def receive (s : Echo) (bs : List UInt8) : Echo :=
  { s with recvMsg := store s.recvMsg 0 bs, received := s.received ++ [bs] }

/-- `printf ("... %s ...", recv_msg)`. -/
def print (s : Echo) : Flow Echo :=
  if (cString s.recvMsg.toList).isSome then .next s else .undef s

/-- `sprintf (send_msg, "<pre>%s", recv_msg)`. -/
def format (pre : List UInt8) (s : Echo) : Flow Echo :=
  match sprintfS pre s.sendMsg s.recvMsg.toList with
  | some sendMsg => .next { s with sendMsg := sendMsg }
  | none => .undef s

/-- The first `strlen (send_msg)` bytes are sent. -/
def send (s : Echo) : Flow Echo :=
  match cString s.sendMsg.toList with
  | some text => .next { s with sent := s.sent ++ [text] }
  | none => .undef s

end Echo

/-- The text before `%s` in the two datagram servers. -/
def echoBack : List UInt8 := cstr "ECHO BACK : "

/-- The text before `%s` in `unix_stream_server.c`. -/
def response : List UInt8 := cstr "[response] "

/-! ## The servers -/

/-- One round of `dg_echo` in `basic_udp_server.c`. -/
def BasicUdp.dgEcho (s : Echo) (a : Answers) : Flow Echo :=
  match a.recv with
  | .error _ => .exit "recvfrom" s.clear
  -- what `sendto` returns is not looked at
  | .data bs => ((s.clear.receive bs).print.andThen (Echo.format echoBack)).andThen Echo.send

/-- One round of `dg_echo` in `unix_dgram_server.c`. -/
def UnixDgram.dgEcho (s : Echo) (a : Answers) : Flow Echo :=
  match a.recv with
  | .error true => .again s.clear
  | .error false => .exit "recvfrom" s.clear
  | .data bs =>
    (((s.clear.receive bs).format echoBack).andThen Echo.send).andThen fun s =>
      match a.send with
      | .sent => .next s
      | .error true => .again s
      | .error false => .exit "sendto" s

/-- One round of `str_echo` in `unix_stream_server.c`; at the end of the stream it goes on with `n = 0`. -/
def UnixStream.strEcho (s : Echo) (a : Answers) : Flow Echo :=
  match a.recv with
  | .error true => .again s.clear
  | .error false => .exit "read" s.clear
  | .data bs =>
    (((s.clear.receive bs).format response).andThen Echo.send).andThen fun s =>
      match a.send with
      | .sent => .next s
      | .error _ => .exit "write" s

/-- A round for ever. -/
def server (round : Echo → Answers → Flow Echo) : System (Flow Echo) Answers :=
  whileLoop round (fun _ a => a.recv.Admits) Echo.start

/-! ## One message -/

/-- The argument of `sprintf` ends with a NUL in the receive buffer, and the reply with its NUL fits into the
send buffer. -/
def Formats (pre bs : List UInt8) : Prop :=
  ∃ t, cString (store (cleared bufSize) 0 bs).toList = some t ∧ (pre ++ t).length + 1 ≤ bufSize

/-- **Only the bytes before the first NUL count.** -/
theorem formats_iff {pre bs : List UInt8} (hpre : pre.length < bufSize) (hbs : bs.length ≤ bufSize) :
    Formats pre bs ↔ (untilNul bs).length ≤ bufSize - 1 - pre.length := by
  unfold Formats
  rw [cString_store_cleared hbs]
  constructor
  · rintro ⟨t, ht, hfit⟩
    split_ifs at ht
    cases ht
    rw [List.length_append] at hfit
    omega
  · intro hle
    refine ⟨untilNul bs, if_pos (by omega), ?_⟩
    rw [List.length_append]
    omega

section Round

variable {pre bs t : List UInt8} {s : Echo}

theorem Echo.print_next (ht : cString s.recvMsg.toList = some t) : s.print = .next s := by
  have hsome : (cString s.recvMsg.toList).isSome = true := Option.isSome_iff_exists.mpr ⟨t, ht⟩
  exact if_pos hsome

theorem Echo.print_undef (ht : cString s.recvMsg.toList = none) : s.print = .undef s := by
  have hnone : ¬ (cString s.recvMsg.toList).isSome = true := by simp [ht]
  exact if_neg hnone

/-- A reply that fits is sent as it was formatted. -/
theorem Echo.format_send (hpre : (0 : UInt8) ∉ pre) (ht : cString s.recvMsg.toList = some t)
    (hfit : (pre ++ t).length + 1 ≤ bufSize) : (s.format pre).andThen Echo.send =
      .next { s with
        sendMsg := store s.sendMsg 0 (pre ++ t ++ [0]), sent := s.sent ++ [pre ++ t] } := by
  have hformat : sprintfS pre s.sendMsg s.recvMsg.toList = some (store s.sendMsg 0 (pre ++ t ++ [0])) :=
    sprintfS_eq_some_iff.mpr ⟨t, ht, hfit, rfl⟩
  obtain ⟨t', ht', htext⟩ := cString_sprintfS hpre hformat
  rw [ht, Option.some.injEq] at ht'
  subst ht'
  simp only [Echo.format, hformat, Flow.andThen_next, Echo.send, htext]

theorem Echo.format_undef
    (h : ∀ t, cString s.recvMsg.toList = some t → bufSize < (pre ++ t).length + 1) :
    s.format pre = .undef s := by
  have hnone : sprintfS pre s.sendMsg s.recvMsg.toList = none := sprintfS_eq_none_iff.mpr h
  simp only [Echo.format, hnone]

/-- A message that formats is answered with `pre` and the bytes before its NUL. -/
theorem format_of_formats (hpre : (0 : UInt8) ∉ pre) (h : Formats pre bs) :
    ∃ t s', cString (s.clear.receive bs).recvMsg.toList = some t ∧
      ((s.clear.receive bs).format pre).andThen Echo.send = .next s' ∧
      s'.received = s.received ++ [bs] ∧ s'.sent = s.sent ++ [pre ++ t] := by
  obtain ⟨t, ht, hfit⟩ := h
  refine ⟨t, _, ht, Echo.format_send hpre ht hfit, ?_, ?_⟩
  · simp only [Echo.receive, Echo.clear]
  · simp only [Echo.receive, Echo.clear]

/-- One that does not has no defined answer. -/
theorem format_of_not_formats (h : ¬ Formats pre bs) :
    ((s.clear.receive bs).format pre).andThen Echo.send = .undef (s.clear.receive bs) := by
  rw [Echo.format_undef, Flow.andThen_undef]
  intro t ht
  by_contra hfit
  exact h ⟨t, ht, Nat.le_of_not_lt hfit⟩

end Round

/-- What a round does as far as its messages go: an error is no message; a message is logged, and its round is
defined if it formats. -/
structure Serves (pre : List UInt8) (round : Echo → Answers → Flow Echo) : Prop where
  error : ∀ s eintr snd, (round s ⟨.error eintr, snd⟩).state.received = s.received ∧
    (round s ⟨.error eintr, snd⟩).isUndef = false
  data : ∀ s bs snd, (round s ⟨.data bs, snd⟩).state.received = s.received ++ [bs] ∧
    ((round s ⟨.data bs, snd⟩).isUndef = false ↔ Formats pre bs)

theorem BasicUdp.serves : Serves echoBack BasicUdp.dgEcho where
  error := fun s eintr snd => ⟨rfl, rfl⟩
  data := by
    intro s bs snd
    by_cases h : Formats echoBack bs
    · obtain ⟨t, s', ht, hround, hreceived, -⟩ := format_of_formats (s := s) (by decide) h
      simp only [dgEcho, Echo.print_next ht, Flow.andThen_next, hround]
      exact ⟨hreceived, iff_of_true rfl h⟩
    · have hround := format_of_not_formats (s := s) h
      simp only [dgEcho]
      cases ht : cString (s.clear.receive bs).recvMsg.toList with
      | some t =>
        rw [Echo.print_next ht, Flow.andThen_next, hround]
        exact ⟨rfl, iff_of_false Bool.noConfusion h⟩
      | none =>
        rw [Echo.print_undef ht, Flow.andThen_undef, Flow.andThen_undef]
        exact ⟨rfl, iff_of_false Bool.noConfusion h⟩

theorem UnixDgram.serves : Serves echoBack UnixDgram.dgEcho where
  error := fun s eintr snd => by cases eintr <;> exact ⟨rfl, rfl⟩
  data := by
    intro s bs snd
    by_cases h : Formats echoBack bs
    · obtain ⟨t, s', -, hround, hreceived, -⟩ := format_of_formats (s := s) (by decide) h
      simp only [dgEcho, hround, Flow.andThen_next]
      rcases snd with _ | (_ | _) <;> exact ⟨hreceived, iff_of_true rfl h⟩
    · have hround := format_of_not_formats (s := s) h
      simp only [dgEcho, hround, Flow.andThen_undef]
      exact ⟨rfl, iff_of_false Bool.noConfusion h⟩

theorem UnixStream.serves : Serves response UnixStream.strEcho where
  error := fun s eintr snd => by cases eintr <;> exact ⟨rfl, rfl⟩
  data := by
    intro s bs snd
    by_cases h : Formats response bs
    · obtain ⟨t, s', -, hround, hreceived, -⟩ := format_of_formats (s := s) (by decide) h
      simp only [strEcho, hround, Flow.andThen_next]
      rcases snd with _ | (_ | _) <;> exact ⟨hreceived, iff_of_true rfl h⟩
    · have hround := format_of_not_formats (s := s) h
      simp only [strEcho, hround, Flow.andThen_undef]
      exact ⟨rfl, iff_of_false Bool.noConfusion h⟩

/-! ## Every run -/

section Runs

variable {pre : List UInt8} {round : Echo → Answers → Flow Echo}

/-- Every message that was received could be received. -/
theorem Serves.admitted (h : Serves pre round) {f : Flow Echo} (hf : (server round).Reachable f) :
    ∀ bs ∈ f.state.received, bs.length ≤ bufSize := by
  refine whileLoop_invariant (I := fun s => ∀ bs ∈ s.received, bs.length ≤ bufSize) ?_ ?_ hf
  · intro bs hbs
    cases hbs
  · rintro s ⟨recv, snd⟩ - ih hadmits bs hbs
    cases recv with
    | error eintr =>
      rw [(h.error s eintr snd).1] at hbs
      exact ih bs hbs
    | data bs' =>
      rw [(h.data s bs' snd).1, List.mem_append, List.mem_singleton] at hbs
      rcases hbs with hbs | rfl
      · exact ih bs hbs
      · exact hadmits

/-- **A run is defined exactly when every message in it formats.** -/
theorem Serves.isUndef_iff (h : Serves pre round) {f : Flow Echo} (hf : (server round).Reachable f) :
    f.isUndef = false ↔ ∀ bs ∈ f.state.received, Formats pre bs := by
  refine (server round).invariant
    (P := fun f => f.isUndef = false ↔ ∀ bs ∈ f.state.received, Formats pre bs) ?_ ?_ hf
  · exact iff_of_true rfl fun bs hbs => by cases hbs
  · intro f a f' _ ih hstep
    obtain ⟨s, rfl, -, rfl⟩ := whileLoop_step.mp hstep
    obtain ⟨recv, snd⟩ := a
    -- the round started at a loop head, so all messages before it format
    have hbefore : ∀ bs ∈ s.received, Formats pre bs := ih.mp rfl
    rw [Flow.isUndef_loopBack, Flow.state_loopBack]
    cases recv with
    | error eintr =>
      obtain ⟨hreceived, hundef⟩ := h.error s eintr snd
      rw [hreceived]
      exact iff_of_true hundef hbefore
    | data bs =>
      obtain ⟨hreceived, hundef⟩ := h.data s bs snd
      rw [hundef, hreceived, List.forall_mem_append, List.forall_mem_singleton]
      exact ⟨fun hbs => ⟨hbefore, hbs⟩, And.right⟩

/-- The same, as a bound on the bytes before the first NUL. -/
theorem Serves.isUndef_iff_length (h : Serves pre round) (hpre : pre.length < bufSize) {f : Flow Echo}
    (hf : (server round).Reachable f) : f.isUndef = false ↔
      ∀ bs ∈ f.state.received, (untilNul bs).length ≤ bufSize - 1 - pre.length := by
  rw [h.isUndef_iff hf]
  exact forall₂_congr fun bs hbs => formats_iff hpre (h.admitted hf bs hbs)

end Runs

end NetProg.EchoServer
