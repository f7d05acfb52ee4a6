/-
# NetProg.Relay.ForkEnds -- how `fork_str_cli` of `C/nonblock_stream_client.c` ends against `str_echo` of
`C/basic_tcp_server.c`.

The parent and the child of `fork_str_cli` are those of `NetProg.Relay.ForkStrCli`.  The server reads what the
parent wrote and writes it back, and closes at the end of the client's stream, which only the `shutdown` of the
parent brings about: the child keeps the socket open.  No call fails, and none is interrupted.  Left out is that
the child's `fputs` runs over the end of a `recvline` without a NUL (`NetProg.Relay.ChildOutput`): here it writes
the chunk and comes back.

Every run comes to a state in which nothing happens any more, and there are three kinds (`forkStrCli_ends`).  If
nothing was sent, nobody signals the parent, and it stays in `pause`.  Otherwise the first data that the child
reads costs the parent its life.  Behind the `shutdown` that is harmless, and all was echoed and read; before
it, the child and the server wait for each other for ever.
-/
import NetProg.Base.Progress
import NetProg.Echo.BasicTcp
import NetProg.Relay.ForkStrCli

namespace NetProg.ForkStrCli

open BasicTcp (MayRead bufLen)
open Relay (maxSize)

/-! ## The three processes -/

/-- The two processes of the client; what they wrote and the server did not read; the server's `buf`; and what the
child has read. -/
structure Duo where
  client : Session
  toServer : List UInt8
  buf : List UInt8
  got : List UInt8
  deriving DecidableEq, Repr

/-- A call of the client's processes, or the signal; `read` and `write` of the server; the end of its stream, and
`close`. -/
inductive Act where
  | client (e : Ev)
  | serverRead (n : ℕ)
  | serverWrite
  | serverClose
  deriving DecidableEq, Repr

/-- The events of the client here: no call fails, and the server has its own steps. -/
def Ev.ofClient : Ev → Bool
  | fgets | write | shutdown | sigterm | read _ | eof | kill | fputs => true
  | sigpipe | eintr | readFails | serverSend _ | serverClose => false

namespace Duo

def start (text : List UInt8) : Duo := ⟨.start text, [], [], []⟩

/-- The client has gone on to `c`; what it wrote is on its way, and what it took has been read. -/
def call (d : Duo) (c : Session) : Duo :=
  { d with
    client := c
    toServer := d.toServer ++ c.written.drop d.client.written.length
    got := d.got ++ d.client.arrived.take (d.client.arrived.length - c.arrived.length) }

/-- The server's `read(sockfd, buf, sizeof(buf) - 1)`. -/
def serverRead (d : Duo) (n : ℕ) : Duo := { d with buf := d.toServer.take n, toServer := d.toServer.drop n }

/-- The server's `write(sockfd, buf, nread)`. -/
def serverWrite (d : Duo) : Duo :=
  { d with client := { d.client with arrived := d.client.arrived ++ d.buf }, buf := [] }

/-- The server's `close(sockfd)`. -/
def serverClose (d : Duo) : Duo := { d with client := { d.client with closed := true } }

def step (d : Duo) : Act → Option Duo
  | .client e => if e.ofClient then (d.client.step e).map d.call else none
  | .serverRead n => if d.buf = [] ∧ MayRead d.toServer n then some (d.serverRead n) else none
  | .serverWrite => if d.buf ≠ [] then some d.serverWrite else none
  | .serverClose =>
    if d.client.shut = true ∧ d.toServer = [] ∧ d.buf = [] ∧ d.client.closed = false then some d.serverClose
    else none

end Duo

/-- `fork_str_cli`, given `text` as stdin, and its server. -/
def duo (text : List UInt8) : System Duo Act := ⟨.start text, Duo.step⟩

/-- What the parent sends of a text if it is left alone: `strlen (sendline)` bytes of each line. -/
def sentText (text : List UInt8) : List UInt8 := (pieces (maxSize - 1) text).flatMap untilNul

/-! ## The ends -/

/-- Nobody will ever signal the parent. -/
def Paused (d : Duo) : Prop := d.client.parent = .pause ∧ d.client.pending = false ∧ d.client.child = .success

/-- Both processes have ended, and everything was sent, echoed and read. -/
def Done (text : List UInt8) (d : Duo) : Prop :=
  d.client.parent = .sigterm ∧ d.client.child = .success ∧ d.got = sentText text

/-- The parent was terminated before the `shutdown`; the child and the server wait for each other. -/
def Hung (d : Duo) : Prop :=
  d.client.parent = .sigterm ∧ d.client.shut = false ∧ d.client.child = .read ∧
    d.client.arrived = [] ∧ d.buf = [] ∧ d.toServer = []

def End (text : List UInt8) (d : Duo) : Prop := Paused d ∨ Done text d ∨ Hung d

/-! ## One step -/

/-- What can happen. -/
inductive Duo.Step (d : Duo) : Duo → Prop where
  | fgets (hpc : d.client.parent = .fgets) : Step d { d with client := d.client.getLine }
  | write {line : List UInt8} (hpc : d.client.parent = .write line) :
    Step d { d with client := d.client.writeLine line, toServer := d.toServer ++ untilNul line }
  | shutdown (hpc : d.client.parent = .shutdown) :
    Step d { d with client := { d.client with parent := .pause, shut := true } }
  | sigterm (hpending : d.client.pending = true) (halive : d.client.parent.alive = true) :
    Step d { d with client := { d.client with parent := .sigterm } }
  | read {n : ℕ} (hpc : d.client.child = .read) (hpos : 0 < n) (hmax : n ≤ maxSize)
      (hle : n ≤ d.client.arrived.length) :
    Step d { d with
      client := { d.client with child := .kill, arrived := d.client.arrived.drop n }
      got := d.got ++ d.client.arrived.take n }
  | eof (hpc : d.client.child = .read) (harrived : d.client.arrived = []) (hclosed : d.client.closed = true) :
    Step d { d with client := { d.client with child := .success } }
  | kill (hpc : d.client.child = .kill) : Step d { d with client := d.client.killParent }
  | fputs (hpc : d.client.child = .fputs) : Step d { d with client := { d.client with child := .read } }
  | serverRead {n : ℕ} (hbuf : d.buf = []) (hread : MayRead d.toServer n) : Step d (d.serverRead n)
  | serverWrite (hbuf : d.buf ≠ []) : Step d d.serverWrite
  | serverClose (hshut : d.client.shut = true) (hserver : d.toServer = []) (hbuf : d.buf = [])
    (hopen : d.client.closed = false) : Step d d.serverClose

section Step

variable {text : List UInt8} {d d' : Duo}

/-- A call that neither writes nor reads. -/
theorem call_eq (d : Duo) (c : Session) (hwritten : c.written = d.client.written)
    (harrived : c.arrived = d.client.arrived) : d.call c = { d with client := c } := by
  simp [Duo.call, hwritten, harrived]

theorem call_getLine (d : Duo) : d.call d.client.getLine = { d with client := d.client.getLine } := by
  apply call_eq <;>
  · unfold Session.getLine
    split <;> rfl

theorem call_writeLine (d : Duo) (line : List UInt8) : d.call (d.client.writeLine line) =
    { d with client := d.client.writeLine line, toServer := d.toServer ++ untilNul line } := by
  simp [Duo.call, Session.writeLine]

theorem call_read (d : Duo) {n : ℕ} (hle : n ≤ d.client.arrived.length) :
    d.call { d.client with child := .kill, arrived := d.client.arrived.drop n } =
      { d with
        client := { d.client with child := .kill, arrived := d.client.arrived.drop n }
        got := d.got ++ d.client.arrived.take n } := by
  simp [Duo.call, Nat.sub_sub_self hle]

/-- **What a step can do.** -/
theorem Duo.Step.of_step {a : Act} (hstep : (duo text).step d a = some d') : d.Step d' := by
  cases a with
  | client e =>
    simp only [duo, Duo.step] at hstep
    split_ifs at hstep with hof
    obtain ⟨c, hc, rfl⟩ := Option.map_eq_some_iff.mp hstep
    cases e with
    | fgets =>
      obtain ⟨hpc, rfl⟩ := Option.ite_some_none_eq_some.mp hc
      rw [call_getLine]
      exact .fgets hpc
    | write =>
      simp only [Session.step] at hc
      split at hc
      · next line hpc =>
        cases hc
        rw [call_writeLine]
        exact .write hpc
      · cases hc
    | shutdown =>
      obtain ⟨hpc, rfl⟩ := Option.ite_some_none_eq_some.mp hc
      rw [call_eq d { d.client with parent := .pause, shut := true } rfl rfl]
      exact .shutdown hpc
    | sigterm =>
      obtain ⟨⟨hpending, halive⟩, rfl⟩ := Option.ite_some_none_eq_some.mp hc
      rw [call_eq d { d.client with parent := .sigterm } rfl rfl]
      exact .sigterm hpending halive
    | read n =>
      obtain ⟨⟨hpc, hpos, hmax, hle⟩, rfl⟩ := Option.ite_some_none_eq_some.mp hc
      rw [call_read d hle]
      exact .read hpc hpos hmax hle
    | eof =>
      obtain ⟨⟨hpc, harrived, hclosed⟩, rfl⟩ := Option.ite_some_none_eq_some.mp hc
      rw [call_eq d { d.client with child := .success } rfl rfl]
      exact .eof hpc harrived hclosed
    | kill =>
      obtain ⟨hpc, rfl⟩ := Option.ite_some_none_eq_some.mp hc
      rw [call_eq d d.client.killParent rfl rfl]
      exact .kill hpc
    | fputs =>
      obtain ⟨hpc, rfl⟩ := Option.ite_some_none_eq_some.mp hc
      rw [call_eq d { d.client with child := .read } rfl rfl]
      exact .fputs hpc
    | sigpipe | eintr | readFails | serverSend bytes | serverClose => cases hof
  | serverRead n =>
    obtain ⟨⟨hbuf, hread⟩, rfl⟩ := Option.ite_some_none_eq_some.mp hstep
    exact .serverRead hbuf hread
  | serverWrite =>
    obtain ⟨hbuf, rfl⟩ := Option.ite_some_none_eq_some.mp hstep
    exact .serverWrite hbuf
  | serverClose =>
    obtain ⟨⟨hshut, hserver, hbuf, hopen⟩, rfl⟩ := Option.ite_some_none_eq_some.mp hstep
    exact .serverClose hshut hserver hbuf hopen

/-- A call of the client that can be made. -/
theorem exists_call (text : List UInt8) {e : Ev} {c : Session} (hcall : d.call c = d') (hof : e.ofClient = true)
    (hc : d.client.step e = some c) : ∃ a, (duo text).step d a = some d' :=
  ⟨.client e, by simp [duo, Duo.step, hof, hc, hcall]⟩

/-- And it can do all of that. -/
theorem Duo.Step.exists_step (text : List UInt8) (h : d.Step d') : ∃ a, (duo text).step d a = some d' := by
  cases h with
  | fgets hpc => exact exists_call text (e := .fgets) (call_getLine d) rfl (if_pos hpc)
  | @write line hpc =>
    have hc : d.client.step .write = some (d.client.writeLine line) := by simp only [Session.step, hpc]
    exact exists_call text (call_writeLine d line) rfl hc
  | shutdown hpc => exact exists_call text (e := .shutdown) (call_eq d _ rfl rfl) rfl (if_pos hpc)
  | sigterm hpending halive =>
    exact exists_call text (e := .sigterm) (call_eq d _ rfl rfl) rfl (if_pos ⟨hpending, halive⟩)
  | @read n hpc hpos hmax hle =>
    exact exists_call text (e := .read n) (call_read d hle) rfl (if_pos ⟨hpc, hpos, hmax, hle⟩)
  | eof hpc harrived hclosed =>
    exact exists_call text (e := .eof) (call_eq d _ rfl rfl) rfl (if_pos ⟨hpc, harrived, hclosed⟩)
  | kill hpc => exact exists_call text (e := .kill) (call_eq d _ rfl rfl) rfl (if_pos hpc)
  | fputs hpc => exact exists_call text (e := .fputs) (call_eq d _ rfl rfl) rfl (if_pos hpc)
  | @serverRead n hbuf hread => exact ⟨.serverRead n, if_pos ⟨hbuf, hread⟩⟩
  | serverWrite hbuf => exact ⟨.serverWrite, if_pos hbuf⟩
  | serverClose hshut hserver hbuf hopen => exact ⟨.serverClose, if_pos ⟨hshut, hserver, hbuf, hopen⟩⟩

/-! ## The calls that are left -/

/-- Calls that the child has still to make for what it has read, and for the end. -/
def ChildPc.left : ChildPc → ℕ
  | kill => 3
  | fputs => 2
  | read => 1
  | success | failure => 0

/-- Calls that are still to come, at most: a byte of stdin takes seven, for it may be a line of its own. -/
def Duo.left (d : Duo) : ℕ :=
  work d.client + 5 * (d.toServer.length + d.client.parent.line.length + d.client.input.length) + 4 * d.buf.length +
    3 * d.client.arrived.length + d.client.child.left + d.client.parent.alive.toNat + (!d.client.closed).toNat

/-- **Every step makes the number smaller.** -/
theorem Duo.Step.left_lt (h : d.Step d') : d'.left < d.left := by
  cases h with
  | fgets hpc =>
    have hwork := work_getLine hpc
    rcases getLine_cases d.client with ⟨hinput, hget⟩ | ⟨line, rest, -, hinput, hget⟩
    · rw [hget] at hwork ⊢
      simp only [Duo.left, hpc, ParentPc.line, ParentPc.alive]
      omega
    · rw [hget] at hwork ⊢
      simp only [Duo.left, hpc, ParentPc.line, ParentPc.alive, hinput, List.length_append, List.length_nil]
      omega
  | @write line hpc =>
    have hle := length_untilNul_le line
    simp only [Duo.left, work, Session.writeLine, hpc, ParentPc.line, ParentPc.alive, List.length_append,
      List.length_nil]
    omega
  | shutdown hpc =>
    simp only [Duo.left, work, hpc, ParentPc.line, ParentPc.alive]
    omega
  | sigterm hpending halive =>
    have hbefore : d.client.parent.alive.toNat = 1 := by rw [halive, Bool.toNat_true]
    have hafter : ParentPc.sigterm.alive.toNat = 0 := rfl
    simp only [Duo.left, work, ParentPc.line, hbefore, hafter, List.length_nil]
    omega
  | read hpc hpos hmax hle =>
    simp only [Duo.left, work, hpc, ChildPc.left, List.length_drop]
    omega
  | eof hpc harrived hclosed =>
    simp only [Duo.left, work, hpc, ChildPc.left]
    omega
  | kill hpc =>
    simp only [Duo.left, work, Session.killParent, hpc, ChildPc.left]
    omega
  | fputs hpc =>
    simp only [Duo.left, work, hpc, ChildPc.left]
    omega
  | serverRead hbuf hread =>
    obtain ⟨hpos, -, hle⟩ := hread
    simp only [Duo.left, Duo.serverRead, hbuf, List.length_nil, List.length_take_of_le hle, List.length_drop]
    omega
  | serverWrite hbuf =>
    have hpos := List.length_pos_iff.mpr hbuf
    simp only [Duo.left, work, Duo.serverWrite, List.length_nil, List.length_append]
    omega
  | serverClose hshut hserver hbuf hopen =>
    simp only [Duo.left, work, Duo.serverClose, hopen, Bool.not_false, Bool.not_true, Bool.toNat_true, Bool.toNat_false]
    omega

/-! ## What holds in every state -/

theorem sentText_of_ne_nil (hne : text ≠ []) :
    sentText text = untilNul (fgets (maxSize - 1) text).1 ++ sentText (fgets (maxSize - 1) text).2 := by
  rw [sentText, pieces_of_ne_nil (by decide) hne, List.flatMap_cons]
  rfl

/-- Nothing is lost on the way; the parent sends what it is to send; the server closes only behind that; and
SIGTERM is what data that was read costs the parent. -/
structure Inv (text : List UInt8) (d : Duo) : Prop where
  bytes : d.client.written = d.got ++ (d.client.arrived ++ (d.buf ++ d.toServer))
  upTo : d.client.written <+: sentText text
  sent : d.client.parent.alive = true →
    d.client.written ++ (untilNul d.client.parent.line ++ sentText d.client.input) = sentText text
  ended : d.client.parent = .shutdown → d.client.input = []
  paused : d.client.parent = .pause → d.client.shut = true
  shut : d.client.shut = true →
    d.client.written = sentText text ∧ (d.client.parent = .pause ∨ d.client.parent = .sigterm)
  closed : d.client.closed = true → d.client.shut = true ∧ d.toServer = [] ∧ d.buf = []
  success : d.client.child = .success → d.client.closed = true ∧ d.client.arrived = []
  runs : d.client.child ≠ .failure ∧ d.client.parent ≠ .sigpipe
  signal : d.got ≠ [] → d.client.child = .kill ∨ d.client.pending = true ∨ d.client.parent = .sigterm
  heard : d.client.child = .kill ∨ d.client.pending = true ∨ d.client.parent = .sigterm → d.got ≠ []

theorem Inv.start (text : List UInt8) : Inv text (.start text) where
  bytes := rfl
  upTo := List.nil_prefix
  sent _ := rfl
  ended := by rintro ⟨⟩
  paused := by rintro ⟨⟩
  shut := by rintro ⟨⟩
  closed := by rintro ⟨⟩
  success := by rintro ⟨⟩
  runs := ⟨ChildPc.noConfusion, ParentPc.noConfusion⟩
  signal h := absurd rfl h
  heard := by rintro (⟨⟨⟩⟩ | ⟨⟨⟩⟩ | ⟨⟨⟩⟩)

/-- A parent that makes its calls was not signalled to its end, and has not shut down. -/
theorem Inv.calling (h : Inv text d) {pc : ParentPc} (hpc : d.client.parent = pc)
    (hcalls : pc ≠ .pause ∧ pc ≠ .sigterm) : d.client.shut = false := by
  by_contra hshut
  rcases (h.shut (Bool.eq_true_of_not_eq_false hshut)).2 with hpause | hsigterm
  · exact hcalls.1 (hpc.symm.trans hpause)
  · exact hcalls.2 (hpc.symm.trans hsigterm)

/-- What the parent's next call leaves of the facts about the signal. -/
theorem Inv.signalled (h : Inv text d) {pc : ParentPc} (pc' : ParentPc) (hpc : d.client.parent = pc)
    (hne : pc ≠ .sigterm) (hne' : pc' ≠ .sigterm) :
    (d.got ≠ [] → d.client.child = .kill ∨ d.client.pending = true ∨ pc' = .sigterm) ∧
      (d.client.child = .kill ∨ d.client.pending = true ∨ pc' = .sigterm → d.got ≠ []) := by
  have hsignal := h.signal
  have hheard := h.heard
  simp only [hpc, hne, hne', or_false] at hsignal hheard ⊢
  exact ⟨hsignal, hheard⟩

theorem getLine_of_ne_nil {s : Session} (hne : s.input ≠ []) : s.getLine =
    { s with parent := .write (fgets (maxSize - 1) s.input).1, input := (fgets (maxSize - 1) s.input).2 } := by
  unfold Session.getLine
  split
  · next hinput => exact absurd hinput hne
  · rfl

theorem Inv.fgets (h : Inv text d) (hpc : d.client.parent = .fgets) :
    Inv text { d with client := d.client.getLine } := by
  have hnot : ¬ d.client.shut = true := by simp [h.calling hpc ⟨ParentPc.noConfusion, ParentPc.noConfusion⟩]
  have hsent := h.sent
  rw [hpc] at hsent
  by_cases hinput : d.client.input = []
  · have hget : d.client.getLine = { d.client with parent := .shutdown } := by
      unfold Session.getLine
      split
      · rfl
      · next hne => exact absurd hinput hne
    rw [hget]
    obtain ⟨hsignal, hheard⟩ := h.signalled .shutdown hpc ParentPc.noConfusion ParentPc.noConfusion
    exact ⟨h.bytes, h.upTo, hsent, fun _ => hinput, by rintro ⟨⟩, fun hs => absurd hs hnot, h.closed, h.success,
      ⟨h.runs.1, ParentPc.noConfusion⟩, hsignal, hheard⟩
  · rw [getLine_of_ne_nil hinput]
    rw [sentText_of_ne_nil hinput] at hsent
    obtain ⟨hsignal, hheard⟩ := h.signalled (.write (NetProg.fgets (maxSize - 1) d.client.input).1) hpc
      ParentPc.noConfusion ParentPc.noConfusion
    exact ⟨h.bytes, h.upTo, hsent, by rintro ⟨⟩, by rintro ⟨⟩, fun hs => absurd hs hnot, h.closed, h.success,
      ⟨h.runs.1, ParentPc.noConfusion⟩, hsignal, hheard⟩

theorem Inv.write (h : Inv text d) {line : List UInt8} (hpc : d.client.parent = .write line) :
    Inv text { d with client := d.client.writeLine line, toServer := d.toServer ++ untilNul line } := by
  have hnot : ¬ d.client.shut = true := by simp [h.calling hpc ⟨ParentPc.noConfusion, ParentPc.noConfusion⟩]
  have hsent := h.sent
  rw [hpc] at hsent
  obtain ⟨hsignal, hheard⟩ := h.signalled .fgets hpc ParentPc.noConfusion ParentPc.noConfusion
  refine ⟨?_, ⟨sentText d.client.input, ?_⟩, fun halive => ?_, by rintro ⟨⟩, by rintro ⟨⟩, fun hs => absurd hs hnot,
    fun hclosed => absurd (h.closed hclosed).1 hnot, h.success, ⟨h.runs.1, ParentPc.noConfusion⟩, hsignal, hheard⟩
  · show d.client.written ++ untilNul line = _
    rw [h.bytes]
    simp only [Session.writeLine, List.append_assoc]
  all_goals
    show d.client.written ++ untilNul line ++ sentText d.client.input = _
    rw [List.append_assoc]
    exact hsent rfl

theorem Inv.shutdown (h : Inv text d) (hpc : d.client.parent = .shutdown) :
    Inv text { d with client := { d.client with parent := .pause, shut := true } } := by
  have hwritten : d.client.written = sentText text := by
    have hsent := h.sent
    rw [hpc, h.ended hpc] at hsent
    simpa [ParentPc.line, untilNul, sentText] using hsent rfl
  obtain ⟨hsignal, hheard⟩ := h.signalled .pause hpc ParentPc.noConfusion ParentPc.noConfusion
  refine ⟨h.bytes, h.upTo, fun _ => ?_, by rintro ⟨⟩, fun _ => rfl, fun _ => ⟨hwritten, .inl rfl⟩, fun hclosed => ?_,
    h.success, ⟨h.runs.1, ParentPc.noConfusion⟩, hsignal, hheard⟩
  · show d.client.written ++ ([] ++ sentText d.client.input) = _
    rw [h.ended hpc, hwritten]
    exact List.append_nil _
  · exact ⟨rfl, (h.closed hclosed).2⟩

theorem Inv.sigterm (h : Inv text d) (hpending : d.client.pending = true) :
    Inv text { d with client := { d.client with parent := .sigterm } } :=
  ⟨h.bytes, h.upTo, by rintro ⟨⟩, by rintro ⟨⟩, by rintro ⟨⟩, fun hs => ⟨(h.shut hs).1, .inr rfl⟩, h.closed, h.success,
    ⟨h.runs.1, ParentPc.noConfusion⟩, fun _ => .inr (.inr rfl), fun _ => h.heard (.inr (.inl hpending))⟩

theorem Inv.read (h : Inv text d) {n : ℕ} (hpos : 0 < n) (hle : n ≤ d.client.arrived.length) :
    Inv text { d with
      client := { d.client with child := .kill, arrived := d.client.arrived.drop n }
      got := d.got ++ d.client.arrived.take n } := by
  have hsome : d.got ++ d.client.arrived.take n ≠ [] := by
    intro hnil
    have hlength := congrArg List.length hnil
    rw [List.length_append, List.length_take_of_le hle, List.length_nil] at hlength
    omega
  refine ⟨?_, h.upTo, h.sent, h.ended, h.paused, h.shut, h.closed, by rintro ⟨⟩, ⟨ChildPc.noConfusion, h.runs.2⟩,
    fun _ => .inl rfl, fun _ => hsome⟩
  show d.client.written = d.got ++ d.client.arrived.take n ++ (d.client.arrived.drop n ++ (d.buf ++ d.toServer))
  rw [h.bytes, List.append_assoc, ← List.append_assoc (List.take n _), List.take_append_drop]

/-- The child goes on, with nothing read. -/
theorem Inv.goOn (h : Inv text d) {pc pc' : ChildPc} (hpc : d.client.child = pc) (hkill : pc ≠ .kill ∧ pc' ≠ .kill)
    (hruns : pc' ≠ .failure) (hsuccess : pc' = .success → d.client.closed = true ∧ d.client.arrived = []) :
    Inv text { d with client := { d.client with child := pc' } } := by
  have hsignal := h.signal
  have hheard := h.heard
  simp only [hpc, hkill.1, false_or] at hsignal hheard
  exact ⟨h.bytes, h.upTo, h.sent, h.ended, h.paused, h.shut, h.closed, hsuccess, ⟨hruns, h.runs.2⟩,
    fun hgot => .inr (hsignal hgot), fun hor => hheard (hor.resolve_left hkill.2)⟩

theorem Inv.kill (h : Inv text d) (hpc : d.client.child = .kill) :
    Inv text { d with client := d.client.killParent } := by
  have hgot := h.heard (.inl hpc)
  refine ⟨h.bytes, h.upTo, h.sent, h.ended, h.paused, h.shut, h.closed, by rintro ⟨⟩, ⟨ChildPc.noConfusion, h.runs.2⟩,
    fun _ => ?_, fun _ => hgot⟩
  show _ ∨ (d.client.pending || d.client.parent.alive) = true ∨ d.client.parent = .sigterm
  cases hparent : d.client.parent with
  | sigterm => exact .inr (.inr rfl)
  | sigpipe => exact absurd hparent h.runs.2
  | fgets | write line | shutdown | pause => exact .inr (.inl (Bool.or_true _))

/-- **Every step keeps it.** -/
theorem Inv.step (h : Inv text d) (hstep : d.Step d') : Inv text d' := by
  cases hstep with
  | fgets hpc => exact h.fgets hpc
  | write hpc => exact h.write hpc
  | shutdown hpc => exact h.shutdown hpc
  | sigterm hpending halive => exact h.sigterm hpending
  | read hpc hpos hmax hle => exact h.read hpos hle
  | eof hpc harrived hclosed =>
    exact h.goOn hpc ⟨ChildPc.noConfusion, ChildPc.noConfusion⟩ ChildPc.noConfusion fun _ => ⟨hclosed, harrived⟩
  | kill hpc => exact h.kill hpc
  | fputs hpc =>
    exact h.goOn hpc ⟨ChildPc.noConfusion, ChildPc.noConfusion⟩ ChildPc.noConfusion ChildPc.noConfusion
  | @serverRead n hbuf hread =>
    refine ⟨?_, h.upTo, h.sent, h.ended, h.paused, h.shut, fun hclosed => ?_, h.success, h.runs, h.signal, h.heard⟩
    · show d.client.written = d.got ++ (d.client.arrived ++ (d.toServer.take n ++ d.toServer.drop n))
      rw [List.take_append_drop, h.bytes, hbuf]
      rfl
    · have hpos := hread.1
      have hle := hread.2.2
      rw [(h.closed hclosed).2.1, List.length_nil] at hle
      omega
  | serverWrite hbuf =>
    refine ⟨?_, h.upTo, h.sent, h.ended, h.paused, h.shut,
      fun hclosed => absurd (h.closed hclosed).2.2 hbuf, fun hsuccess => ?_,
      h.runs, h.signal, h.heard⟩
    · show d.client.written = d.got ++ (d.client.arrived ++ d.buf ++ ([] ++ d.toServer))
      rw [h.bytes, List.append_assoc]
      rfl
    · exact absurd (h.closed (h.success hsuccess).1).2.2 hbuf
  | serverClose hshut hserver hbuf hopen =>
    exact ⟨h.bytes, h.upTo, h.sent, h.ended, h.paused, h.shut, fun _ => ⟨hshut, hserver, hbuf⟩,
      fun hsuccess => ⟨rfl, (h.success hsuccess).2⟩, h.runs, h.signal, h.heard⟩

theorem nothing_lost (hd : (duo text).Reachable d) : Inv text d :=
  (duo text).invariant (Inv.start text) (fun _ _ _ _ h hstep => h.step (.of_step hstep)) hd

/-! ## Where nothing happens -/

/-- None of the three has a call to make: the parent sleeps or was terminated, the child has exited or waits, and so
does the server. -/
structure AtRest (d : Duo) : Prop where
  parent : d.client.parent = .pause ∧ d.client.pending = false ∨ d.client.parent = .sigterm
  child : d.client.child = .success ∨ d.client.child = .read ∧ d.client.arrived = [] ∧ d.client.closed = false
  idle : d.toServer = [] ∧ d.buf = []
  server : d.client.closed = true ∨ d.client.shut = false

theorem AtRest.not_step (h : AtRest d) : ¬ d.Step d' := by
  obtain ⟨hparent, hchild, ⟨hserver, hbuf⟩, hclose⟩ := h
  intro hstep
  cases hstep with
  | fgets hpc | write hpc | shutdown hpc => rcases hparent with ⟨hsame, -⟩ | hsame <;> cases hpc.symm.trans hsame
  | sigterm hpending halive =>
    rcases hparent with ⟨-, hquiet⟩ | hdead
    · cases hpending.symm.trans hquiet
    · rw [hdead] at halive
      cases halive
  | read hpc hpos hmax hle =>
    rcases hchild with hsuccess | ⟨-, harrived, -⟩
    · cases hpc.symm.trans hsuccess
    · rw [harrived, List.length_nil] at hle
      omega
  | eof hpc harrived hclosed =>
    rcases hchild with hsuccess | ⟨-, -, hopen⟩
    · cases hpc.symm.trans hsuccess
    · cases hclosed.symm.trans hopen
  | kill hpc | fputs hpc => rcases hchild with hsame | ⟨hsame, -⟩ <;> cases hpc.symm.trans hsame
  | serverRead hbuf hread =>
    have hle := hread.2.2
    have hpos := hread.1
    rw [hserver, List.length_nil] at hle
    omega
  | serverWrite hne => exact hne hbuf
  | serverClose hshut hserver hbuf hopen =>
    rcases hclose with hclosed | hnot
    · cases hclosed.symm.trans hopen
    · cases hshut.symm.trans hnot

/-- Where somebody has a call to make, it can be made. -/
theorem Inv.atRest (h : Inv text d) (hstuck : ∀ d', ¬ d.Step d') : AtRest d := by
  have hbuf : d.buf = [] := by
    by_contra hne
    exact hstuck _ (.serverWrite hne)
  have hserver : d.toServer = [] := by
    by_contra hne
    exact hstuck _ (.serverRead (n := 1) hbuf ⟨Nat.one_pos, by decide, List.length_pos_iff.mpr hne⟩)
  have hpending : d.client.pending = true → d.client.parent.alive = false := fun hpending => by
    by_contra halive
    exact hstuck _ (.sigterm hpending (Bool.eq_true_of_not_eq_false halive))
  refine ⟨?_, ?_, ⟨hserver, hbuf⟩, ?_⟩
  · cases hpc : d.client.parent with
    | fgets => exact absurd (.fgets hpc) (hstuck _)
    | write line => exact absurd (.write hpc) (hstuck _)
    | shutdown => exact absurd (.shutdown hpc) (hstuck _)
    | pause =>
      refine .inl ⟨rfl, Bool.eq_false_iff.mpr fun htrue => ?_⟩
      have hdead := hpending htrue
      rw [hpc] at hdead
      cases hdead
    | sigterm => exact .inr rfl
    | sigpipe => exact absurd hpc h.runs.2
  · cases hpc : d.client.child with
    | kill => exact absurd (.kill hpc) (hstuck _)
    | fputs => exact absurd (.fputs hpc) (hstuck _)
    | success => exact .inl rfl
    | failure => exact absurd hpc h.runs.1
    | read =>
      have harrived : d.client.arrived = [] := by
        by_contra hne
        exact hstuck _ (.read (n := 1) hpc Nat.one_pos (by decide) (List.length_pos_iff.mpr hne))
      refine .inr ⟨rfl, harrived, Bool.eq_false_iff.mpr fun hclosed => ?_⟩
      exact hstuck _ (.eof hpc harrived hclosed)
  · by_contra hboth
    rw [not_or, Bool.not_eq_true, Bool.not_eq_false] at hboth
    exact hstuck _ (.serverClose hboth.2 hserver hbuf hboth.1)

/-- **The three ends** are the states where nobody has a call to make. -/
theorem Inv.end_iff (h : Inv text d) : End text d ↔ AtRest d := by
  have hclosed : d.client.child = .success → d.client.closed = true ∧ d.toServer = [] ∧ d.buf = [] := fun hsuccess =>
    ⟨(h.success hsuccess).1, (h.closed (h.success hsuccess).1).2⟩
  constructor
  · rintro (⟨hparent, hpending, hchild⟩ | ⟨hparent, hchild, -⟩ | ⟨hparent, hshut, hchild, harrived, hbuf, hserver⟩)
    · obtain ⟨hclosed, hidle⟩ := hclosed hchild
      exact ⟨.inl ⟨hparent, hpending⟩, .inl hchild, hidle, .inl hclosed⟩
    · obtain ⟨hclosed, hidle⟩ := hclosed hchild
      exact ⟨.inr hparent, .inl hchild, hidle, .inl hclosed⟩
    · refine ⟨.inr hparent, .inr ⟨hchild, harrived, Bool.eq_false_iff.mpr fun hclosed => ?_⟩, ⟨hserver, hbuf⟩,
        .inr hshut⟩
      cases (h.closed hclosed).1.symm.trans hshut
  · rintro ⟨hparent, hchild, ⟨hserver, hbuf⟩, hclose⟩
    rcases hparent with ⟨hpause, hpending⟩ | hsigterm
    · rcases hchild with hsuccess | ⟨-, -, hopen⟩
      · exact .inl ⟨hpause, hpending, hsuccess⟩
      · -- the parent has shut down, so the server has closed
        rw [hopen, h.paused hpause] at hclose
        rcases hclose with hclose | hclose <;> cases hclose
    · rcases hchild with hsuccess | ⟨hread, harrived, hopen⟩
      · obtain ⟨hclosed, harrived⟩ := h.success hsuccess
        have hbytes := h.bytes
        rw [harrived, hbuf, hserver, (h.shut (h.closed hclosed).1).1] at hbytes
        exact .inr (.inl ⟨hsigterm, hsuccess, by simpa using hbytes.symm⟩)
      · rcases hclose with hclosed | hnot
        · cases hclosed.symm.trans hopen
        · exact .inr (.inr ⟨hsigterm, hnot, hread, harrived, hbuf, hserver⟩)

end Step

/-! ## Which ends there are -/

section Ends

variable {text : List UInt8} {d d' : Duo}

theorem duo_terminates (text : List UInt8) : (duo text).Terminates (7 * text.length + 5) (End text) := by
  have hvariant : (duo text).Decreases Duo.left := fun _ _ _ _ hstep => (Duo.Step.of_step hstep).left_lt
  have hbound : (duo text).init.left = 7 * text.length + 5 := by
    simp only [duo, Duo.left, Duo.start, Session.start, work, ParentPc.line, ParentPc.alive, ChildPc.left,
      List.length_nil, Bool.not_false, Bool.toNat_true]
    omega
  rw [← hbound]
  refine hvariant.terminates fun d hd hnot => ?_
  by_contra hnone
  refine hnot ((nothing_lost hd).end_iff.mpr ((nothing_lost hd).atRest fun d' hstep => hnone ?_))
  obtain ⟨a, ha⟩ := hstep.exists_step text
  exact ⟨a, d', ha⟩

/-- Data that was read was sent. -/
theorem Inv.loud (h : Inv text d) (hsigterm : d.client.parent = .sigterm) : sentText text ≠ [] := by
  intro hnil
  have hwritten := h.upTo
  rw [hnil, List.prefix_nil, h.bytes, List.append_eq_nil_iff] at hwritten
  exact h.heard (.inr (.inr hsigterm)) hwritten.1

/-- Data that was sent is read, and signalled. -/
theorem Inv.silent (h : Inv text d) (hpaused : Paused d) : sentText text = [] := by
  obtain ⟨hparent, hpending, hchild⟩ := hpaused
  have hgot : d.got = [] := by
    by_contra hne
    rcases h.signal hne with hkill | hsig | hdead
    · cases hchild.symm.trans hkill
    · cases hpending.symm.trans hsig
    · cases hparent.symm.trans hdead
  obtain ⟨hclosed, harrived⟩ := h.success hchild
  have hbytes := h.bytes
  rw [hgot, harrived, (h.closed hclosed).2.1, (h.closed hclosed).2.2, (h.shut (h.closed hclosed).1).1] at hbytes
  exact hbytes

theorem reachable_step (hd : (duo text).Reachable d) (hstep : d.Step d') : (duo text).Reachable d' := by
  obtain ⟨a, ha⟩ := hstep.exists_step text
  exact .step a hd ha

/-- The parent left alone comes to `pause`. -/
theorem exists_pause (hd : (duo text).Reachable d) (halive : d.client.parent.alive = true) :
    ∃ d', (duo text).Reachable d' ∧ d'.client.parent = .pause := by
  induction hn : work d.client using Nat.strong_induction_on generalizing d with
  | _ n ih =>
    have hgo : ∀ {d' : Duo}, d.Step d' → d'.client.parent.alive = true → work d'.client < work d.client →
        ∃ d', (duo text).Reachable d' ∧ d'.client.parent = .pause := by
      intro d' hstep halive' hless
      exact ih _ (hn ▸ hless) (reachable_step hd hstep) halive' rfl
    cases hpc : d.client.parent with
    | fgets =>
      refine hgo (.fgets hpc) ?_ (work_getLine hpc)
      rcases getLine_cases d.client with ⟨-, hget⟩ | ⟨line, rest, -, -, hget⟩ <;>
      · rw [hget]
        rfl
    | write line =>
      refine hgo (.write hpc) rfl ?_
      simp [work, Session.writeLine, hpc]
    | shutdown =>
      refine hgo (.shutdown hpc) rfl ?_
      simp [work, hpc]
    | pause => exact ⟨d, hd, hpc⟩
    | sigterm | sigpipe =>
      rw [hpc] at halive
      cases halive

/-- What was shut down stays so. -/
theorem Duo.Step.shut (h : d.Step d') (hshut : d.client.shut = true) : d'.client.shut = true := by
  cases h with
  | fgets hpc =>
    rcases getLine_cases d.client with ⟨-, hget⟩ | ⟨line, rest, -, -, hget⟩ <;>
    · rw [hget]
      exact hshut
  | shutdown hpc => rfl
  | _ => exact hshut

/-- And a parent that was terminated shuts nothing down. -/
theorem Duo.Step.dead (h : d.Step d') (hdead : d.client.parent = .sigterm) :
    d'.client.parent = .sigterm ∧ d'.client.shut = d.client.shut := by
  cases h with
  | fgets hpc | write hpc | shutdown hpc => cases hpc.symm.trans hdead
  | sigterm hpending halive =>
    rw [hdead] at halive
    cases halive
  | _ => exact ⟨hdead, rfl⟩

/-- From every state an end is reached; what was shut down, and what died before that, stays so. -/
theorem exists_end (hd : (duo text).Reachable d) : ∃ d', (duo text).Reachable d' ∧ End text d' ∧
    (d.client.shut = true → d'.client.shut = true) ∧
    (d.client.parent = .sigterm → d'.client.parent = .sigterm ∧ d'.client.shut = d.client.shut) := by
  obtain ⟨d', hleads, hend⟩ := (duo_terminates text).leads hd
  refine ⟨d', hleads.reachable hd, hend, ?_⟩
  obtain ⟨es, hes⟩ := hleads
  refine (duo text).runFrom_induction es (P := fun d' => (d.client.shut = true → d'.client.shut = true) ∧
    (d.client.parent = .sigterm → d'.client.parent = .sigterm ∧ d'.client.shut = d.client.shut)) ?_
    ⟨id, fun hdead => ⟨hdead, rfl⟩⟩ hes
  rintro u a u' - ⟨hshut, hdead⟩ hstep
  have hstep := Duo.Step.of_step hstep
  refine ⟨fun h => hstep.shut (hshut h), fun h => ?_⟩
  obtain ⟨hparent, hsame⟩ := hdead h
  obtain ⟨hparent', hsame'⟩ := hstep.dead hparent
  exact ⟨hparent', hsame'.trans hsame⟩

theorem duo_start (text : List UInt8) : (duo text).Reachable (.start text) := .init

/-- A line was sent, and nobody else has done anything. -/
def Duo.sent (rest bytes : List UInt8) : Duo := ⟨{ Session.start rest with written := bytes }, bytes, [], []⟩

/-- Lines of which nothing is sent change nothing. -/
theorem exists_sent {input : List UInt8} (hd : (duo text).Reachable (.start input)) (hloud : sentText input ≠ []) :
    ∃ rest bytes, bytes ≠ [] ∧ (duo text).Reachable (.sent rest bytes) := by
  induction hn : input.length using Nat.strong_induction_on generalizing input with
  | _ n ih =>
    have hne : input ≠ [] := by
      rintro rfl
      exact hloud rfl
    have hget : (Session.start input).getLine =
        { Session.start input with
          parent := .write (fgets (maxSize - 1) input).1, input := (fgets (maxSize - 1) input).2 } :=
      getLine_of_ne_nil hne
    have hline : (Duo.start input).Step
        { Duo.start input with client := (Session.start input).getLine } := .fgets rfl
    have hwrite : Duo.Step { Duo.start input with client := (Session.start input).getLine }
        (.sent (fgets (maxSize - 1) input).2 (untilNul (fgets (maxSize - 1) input).1)) := by
      rw [hget]
      exact .write rfl
    have hd' := reachable_step (reachable_step hd hline) hwrite
    rw [sentText_of_ne_nil hne] at hloud
    by_cases hsilent : untilNul (fgets (maxSize - 1) input).1 = []
    · rw [hsilent] at hd' hloud
      exact ih _ (hn ▸ length_fgets_snd_lt (by decide) hne) hd' hloud rfl
    · exact ⟨_, _, hsilent, hd'⟩

/-- The echo of a first byte costs the parent its life before the `shutdown`. -/
theorem exists_killed (hloud : sentText text ≠ []) :
    ∃ d, (duo text).Reachable d ∧ d.client.parent = .sigterm ∧ d.client.shut = false := by
  obtain ⟨rest, bytes, hne, hd⟩ := exists_sent (duo_start text) hloud
  obtain ⟨b, bs, rfl⟩ := List.exists_cons_of_ne_nil hne
  have hread : MayRead (b :: bs) 1 := ⟨Nat.one_pos, by decide, Nat.succ_pos _⟩
  have hserved := reachable_step hd (.serverRead (n := 1) rfl hread)
  have harrived := reachable_step hserved (.serverWrite (List.cons_ne_nil _ _))
  have hheard := reachable_step harrived (.read (n := 1) rfl Nat.one_pos (by decide) (Nat.le_refl 1))
  exact ⟨_, reachable_step (reachable_step hheard (.kill rfl)) (.sigterm rfl rfl), rfl, rfl⟩

end Ends

/-! ## The main result -/

/-- **How `fork_str_cli` ends**: within so many calls, where nothing happens any more; with the parent in `pause` for
ever exactly if nothing was sent, and otherwise, as the signal comes behind the `shutdown` or before it, with
everything echoed and read or with a child and a server that wait for each other.  Both are possible. -/
theorem forkStrCli_ends (text : List UInt8) :
    (duo text).Terminates (7 * text.length + 5) (End text) ∧
    (∀ d, (duo text).Reachable d → (End text d ↔ (duo text).Stuck d)) ∧
    ((∃ d, (duo text).Reachable d ∧ Paused d) ↔ sentText text = []) ∧
    ((∃ d, (duo text).Reachable d ∧ Done text d) ↔ sentText text ≠ []) ∧
    ((∃ d, (duo text).Reachable d ∧ Hung d) ↔ sentText text ≠ []) := by
  have hends := duo_terminates text
  refine ⟨hends, fun d hd => ⟨fun hend a => ?_, fun hstuck => hends.final_of_stuck hd hstuck⟩, ⟨?_, fun hnil => ?_⟩,
    ⟨?_, fun hloud => ?_⟩, ⟨?_, fun hloud => ?_⟩⟩
  · cases hstep : (duo text).step d a with
    | none => rfl
    | some d' => exact absurd (.of_step hstep) ((nothing_lost hd).end_iff.mp hend).not_step
  · rintro ⟨d, hd, hpaused⟩
    exact (nothing_lost hd).silent hpaused
  · obtain ⟨d, hd, hpaused | hdone | hhung, -⟩ := exists_end (duo_start text)
    · exact ⟨d, hd, hpaused⟩
    · exact absurd hnil ((nothing_lost hd).loud hdone.1)
    · exact absurd hnil ((nothing_lost hd).loud hhung.1)
  · rintro ⟨d, hd, hdone⟩
    exact (nothing_lost hd).loud hdone.1
  · obtain ⟨d, hd, hpause⟩ := exists_pause (duo_start text) rfl
    obtain ⟨d', hd', hpaused | hdone | hhung, hshut, -⟩ := exists_end hd
    · exact absurd ((nothing_lost hd').silent hpaused) hloud
    · exact ⟨d', hd', hdone⟩
    · cases (hshut ((nothing_lost hd).paused hpause)).symm.trans hhung.2.1
  · rintro ⟨d, hd, hhung⟩
    exact (nothing_lost hd).loud hhung.1
  · obtain ⟨d, hd, hdead, hopen⟩ := exists_killed hloud
    obtain ⟨d', hd', hend, -, hkept⟩ := exists_end hd
    obtain ⟨hdead', hsame⟩ := hkept hdead
    rcases hend with hpaused | hdone | hhung
    · cases hdead'.symm.trans hpaused.1
    · have hshut := ((nothing_lost hd').closed ((nothing_lost hd').success hdone.2.1).1).1
      cases hshut.symm.trans (hsame.trans hopen)
    · exact ⟨d', hd', hhung⟩

end NetProg.ForkStrCli
