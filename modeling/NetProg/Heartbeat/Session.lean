/-
# NetProg.Heartbeat.Session -- `heartbeat_cli` and `heartbeat_srv` on one established connection.

The client is the one of `NetProg.Heartbeat.Client`, statement by statement and with nested handlers; its
main loop stays in the `recv` of the session.  The server's handlers run in one piece.  `up` carries the
heartbeats (`'c'`) and `down` the replies (`'s'`), each with the single mark that TCP has for urgent data;
the network loses nothing.  When the client closes `conn_fd`, what was on its way to it is discarded, and
nothing that is sent afterwards, on either side, gets anywhere.  The server's `recv` does not return here: that
the close reaches it, and sets its `already_reset`, is left out.

`session` is the system of the single statements.  `atomicSession` is the one whose handlers run in one
piece, as `sig_handler` is written.  A byte that `recv` did not get is whatever was on the stack (`junk`).
-/
import NetProg.Base.Urgent
import NetProg.Base.EventLog
import NetProg.Heartbeat.ClientClose
import NetProg.Heartbeat.Srv

namespace NetProg.HeartbeatCli.Client

/-! ## The client's handlers in one piece -/

/-- `sig_handler (SIGALRM)`. -/
def sigAlrm (s : Client) : Client :=
  if s.gotReply then { s with armed := true, gotReply := false }.send
  else if s.alreadyReset then { s with armed := true, connected := false }.logs [.alrmClosed s.connFd]
  else
    { s with armed := true, connected := false, alreadyReset := true }.logs
      [.alrmClosed s.connFd, .lostConnection]

/-- `sig_handler (SIGURG)`; `got` and `c` are what its `recv` leaves behind. -/
def sigUrg (s : Client) (got : Bool) (c : Char) : Client :=
  { s with gotReply := c == 's', alreadyReset := false }.logs
    (if got = true ∧ c = 's' then [.reply s.connFd] else [])

end NetProg.HeartbeatCli.Client

namespace NetProg.HeartbeatSession

open NetProg.HeartbeatCli NetProg.HeartbeatSrv

/-- What happened on the connection, oldest first.  `alarm` is the delivery of a SIGALRM to the client;
`unsent` is a heartbeat on a `conn_fd` that is closed. -/
inductive Act where
  | alarm
  | heartbeat
  | unsent
  | answer
  | reply
  | close
  | lost
  deriving DecidableEq, Repr

/-- The two programs, the two directions of the connection, and whether the client still has it open. -/
structure Session where
  cli : Client
  srv : Srv
  up : Urgent Char
  down : Urgent Char
  live : Bool
  log : List Act
  deriving DecidableEq, Repr

namespace Session

/-- The connection is established and the client has set `got_reply`; the other globals of the two
programs are as the sessions before left them. -/
def start (cli : Client) (srv : Srv) : Session where
  cli := { cli with connected := true, gotReply := true, pc := .recv, frames := [], armed := true }
  srv := srv
  up := Urgent.idle
  down := Urgent.idle
  live := true
  log := []

/-! ## The server -/

/-- The server's `sig_handler (SIGURG)`. -/
def srvUrg (s : Session) (junk : Char) : Session :=
  match Srv.answer (s.up.mark.getD junk) with
  | some b =>
    { s with
      srv := s.srv.sigUrg
      up := s.up.signal.take
      down := if s.live then s.down.send b else s.down
      log := s.log ++ [.answer] }
  | none => { s with srv := s.srv.sigUrg, up := s.up.signal.take }

/-- The server's `sig_handler (SIGALRM)`. -/
def srvAlrm (s : Session) : Session := { s with srv := s.srv.sigAlrm }

/-! ## The client, statement by statement -/

/-- SIGALRM is delivered to the client. -/
def onAlrm (s : Session) : Session :=
  { s with
    cli := { s.cli with armed := false, frames := .alrm .alarm :: s.cli.frames }
    log := s.log ++ [.alarm] }

/-- SIGURG is delivered to the client. -/
def onUrg (s : Session) : Session :=
  { s with
    cli := { s.cli with frames := .urg .recv :: s.cli.frames }
    down := s.down.signal }

/-- The next statement of the client's handler for SIGALRM, above the frames `fs`. -/
def alrm (s : Session) (fs : List Frame) (pc : HeartbeatCli.AlrmPc) : Session :=
  match pc with
  | .send =>
    if s.live then
      { s with cli := s.cli.alrmStep fs pc, up := s.up.send 'c', log := s.log ++ [.heartbeat] }
    else { s with cli := s.cli.alrmStep fs pc, log := s.log ++ [.unsent] }
  | .close =>
    { s with
      cli := s.cli.alrmStep fs pc
      down := s.down.discard
      live := false
      log := s.log ++ [.close] }
  | .report =>
    if s.cli.alreadyReset then { s with cli := s.cli.alrmStep fs pc }
    else { s with cli := s.cli.alrmStep fs pc, log := s.log ++ [.lost] }
  | .alarm | .test | .clear => { s with cli := s.cli.alrmStep fs pc }

/-- The next statement of the client's handler for SIGURG, above the frames `fs`. -/
def urg (s : Session) (fs : List Frame) (junk : Char) (pc : HeartbeatCli.UrgPc) : Session :=
  match pc, s.down.mark with
  | .recv, some c =>
    { s with
      cli := s.cli.urgStep fs true c .recv
      down := s.down.take
      log := s.log ++ if c = 's' then [.reply] else [] }
  | pc, _ => { s with cli := s.cli.urgStep fs false junk pc }

/-! ## The client's handlers in one piece -/

/-- The client's `sig_handler (SIGALRM)`. -/
def sigAlrm (s : Session) : Session :=
  if s.cli.gotReply then
    if s.live then
      { s with cli := s.cli.sigAlrm, up := s.up.send 'c', log := s.log ++ [.alarm, .heartbeat] }
    else { s with cli := s.cli.sigAlrm, log := s.log ++ [.alarm, .unsent] }
  else
    { s with
      cli := s.cli.sigAlrm
      down := s.down.discard
      live := false
      log := s.log ++ [.alarm, .close] ++ if s.cli.alreadyReset then [] else [.lost] }

/-- The client's `sig_handler (SIGURG)`. -/
def sigUrg (s : Session) (junk : Char) : Session :=
  match s.down.mark with
  | some c =>
    { s with
      cli := s.cli.sigUrg true c
      down := s.down.signal.take
      log := s.log ++ if c = 's' then [.reply] else [] }
  | none => { s with cli := s.cli.sigUrg false junk, down := s.down.signal }

end Session

/-! ## The two systems -/

/-- An arrival, a handler of the server, or a statement of the client. -/
inductive Ev where
  | arriveUp
  | arriveDown
  | srvUrg (junk : Char)
  | srvAlrm
  | sigalrm
  | sigurg
  | alrm
  | urg (junk : Char)
  deriving DecidableEq, Repr

def Session.step (s : Session) : Ev → Option Session
  | .arriveUp => s.up.arrive.map fun l => { s with up := l }
  | .arriveDown => s.down.arrive.map fun l => { s with down := l }
  | .srvUrg junk => if s.up.pending then some (s.srvUrg junk) else none
  | .srvAlrm => some s.srvAlrm
  | .sigalrm =>
    if s.cli.armed ∧ s.cli.frames.all (fun f => !f.isAlrm) then some s.onAlrm else none
  | .sigurg => if s.down.pending ∧ s.cli.frames.all Frame.isAlrm then some s.onUrg else none
  | .alrm =>
    match s.cli.frames with
    | .alrm pc :: fs => some (s.alrm fs pc)
    | _ => none
  | .urg junk =>
    match s.cli.frames with
    | .urg pc :: fs => some (s.urg fs junk pc)
    | _ => none

/-- The session, statement by statement. -/
def session (cli : Client) (srv : Srv) : System Session Ev := ⟨Session.start cli srv, Session.step⟩

/-- The steps, as a relation. -/
inductive Session.Step (s : Session) : Ev → Session → Prop where
  | arriveUp {l} (h : s.up.arrive = some l) : Step s .arriveUp { s with up := l }
  | arriveDown {l} (h : s.down.arrive = some l) : Step s .arriveDown { s with down := l }
  | srvUrg {junk} (hpending : s.up.pending = true) : Step s (.srvUrg junk) (s.srvUrg junk)
  | srvAlrm : Step s .srvAlrm s.srvAlrm
  | sigalrm (harmed : s.cli.armed = true)
      (hfree : s.cli.frames.all (fun f => !f.isAlrm) = true) : Step s .sigalrm s.onAlrm
  | sigurg (hpending : s.down.pending = true) (hfree : s.cli.frames.all Frame.isAlrm = true) :
      Step s .sigurg s.onUrg
  | alrm {pc fs} (hframes : s.cli.frames = .alrm pc :: fs) : Step s .alrm (s.alrm fs pc)
  | urg {junk pc fs} (hframes : s.cli.frames = .urg pc :: fs) :
      Step s (.urg junk) (s.urg fs junk pc)

/-- What one step can do. -/
theorem session_step_iff {cli : Client} {srv : Srv} {s s' : Session} {e : Ev} :
    (session cli srv).step s e = some s' ↔ s.Step e s' := by
  constructor
  · intro h
    cases e with
    | arriveUp =>
      rcases Option.map_eq_some_iff.mp h with ⟨l, hl, rfl⟩
      exact .arriveUp hl
    | arriveDown =>
      rcases Option.map_eq_some_iff.mp h with ⟨l, hl, rfl⟩
      exact .arriveDown hl
    | srvAlrm =>
      obtain rfl := Option.some.inj h
      exact .srvAlrm
    | srvUrg | sigalrm | sigurg | alrm | urg =>
      simp only [session, Session.step] at h
      split at h <;> cases h
      first
        | (constructor; assumption)
        | exact .sigalrm (And.left ‹_›) (And.right ‹_›)
        | exact .sigurg (And.left ‹_›) (And.right ‹_›)
  · intro h
    cases h <;> simp_all [session, Session.step]

/-- One event of the session whose handlers are not interrupted. -/
inductive AtomicEv where
  | arriveUp
  | arriveDown
  | srvUrg (junk : Char)
  | srvAlrm
  | sigalrm
  | sigurg (junk : Char)
  deriving DecidableEq, Repr

def Session.atomicStep (s : Session) : AtomicEv → Option Session
  | .arriveUp => s.up.arrive.map fun l => { s with up := l }
  | .arriveDown => s.down.arrive.map fun l => { s with down := l }
  | .srvUrg junk => if s.up.pending then some (s.srvUrg junk) else none
  | .srvAlrm => some s.srvAlrm
  | .sigalrm => if s.cli.armed then some s.sigAlrm else none
  | .sigurg junk => if s.down.pending then some (s.sigUrg junk) else none

/-- The session, whole handlers at a time. -/
def atomicSession (cli : Client) (srv : Srv) : System Session AtomicEv :=
  ⟨Session.start cli srv, Session.atomicStep⟩

end NetProg.HeartbeatSession
