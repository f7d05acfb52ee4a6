/-
# NetProg.Heartbeat.Client -- `C/heartbeat_cli.c` and `C/heartbeat_android.c`: a main loop under signals.

The main loop connects, arms the alarm, blocks in `recv` for as long as the session lasts, and starts
over after a `sleep`.  SIGALRM sends a heartbeat, or closes `conn_fd` when the last one was not answered;
SIGURG brings the answer.  The two programs share `connect_server` and `sig_handler`; they differ in
`PEER_EXPIRE_CNT` and in whether the main loop closes `conn_fd` after `recv` (`Variant`).

The handlers are run statement by statement.  `frames` holds the handlers that are active, the running
one first: a handler may interrupt the main loop and the other handler, and never itself, because the
`sa_mask`s are empty and a signal is blocked while its own handler runs.  The main loop moves only when
no handler is active.

An alarm that is armed may expire at any step, and a SIGURG may come at any step.  What `send` returns is
not looked at by the code: `LogEv.sent` is a `send` on a connection, `LogEv.unsent` one on a `conn_fd` that is
closed or not connected, which sends nothing.  On a socket that is not connected it may raise SIGPIPE besides; the
run ends there then.  A flag that the code keeps in an `int` is a `Bool`.
-/
import NetProg.Base.System
import NetProg.Base.Decimal

namespace NetProg.HeartbeatCli

/-- What the two programs differ in. -/
structure Variant where
  peerExpireCnt : ℤ
  closesSession : Bool

/-- `C/heartbeat_cli.c`. -/
def heartbeatCli : Variant := ⟨3, false⟩

/-- `C/heartbeat_android.c`. -/
def heartbeatAndroid : Variant := ⟨10, true⟩

/-- The next statement of the main loop. -/
inductive MainPc where
  | socket
  | connect
  | closeFailed
  | countFailed
  | alarm
  | setReply
  | recv
  | closeSession
  | clearReply
  | sleep
  deriving DecidableEq, Repr

/-- The next statement of the handler for SIGALRM. -/
inductive AlrmPc where
  | alarm
  | test
  | send
  | clear
  | close
  | report
  deriving DecidableEq, Repr

/-- The next statement of the handler for SIGURG; after its `recv` it holds the byte `c`, which came from
the connection when `got` is true and is what was on the stack otherwise. -/
inductive UrgPc where
  | recv
  | assign (got : Bool) (c : Char)
  | reset
  deriving DecidableEq, Repr

/-- An active handler. -/
inductive Frame where
  | alrm (pc : AlrmPc)
  | urg (pc : UrgPc)
  deriving DecidableEq, Repr

def Frame.isAlrm : Frame → Bool
  | .alrm _ => true
  | .urg _ => false

/-- What the program did with its connection and what it printed, oldest first; `cleared` is the main
loop's `got_reply = 0`, with the value that it overwrote. -/
inductive LogEv where
  | socket (fd : ℤ)
  | sent (fd : ℤ)
  | unsent (fd : ℤ)
  | reply (fd : ℤ)
  | alrmClosed (fd : ℤ)
  | mainClosed (fd : ℤ)
  | cleared (gotReply : Bool)
  | lostConnection
  | notStartUp
  deriving DecidableEq, Repr

/-- The globals, whether `conn_fd` is open and connected, where each thread of control stands, the alarm, and the
log. -/
structure Client where
  connFd : ℤ
  connected : Bool
  gotReply : Bool
  expireCnt : ℤ
  alreadyReset : Bool
  pc : MainPc
  frames : List Frame
  armed : Bool
  log : List LogEv
  deriving DecidableEq, Repr

namespace Client

def start : Client where
  connFd := 0
  connected := false
  gotReply := true
  expireCnt := 0
  alreadyReset := false
  pc := .socket
  frames := []
  armed := false
  log := []

def logs (s : Client) (es : List LogEv) : Client := { s with log := s.log ++ es }

/-- The branch taken after `connect_server` failed: `PEER_EXPIRE_CNT == expire_cnt++ && ...`. -/
def countFailed (v : Variant) (s : Client) : Client :=
  if v.peerExpireCnt = s.expireCnt ∧ s.alreadyReset = false then
    { s with expireCnt := 0, pc := .sleep }.logs [.notStartUp]
  else { s with expireCnt := wrap32 (s.expireCnt + 1), pc := .sleep }

/-- The next statement of the main loop; `fd` is what `socket` returns and `ok` says whether `connect`
succeeds. -/
def mainStep (v : Variant) (s : Client) (fd : ℤ) (ok : Bool) : Client :=
  match s.pc with
  | .socket => { s with connFd := fd, connected := false, pc := .connect }.logs [.socket fd]
  -- a signal during `connect` is one before or after it: nothing it changes is read in between
  | .connect => { s with connected := ok, pc := if ok then .alarm else .closeFailed }
  | .closeFailed => { s with connected := false, pc := .countFailed }.logs [.mainClosed s.connFd]
  | .countFailed => s.countFailed v
  -- the alarm is armed before the flag is set
  | .alarm => { s with armed := true, pc := .setReply }
  | .setReply => { s with gotReply := true, pc := .recv }
  | .recv => { s with pc := if v.closesSession then .closeSession else .clearReply }
  | .closeSession => { s with connected := false, pc := .clearReply }.logs [.mainClosed s.connFd]
  | .clearReply => { s with gotReply := false, pc := .sleep }.logs [.cleared s.gotReply]
  | .sleep => { s with pc := .socket }

/-- `send (conn_fd, "c", 1, MSG_OOB)`. -/
def send (s : Client) : Client := s.logs [if s.connected then .sent s.connFd else .unsent s.connFd]

@[simp] theorem send_gotReply (s : Client) : s.send.gotReply = s.gotReply := rfl

@[simp] theorem send_frames (s : Client) : s.send.frames = s.frames := rfl

@[simp] theorem send_armed (s : Client) : s.send.armed = s.armed := rfl

/-- The next statement of the handler for SIGALRM, above the frames `fs`. -/
def alrmStep (s : Client) (fs : List Frame) : AlrmPc → Client
  | .alarm => { s with armed := true, frames := .alrm .test :: fs }
  -- `got_reply` is looked at here and acted upon later
  | .test => { s with frames := .alrm (if s.gotReply then .send else .close) :: fs }
  | .send => { s with frames := .alrm .clear :: fs }.send
  | .clear => { s with gotReply := false, frames := fs }
  | .close => { s with connected := false, frames := .alrm .report :: fs }.logs [.alrmClosed s.connFd]
  | .report =>
    if s.alreadyReset then { s with frames := fs }
    else { s with alreadyReset := true, frames := fs }.logs [.lostConnection]

/-- The next statement of the handler for SIGURG, above the frames `fs`; `got` and `c` are what its
`recv` leaves behind. -/
def urgStep (s : Client) (fs : List Frame) (got : Bool) (c : Char) : UrgPc → Client
  | .recv =>
    { s with frames := .urg (.assign got c) :: fs }.logs
      (if got = true ∧ c = 's' then [.reply s.connFd] else [])
  | .assign _ c' => { s with gotReply := c' == 's', frames := .urg .reset :: fs }
  | .reset => { s with alreadyReset := false, frames := fs }

end Client

/-- One statement of the main loop or of the running handler, or the arrival of a signal. -/
inductive Ev where
  | main (fd : ℤ) (ok : Bool)
  | sigalrm
  | sigurg
  | alrm
  | urg (got : Bool) (c : Char)
  deriving DecidableEq, Repr

def Client.step (v : Variant) (s : Client) : Ev → Option Client
  | .main fd ok => if s.frames = [] then some (s.mainStep v fd ok) else none
  | .sigalrm =>
    if s.armed ∧ s.frames.all (fun f => !f.isAlrm) then
      some { s with armed := false, frames := .alrm .alarm :: s.frames }
    else none
  | .sigurg =>
    if s.frames.all Frame.isAlrm then some { s with frames := .urg .recv :: s.frames } else none
  | .alrm =>
    match s.frames with
    | .alrm pc :: fs => some (s.alrmStep fs pc)
    | _ => none
  | .urg got c =>
    match s.frames with
    | .urg pc :: fs => some (s.urgStep fs got c pc)
    | _ => none

/-- The program, from the start of its `while (1)`. -/
def client (v : Variant) : System Client Ev := ⟨Client.start, Client.step v⟩

/-- The steps, as a relation. -/
inductive Client.Step (v : Variant) (s : Client) : Ev → Client → Prop where
  | main {fd ok} (hframes : s.frames = []) : Step v s (.main fd ok) (s.mainStep v fd ok)
  | sigalrm (harmed : s.armed = true) (hfree : s.frames.all (fun f => !f.isAlrm) = true) :
      Step v s .sigalrm { s with armed := false, frames := .alrm .alarm :: s.frames }
  | sigurg (hfree : s.frames.all Frame.isAlrm = true) :
      Step v s .sigurg { s with frames := .urg .recv :: s.frames }
  | alrm {pc fs} (hframes : s.frames = .alrm pc :: fs) : Step v s .alrm (s.alrmStep fs pc)
  | urg {got c pc fs} (hframes : s.frames = .urg pc :: fs) :
      Step v s (.urg got c) (s.urgStep fs got c pc)

/-- What one step can do. -/
theorem client_step_iff {v : Variant} {s s' : Client} {e : Ev} :
    (client v).step s e = some s' ↔ s.Step v e s' := by
  constructor
  · intro h
    cases e <;> simp only [client, Client.step] at h <;> split at h <;> cases h
    · exact .main ‹_›
    · exact .sigalrm (And.left ‹_›) (And.right ‹_›)
    · exact .sigurg ‹_›
    · exact .alrm ‹_›
    · exact .urg ‹_›
  · intro h
    cases h <;> simp_all [client, Client.step]

end NetProg.HeartbeatCli
