/-
# NetProg.Ameba.Exchange -- `ameba/tcp_client.c` and `ameba/tcp_select_server.c` together.

The client goes round and round: it makes a connection, writes one message on it, closes it, and makes the next one.
The server has a slot for a connection from its `accept` until it reads the end of its stream, and closes a connection
that finds no slot free.

What the client writes, and that it has closed, gets to the server in pieces and in its own time, but when the client
makes a connection, everything has arrived on those that were made more than `lag` connections before.  On the
loopback interface, for which both programs are written, nothing is on its way for long, and `lag` is 0.

Connections are numbered in the order in which they are made, and accepted in that order.  A pass of the server is one
step: `select` reports what is readable at its start, `accept` and the `read`s take what was there then, and what the
client does during the pass could as well come behind it.  `accept` and the `read`s do not fail; the calls of the
client may.
-/
import NetProg.Base.Progress
import NetProg.Server.BetterPass

namespace NetProg.Exchange

open SelectSrvBetter

/-! ## The connections -/

/-- `#define STR "test string"`. -/
def str : List UInt8 := [116, 101, 115, 116, 32, 115, 116, 114, 105, 110, 103]

/-- What the `read` of the server may return at most: `sizeof (recv_buf) - 1`. -/
def recvMax : ℕ := 255

/-- What the client wrote, what of it is on its way and what has arrived, what the server has read; whether the client
has closed the connection, and the server knows it; and whether the server has closed it. -/
structure Conn where
  written : List UInt8
  onWay : List UInt8
  arrived : List UInt8
  got : List UInt8
  closed : Bool
  ended : Bool
  dropped : Bool
  deriving DecidableEq, Repr

namespace Conn

/-- A new connection. -/
def fresh : Conn := ⟨[], [], [], [], false, false, false⟩

def write (c : Conn) : Conn := { c with written := str, onWay := str }

def close (c : Conn) : Conn := { c with closed := true }

/-- Bytes have arrived. -/
def arrive (c : Conn) (k : ℕ) : Conn := { c with arrived := c.arrived ++ c.onWay.take k, onWay := c.onWay.drop k }

/-- The end of the stream has arrived. -/
def finish (c : Conn) : Conn := { c with ended := true }

/-- The server's `read`. -/
def read (c : Conn) : Conn := { c with got := c.got ++ c.arrived.take recvMax, arrived := c.arrived.drop recvMax }

/-- The server's `close`. -/
def drop (c : Conn) : Conn := { c with dropped := true }

/-- `select` finds it readable. -/
def Readable (c : Conn) : Prop := c.arrived ≠ [] ∨ c.ended = true

/-- Everything has arrived, the end as well. -/
def Settled (c : Conn) : Prop := c.onWay = [] ∧ c.ended = true

instance (c : Conn) : Decidable c.Readable := inferInstanceAs (Decidable (_ ∨ _))
instance (c : Conn) : Decidable c.Settled := inferInstanceAs (Decidable (_ ∧ _))

end Conn

/-- The connections; how many were made, and how many of them the server has accepted; and for a descriptor of the
server, the connection it was last given to. -/
structure Kernel where
  conns : ℕ → Conn
  made : ℕ
  taken : ℕ
  connAt : ℤ → ℕ

namespace Kernel

variable {n : ℕ}

def start : Kernel := ⟨fun _ => .fresh, 0, 0, fun _ => 0⟩

/-- Connection `id` changes. -/
def set (k : Kernel) (id : ℕ) (f : Conn → Conn) : Kernel :=
  { k with conns := Function.update k.conns id (f (k.conns id)) }

/-- What a call of the server does to the connections. -/
def call (k : Kernel) : Ev n → Kernel
  | .accept fd => { k with taken := k.taken + 1, connAt := Function.update k.connAt fd k.taken }
  | .read fd _ => k.set (k.connAt fd) .read
  | .close fd => k.set (k.connAt fd) .drop
  | .fdSet _ | .fdClr _ | .fdIsset _ | .setSlot _ _ => k

def calls (k : Kernel) (l : List (Ev n)) : Kernel := l.foldl Kernel.call k

/-- The connection behind a descriptor. -/
def conn (k : Kernel) (fd : ℤ) : Conn := k.conns (k.connAt fd)

end Kernel

/-! ## The two programs -/

/-- The next call of the client; it gets to `close` with a connection or without one. -/
inductive Pc where
  | socket
  | connect
  | write
  | close (connected : Bool)
  deriving DecidableEq, Repr

/-- The server, the client, and the connections. -/
structure Net (n : ℕ) where
  srv : Flow (Srv n)
  pc : Pc
  kernel : Kernel

/-- The calls of the client, with their results; something arrives; or a pass of the server. -/
inductive Act (n : ℕ) where
  | socket (ok : Bool)
  | connect (ok : Bool)
  | write (ok : Bool)
  | close
  | arrive (id k : ℕ)
  | finish (id : ℕ)
  | pass (a : Answers n)

section Server

variable {n : ℕ}

/-- `select` fails; or it waits until something is readable and reports all of it, `accept` returns a connection, and a
`read` returns what has arrived. -/
def Reports (h : Host) (k : Kernel) (s : Srv n) (a : Answers n) : Prop :=
  Admits s a ∧ (a.nready = -1 ∨ a.nready = a.rfds.card ∧ a.rfds ≠ ∅ ∧ 0 ≤ a.accept ∧
    (∀ fd ∈ s.activeFds, fd ∈ a.rfds ↔ if fd = h.masterSock then k.taken < k.made else (k.conn fd).Readable) ∧
    ∀ i, s.cliSocks i ∈ a.rfds → a.read i = .data ((k.conn (s.cliSocks i)).arrived.take recvMax))

instance (h : Host) (k : Kernel) (s : Srv n) (a : Answers n) : Decidable (Reports h k s a) :=
  inferInstanceAs (Decidable (_ ∧ (_ ∨ _ ∧ _ ∧ _ ∧ _ ∧ _)))

namespace Net

def start (h : Host) : Net n := ⟨.next (.start h), .socket, .start⟩

/-- The client goes on. -/
def goto (net : Net n) (pc : Pc) (k : Kernel) : Net n := { net with pc := pc, kernel := k }

@[simp] theorem goto_pc (net : Net n) (pc : Pc) (k : Kernel) : (net.goto pc k).pc = pc := rfl

@[simp] theorem goto_kernel (net : Net n) (pc : Pc) (k : Kernel) : (net.goto pc k).kernel = k := rfl

/-- The connection that the client made last. -/
def last (net : Net n) : ℕ := net.kernel.made - 1

def step (h : Host) (lag : ℕ) (net : Net n) : Act n → Option (Net n)
  | .socket ok =>
    if net.pc = .socket then some (net.goto (if ok then .connect else .close false) net.kernel) else none
  | .connect true =>
    if net.pc = .connect ∧ ∀ id < net.kernel.made - lag, (net.kernel.conns id).Settled then
      some (net.goto .write { net.kernel with made := net.kernel.made + 1 })
    else none
  | .connect false => if net.pc = .connect then some (net.goto (.close false) net.kernel) else none
  | .write ok =>
    if net.pc = .write then
      some (net.goto (.close true) (if ok then net.kernel.set net.last .write else net.kernel))
    else none
  | .close =>
    match net.pc with
    | .close connected => some (net.goto .socket (if connected then net.kernel.set net.last .close else net.kernel))
    | _ => none
  | .arrive id k =>
    if 0 < k ∧ k ≤ (net.kernel.conns id).onWay.length then
      some { net with kernel := net.kernel.set id (·.arrive k) }
    else none
  | .finish id =>
    if (net.kernel.conns id).closed = true ∧ (net.kernel.conns id).onWay = [] then
      some { net with kernel := net.kernel.set id .finish }
    else none
  | .pass a =>
    match net.srv with
    | .next s =>
      if Reports h net.kernel s a then
        some { net with srv := (s.body h a).loopBack, kernel := net.kernel.calls (s.body h a).state.evs }
      else none
    | _ => none

end Net

end Server

/-- The client with a server of `n` slots. -/
def exchange (h : Host) (n lag : ℕ) : System (Net n) (Act n) := ⟨.start h, Net.step h lag⟩

/-- **No message is lost**: when the server closes a connection, it has read what was written there. -/
def AllHeard (h : Host) (n lag : ℕ) : Prop :=
  ∀ net, (exchange h n lag).Reachable net → ∀ id, (net.kernel.conns id).dropped = true →
    (net.kernel.conns id).got = (net.kernel.conns id).written

end NetProg.Exchange
