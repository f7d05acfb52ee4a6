/-
# NetProg.Python.SelectServer -- `Python/select_server.py`.

The server keeps its sockets in `inputs`, those with a pending answer in `outputs`, and a queue of messages
for each connection in `msg_queue`.  A pass handles the three lists that `select` returned, one after the
other; the second and the third may still name a socket that the first loop closed.

Sockets are objects, numbered in the order in which they were made; `master_socket` is the first one.  The
kernel's answers of a pass come with its lists.  Whatever raises ends the program, since only `queue.Empty`
is caught.  Modelled beside the globals: which sockets were closed, and the log of what was received and
sent, and of what was still queued when a queue was deleted.  `upper` is what `str.upper` makes of one
character; what `print` writes is left out, but not the `getpeername` calls in its arguments, which may raise.
-/
import Mathlib.Logic.Function.Basic
import NetProg.Base.ForLoop
import NetProg.Base.Loop
import NetProg.Base.Utf8

namespace NetProg.PySelectServer

/-! ## Sockets, exceptions and answers -/

/-- A socket object. -/
abbrev Sock := ℕ

/-- `master_socket`. -/
def masterSocket : Sock := 0

/-- What a pass may raise: a missing key of `msg_queue`, a `remove` of an absent element, a call on a
closed socket, bytes that do not decode, or a call that the kernel refuses. -/
inductive Exn where
  | keyError
  | valueError
  | closedSocket
  | decodeError (s : Sock)
  | osError
  deriving DecidableEq, Repr

namespace Exn

/-- The server failed on its own bookkeeping. -/
def isOwn : Exn → Bool
  | keyError | valueError | closedSocket => true
  | decodeError _ | osError => false

/-- The name in the traceback. -/
def name : Exn → String
  | keyError => "KeyError"
  | valueError => "ValueError"
  | closedSocket | osError => "OSError"
  | decodeError _ => "UnicodeDecodeError"

end Exn

/-- The answers for a readable socket: whether `accept` or `recv` succeeds, what `recv` returns, and
whether `getpeername` succeeds. -/
structure ReadAns where
  ok : Bool
  data : List UInt8
  peer : Bool
  deriving DecidableEq, Repr

/-- The answers for a writable socket: whether `getpeername` succeeds, and the count that `send` returns. -/
structure WriteAns where
  peer : Bool
  sent : Option ℕ
  deriving DecidableEq, Repr

/-- What `select` returns, with the answers of the pass; for an exceptional socket that is whether
`getpeername` succeeds. -/
structure Ready where
  readable : List (Sock × ReadAns)
  writable : List (Sock × WriteAns)
  exceptional : List (Sock × Bool)
  deriving DecidableEq, Repr

/-! ## The server -/

/-- What was received and sent, oldest first; the kernel took the first `count` bytes of a sent message.  `deleted`
is the end of a queue, with the messages in it. -/
inductive Call where
  | received (s : Sock) (data : List UInt8) (text : List Char)
  | sent (s : Sock) (msg : List UInt8) (count : ℕ)
  | deleted (s : Sock) (q : List (List Char))
  deriving DecidableEq, Repr

/-- The globals, how many sockets were made, which ones were closed, and the log. -/
structure Server where
  inputs : List Sock
  outputs : List Sock
  msgQueue : Sock → Option (List (List Char))
  made : ℕ
  closed : List Sock
  log : List Call

namespace Server

/-- `inputs.append (master_socket)` was done. -/
def start : Server where
  inputs := [masterSocket]
  outputs := []
  msgQueue := fun _ => none
  made := 1
  closed := []
  log := []

/-- A call on a socket, which raises if it was closed or if the kernel refuses. -/
def call (s : Server) (c : Sock) (ok : Bool) : Except Exn Unit :=
  if c ∈ s.closed then .error .closedSocket
  else if ok then .ok ()
  else .error .osError

/-- `inputs.append (conn)` and `msg_queue[conn] = queue.Queue ()`, for a new `conn`. -/
def addConn (s : Server) : Server :=
  { s with
    inputs := s.inputs ++ [s.made]
    msgQueue := Function.update s.msgQueue s.made (some [])
    made := s.made + 1 }

/-- `inputs.remove (s)`. -/
def removeInput (s : Server) (c : Sock) : Except Exn Server :=
  if c ∈ s.inputs then .ok { s with inputs := s.inputs.erase c } else .error .valueError

/-- `outputs.remove (s)`. -/
def removeOutput (s : Server) (c : Sock) : Except Exn Server :=
  if c ∈ s.outputs then .ok { s with outputs := s.outputs.erase c } else .error .valueError

/-- `if s in outputs: outputs.remove (s)`. -/
def dropOutput (s : Server) (c : Sock) : Server := { s with outputs := s.outputs.erase c }

/-- `if s not in outputs: outputs.append (s)`. -/
def addOutput (s : Server) (c : Sock) : Server :=
  if c ∈ s.outputs then s else { s with outputs := s.outputs ++ [c] }

/-- `s.close ()`. -/
def close (s : Server) (c : Sock) : Server := { s with closed := s.closed ++ [c] }

/-- `del msg_queue[s]`. -/
def delQueue (s : Server) (c : Sock) : Except Exn Server :=
  match s.msgQueue c with
  | none => .error .keyError
  | some q => .ok { s with msgQueue := Function.update s.msgQueue c none, log := s.log ++ [.deleted c q] }

/-- `msg_queue[s].put (data)`, for the bytes that `recv` returned and their text. -/
def put (s : Server) (c : Sock) (data : List UInt8) (text : List Char) : Except Exn Server :=
  match s.msgQueue c with
  | none => .error .keyError
  | some q =>
    .ok { s with
      msgQueue := Function.update s.msgQueue c (some (q ++ [text]))
      log := s.log ++ [.received c data text] }

/-- `get_nowait ()` took the head of the queue, and the kernel accepted `count` bytes of `msg`. -/
def sends (s : Server) (c : Sock) (q : List (List Char)) (msg : List UInt8) (count : ℕ) : Server :=
  { s with
    msgQueue := Function.update s.msgQueue c (some q)
    log := s.log ++ [.sent c msg count] }

end Server

/-! ## The three loops -/

/-- The body of `for s in readable`. -/
def onReadable (s : Server) (r : Sock × ReadAns) : Except Exn Server :=
  if r.1 = masterSocket then do
    s.call r.1 r.2.ok
    return s.addConn
  else do
    s.call r.1 r.2.ok
    match decode r.2.data with
    | none => throw (.decodeError r.1)
    | some [] => do
      s.call r.1 r.2.peer
      let t ← (s.dropOutput r.1).removeInput r.1
      (t.close r.1).delQueue r.1
    | some (x :: text) => do
      s.call r.1 r.2.peer
      let t ← s.put r.1 r.2.data (x :: text)
      return t.addOutput r.1

/-- The body of `for s in writable`. -/
def onWritable (upper : Char → List Char) (s : Server) (w : Sock × WriteAns) : Except Exn Server :=
  match s.msgQueue w.1 with
  | none => throw .keyError
  | some [] => do
    s.call w.1 w.2.peer
    s.removeOutput w.1
  | some (msg :: q) => do
    s.call w.1 w.2.peer
    s.call w.1 w.2.sent.isSome
    return s.sends w.1 q (encode (msg.flatMap upper)) (w.2.sent.getD 0)

/-- The body of `for s in exceptional`. -/
def onExceptional (s : Server) (x : Sock × Bool) : Except Exn Server := do
  s.call x.1 x.2
  let t ← s.removeInput x.1
  ((t.dropOutput x.1).close x.1).delQueue x.1

/-- One pass of the three loops. -/
def pass (upper : Char → List Char) (s : Server) (e : Ready) : Except Exn Server := do
  let s₁ ← e.readable.foldlM onReadable s
  let s₂ ← e.writable.foldlM (onWritable upper) s₁
  e.exceptional.foldlM onExceptional s₂

/-- The body of `while inputs`; three empty lists are a timeout. -/
def body (upper : Char → List Char) (s : Server) (e : Ready) : Flow Server :=
  if s.inputs = [] then .ret s
  else if e.readable = [] ∧ e.writable = [] ∧ e.exceptional = [] then .ret s
  else
    match pass upper s e with
    | .ok t => .next t
    | .error x => .exit x.name s

/-- What `select` may return: distinct sockets of the lists it was given, the exceptional ones
connections; `recv (1024)` returns no more than that. -/
def Admits (s : Server) (e : Ready) : Prop :=
  ((e.readable.map Prod.fst).Nodup ∧ ∀ r ∈ e.readable, r.1 ∈ s.inputs ∧ r.2.data.length ≤ 1024) ∧
    ((e.writable.map Prod.fst).Nodup ∧ ∀ w ∈ e.writable, w.1 ∈ s.outputs) ∧
    ((e.exceptional.map Prod.fst).Nodup ∧
      ∀ x ∈ e.exceptional, x.1 ∈ s.inputs ∧ x.1 ≠ masterSocket)

instance (s : Server) (e : Ready) : Decidable (Admits s e) :=
  inferInstanceAs (Decidable ((_ ∧ _) ∧ (_ ∧ _) ∧ (_ ∧ _)))

/-- `main`. -/
def selectServer (upper : Char → List Char) : System (Flow Server) Ready :=
  whileLoop (body upper) Admits Server.start

end NetProg.PySelectServer
