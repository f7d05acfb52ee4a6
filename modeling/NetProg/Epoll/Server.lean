/-
# NetProg.Epoll.Server -- `C/epoll_server.c`: the event loop over an edge-triggered kernel.

The server waits for the edges of its listening socket and of the accepted connections, and handles the
events of a batch one after the other: it closes a descriptor that is reported with an error, accepts at
the listening socket until `accept` fails, and reads from a connection until `read` does.  `Pc` is the
next call to the kernel, with the event in hand and the rest of the batch; `Answer` is what that call
returns.  Between any two calls, connections and input may arrive (`Arrival`).

The kernel sets the edge of a registered descriptor on every arrival there, and on EPOLL_CTL_ADD if input
is queued already; `epoll_wait` returns at most `MAXEVENTS` of the flagged descriptors, in any order and
with any event bits, and clears their edges.  `accept` returns some number that is not open.

Beside what the code keeps: an `id` for each connection, in the order of their arrival, and with each
event what its descriptor stood for when it was reported (`src`).  `getnameinfo` and the lines that are
printed when a connection comes or goes are left out.
-/
import Mathlib.Logic.Function.Basic
import Mathlib.Data.List.Nodup
import NetProg.Base.System

namespace NetProg.EpollServer

/-- A descriptor. -/
abbrev Fd := ℕ

/-- `MAXEVENTS`. -/
def maxEvents : ℕ := 64

/-- `sizeof buf`. -/
def bufSize : ℕ := 512

/-- `errno`, where EWOULDBLOCK is EAGAIN. -/
inductive Errno where
  | again
  | intr
  | connAborted
  | mfile
  | other
  deriving DecidableEq, Repr

/-! ## Sockets -/

/-- What may arrive on a connection. -/
inductive Input where
  | data (bytes : List UInt8)
  | eof
  deriving DecidableEq, Repr

/-- The receiving side of a connection: the bytes that were not read yet, and whether an end of file
follows them. -/
structure Sock where
  id : ℕ
  input : List UInt8
  eof : Bool
  deriving DecidableEq, Repr

namespace Sock

/-- There are bytes or an end of file to be read. -/
def unread (k : Sock) : Bool := !k.input.isEmpty || k.eof

/-- Nothing follows an end of file. -/
def MayReceive (k : Sock) : Input → Prop
  | .data bytes => bytes ≠ [] ∧ k.eof = false
  | .eof => k.eof = false

instance (k : Sock) : (i : Input) → Decidable (k.MayReceive i)
  | .data bytes => inferInstanceAs (Decidable (bytes ≠ [] ∧ k.eof = false))
  | .eof => inferInstanceAs (Decidable (k.eof = false))

def receive (k : Sock) : Input → Sock
  | .data bytes => { k with input := k.input ++ bytes }
  | .eof => { k with eof := true }

/-- `read` may return `n`: zero at the end of file, otherwise at most what fits and what is there. -/
def MayCount (k : Sock) (n : ℕ) : Prop :=
  if n = 0 then k.input = [] ∧ k.eof = true else n ≤ bufSize ∧ n ≤ k.input.length

instance (k : Sock) (n : ℕ) : Decidable (k.MayCount n) :=
  inferInstanceAs (Decidable (if n = 0 then _ else _))

@[simp] theorem receive_id (k : Sock) (i : Input) : (k.receive i).id = k.id := by cases i <;> rfl

end Sock

/-- An accepted connection, as the kernel sees it: its edge, and whether epoll watches it. -/
structure Conn where
  sock : Sock
  edge : Bool
  added : Bool
  deriving DecidableEq, Repr

namespace Conn

/-- Something other than input is to be reported. -/
def hangup (c : Conn) : Conn := { c with edge := c.edge || c.added }

def receive (c : Conn) (i : Input) : Conn := { c.hangup with sock := c.sock.receive i }

/-- EPOLL_CTL_ADD. -/
def watch (c : Conn) : Conn := { c with added := true, edge := c.sock.unread }

/-- `epoll_wait` returned the descriptor. -/
def reported (c : Conn) : Conn := { c with edge := false }

/-- `read` took `n` bytes. -/
def drop (c : Conn) (n : ℕ) : Conn := { c with sock := { c.sock with input := c.sock.input.drop n } }

@[simp] theorem hangup_sock (c : Conn) : c.hangup.sock = c.sock := rfl
@[simp] theorem hangup_added (c : Conn) : c.hangup.added = c.added := rfl
@[simp] theorem receive_added (c : Conn) (i : Input) : (c.receive i).added = c.added := rfl
@[simp] theorem receive_edge (c : Conn) (i : Input) : (c.receive i).edge = c.hangup.edge := rfl
@[simp] theorem watch_sock (c : Conn) : c.watch.sock = c.sock := rfl
@[simp] theorem watch_edge (c : Conn) : c.watch.edge = c.sock.unread := rfl
@[simp] theorem watch_added (c : Conn) : c.watch.added = true := rfl
@[simp] theorem reported_sock (c : Conn) : c.reported.sock = c.sock := rfl
@[simp] theorem reported_edge (c : Conn) : c.reported.edge = false := rfl
@[simp] theorem reported_added (c : Conn) : c.reported.added = c.added := rfl
@[simp] theorem drop_edge (c : Conn) (n : ℕ) : (c.drop n).edge = c.edge := rfl
@[simp] theorem drop_added (c : Conn) (n : ℕ) : (c.drop n).added = c.added := rfl
@[simp] theorem receive_id (c : Conn) (i : Input) : (c.receive i).sock.id = c.sock.id :=
  c.sock.receive_id i
@[simp] theorem drop_id (c : Conn) (n : ℕ) : (c.drop n).sock.id = c.sock.id := rfl

end Conn

/-! ## Events and the program counter -/

/-- The bits of `events[i].events` that the code looks at. -/
structure Mask where
  epollErr : Bool
  epollHup : Bool
  epollIn : Bool
  deriving DecidableEq, Repr

/-- The condition of the first branch. -/
def Mask.isError (m : Mask) : Bool := m.epollErr || m.epollHup || !m.epollIn

/-- What an open descriptor stands for. -/
inductive Target where
  | listener
  | conn (id : ℕ)
  deriving DecidableEq, Repr

/-- `events[i]`, with what the descriptor stood for when it was reported. -/
structure Event where
  fd : Fd
  events : Mask
  src : Option Target
  deriving DecidableEq, Repr

/-- The next call, the event in hand, and the rest of the batch. -/
inductive Pc where
  | register
  | wait
  | event (e : Event) (rest : List Event)
  | accept (e : Event) (rest : List Event)
  | nonBlocking (e : Event) (infd : Fd) (rest : List Event)
  | add (e : Event) (infd : Fd) (rest : List Event)
  | read (e : Event) (rest : List Event)
  | write (e : Event) (id : ℕ) (buf : List UInt8) (rest : List Event)
  | close (e : Event) (rest : List Event)
  deriving DecidableEq, Repr

namespace Pc

/-- The `for` loop goes on to the next event. -/
def next : List Event → Pc
  | [] => wait
  | e :: rest => event e rest

/-- The listening socket was added to the epoll instance. -/
def registered : Pc → Bool
  | register => false
  | _ => true

end Pc

/-- What the program received, wrote to standard output, closed, and complained about, oldest first. -/
inductive LogEv where
  | received (id : ℕ) (i : Input)
  | displayed (id : ℕ) (bytes : List UInt8)
  | epollError
  | acceptFailed (n : Errno)
  | readFailed (src : Option Target) (n : Errno)
  | closed (src : Option Target)
  deriving DecidableEq, Repr

/-! ## The server -/

/-- The kernel's side of the listening socket and of the connections, the program counter, whether
`abort` was called, and the log.  `edge` is the edge of the listening socket. -/
structure Srv where
  listening : Bool
  edge : Bool
  backlog : List Sock
  conns : Fd → Option Conn
  made : ℕ
  pc : Pc
  aborted : Bool
  log : List LogEv

/-- What happens outside: a client connects; a queued connection is given up, or receives something; an
accepted one receives something, or has an error. -/
inductive Arrival where
  | connect
  | abandon (i : ℕ)
  | queued (i : ℕ) (inp : Input)
  | input (fd : Fd) (inp : Input)
  | hangup (fd : Fd)
  deriving DecidableEq, Repr

/-- What the next call returns: success or failure of `fcntl`, `epoll_ctl` and `close`; the batch of
`epoll_wait`, which is empty when it was interrupted; the descriptor, the count or the error of `accept`,
`read` and `write`. -/
inductive Answer where
  | ok
  | fails
  | ready (rs : List (Fd × Mask))
  | accepted (fd : Fd)
  | count (n : ℕ)
  | errno (n : Errno)
  deriving DecidableEq, Repr

inductive Ev where
  | arrives (a : Arrival)
  | runs (a : Answer)
  deriving DecidableEq, Repr

namespace Srv

/-- `listen` has succeeded. -/
def start : Srv where
  listening := true
  edge := false
  backlog := []
  conns := fun _ => none
  made := 0
  pc := .register
  aborted := false
  log := []

def goto (s : Srv) (pc : Pc) : Srv := { s with pc := pc }

def abort (s : Srv) : Srv := { s with aborted := true }

def logs (s : Srv) (es : List LogEv) : Srv := { s with log := s.log ++ es }

def setConn (s : Srv) (fd : Fd) (c : Option Conn) : Srv :=
  { s with conns := Function.update s.conns fd c }

/-- What `fd` stands for now. -/
def owner (sfd : Fd) (s : Srv) (fd : Fd) : Option Target :=
  if s.listening = true ∧ fd = sfd then some .listener
  else (s.conns fd).map fun c => .conn c.sock.id

/-- The edge of `fd` is set. -/
def flagged (sfd : Fd) (s : Srv) (fd : Fd) : Bool :=
  if s.listening = true ∧ fd = sfd then s.edge
  else (s.conns fd).any fun c => c.added && c.edge

/-! ### Arrivals -/

def connect (s : Srv) : Srv :=
  { s with
    backlog := s.backlog ++ [⟨s.made, [], false⟩]
    edge := s.edge || s.pc.registered
    made := s.made + 1 }

def arrives (s : Srv) : Arrival → Option Srv
  | .connect => if s.listening = true then some s.connect else none
  | .abandon i =>
    if i < s.backlog.length then some { s with backlog := s.backlog.eraseIdx i } else none
  | .queued i inp =>
    match s.backlog[i]? with
    | some k =>
      if k.MayReceive inp then
        some ({ s with backlog := s.backlog.set i (k.receive inp) }.logs [.received k.id inp])
      else none
    | none => none
  | .input fd inp =>
    match s.conns fd with
    | some c =>
      if c.sock.MayReceive inp then
        some ((s.setConn fd (some (c.receive inp))).logs [.received c.sock.id inp])
      else none
    | none => none
  | .hangup fd =>
    match s.conns fd with
    | some c => some (s.setConn fd (some c.hangup))
    | none => none

/-! ### Calls -/

/-- `epoll_wait` may return `rs`. -/
def MayReport (sfd : Fd) (s : Srv) (rs : List (Fd × Mask)) : Prop :=
  (rs.map Prod.fst).Nodup ∧ rs.length ≤ maxEvents ∧ ∀ r ∈ rs, s.flagged sfd r.1 = true

instance (sfd : Fd) (s : Srv) (rs : List (Fd × Mask)) : Decidable (s.MayReport sfd rs) :=
  inferInstanceAs (Decidable (_ ∧ _))

/-- `epoll_wait` returns `rs`. -/
def report (sfd : Fd) (s : Srv) (rs : List (Fd × Mask)) : Srv :=
  { s with
    edge := s.edge && !(rs.map Prod.fst).contains sfd
    conns := fun fd =>
      if fd ∈ rs.map Prod.fst then (s.conns fd).map Conn.reported else s.conns fd
    pc := .next (rs.map fun r => ⟨r.1, r.2, s.owner sfd r.1⟩) }

/-- The three branches over `events[i]`. -/
def dispatch (sfd : Fd) (s : Srv) (e : Event) (rest : List Event) : Srv :=
  if e.events.isError then (s.goto (.close e rest)).logs [.epollError]
  else if sfd = e.fd then s.goto (.accept e rest)
  else s.goto (.read e rest)

/-- The number is not open. -/
def Free (sfd : Fd) (s : Srv) (fd : Fd) : Prop :=
  ¬ (s.listening = true ∧ fd = sfd) ∧ s.conns fd = none

instance (sfd : Fd) (s : Srv) (fd : Fd) : Decidable (s.Free sfd fd) :=
  inferInstanceAs (Decidable (_ ∧ _))

/-- `accept` returns `fd` for the oldest connection `k` of the backlog. -/
def accepted (s : Srv) (e : Event) (fd : Fd) (k : Sock) (queue : List Sock) (rest : List Event) : Srv :=
  ({ s with backlog := queue }.setConn fd (some ⟨k, false, false⟩)).goto (.nonBlocking e fd rest)

/-- `accept` returns -1: the loop is left on every error. -/
def acceptFailed (s : Srv) (n : Errno) (rest : List Event) : Srv :=
  if n = .again then s.goto (.next rest)
  else (s.goto (.next rest)).logs [.acceptFailed n]

/-- `epoll_ctl (efd, EPOLL_CTL_ADD, infd, &event)`. -/
def watch (s : Srv) (infd : Fd) : Srv := s.setConn infd ((s.conns infd).map Conn.watch)

/-- `read` returns `n` for the connection `c`. -/
def readCount (s : Srv) (e : Event) (c : Conn) (n : ℕ) (rest : List Event) : Srv :=
  if n = 0 then s.goto (.close e rest)
  else
    (s.setConn e.fd (some (c.drop n))).goto (.write e c.sock.id (c.sock.input.take n) rest)

/-- `read` returns -1: only EAGAIN means that all is read. -/
def readFailed (sfd : Fd) (s : Srv) (e : Event) (n : Errno) (rest : List Event) : Srv :=
  if n = .again then s.goto (.next rest)
  else (s.goto (.close e rest)).logs [.readFailed (s.owner sfd e.fd) n]

/-- `close (fd)`. -/
def closeFd (sfd : Fd) (s : Srv) (fd : Fd) : Srv :=
  if s.listening = true ∧ fd = sfd then { s with listening := false, edge := false, backlog := [] }
  else s.setConn fd none

/-- One call, with its answer. -/
def runs (sfd : Fd) (s : Srv) (a : Answer) : Option Srv :=
  if s.aborted then none
  else
    match s.pc, a with
    | .register, .ok => some ({ s with edge := !s.backlog.isEmpty }.goto .wait)
    | .register, .fails => some s.abort
    | .wait, .ready rs => if s.MayReport sfd rs then some (s.report sfd rs) else none
    | .event e rest, .ok => some (s.dispatch sfd e rest)
    | .accept e rest, .accepted fd =>
      match s.backlog with
      | k :: queue => if s.Free sfd fd then some (s.accepted e fd k queue rest) else none
      | [] => none
    | .accept _ rest, .errno n =>
      -- an empty backlog is the only reason for EAGAIN
      if n = .again → s.backlog = [] then some (s.acceptFailed n rest) else none
    | .nonBlocking e infd rest, .ok => some (s.goto (.add e infd rest))
    | .nonBlocking _ _ _, .fails => some s.abort
    | .add e infd rest, .ok => some ((s.watch infd).goto (.accept e rest))
    | .add _ _ _, .fails => some s.abort
    | .read e rest, .count n =>
      match s.conns e.fd with
      | some c => if c.sock.MayCount n then some (s.readCount e c n rest) else none
      | none => none
    | .read e rest, .errno n =>
      -- nothing to read is the only reason for EAGAIN
      if n = .again → (s.conns e.fd).any (fun c => !c.sock.unread) then
        some (s.readFailed sfd e n rest)
      else none
    | .write e id buf rest, .count n =>
      -- a short count is not looked at
      if n ≤ buf.length then some ((s.goto (.read e rest)).logs [.displayed id (buf.take n)])
      else none
    | .write _ _ _ _, .errno _ => some s.abort
    | .close e rest, .ok =>
      some (((s.closeFd sfd e.fd).goto (.next rest)).logs [.closed (s.owner sfd e.fd)])
    | _, _ => none

def step (sfd : Fd) (s : Srv) : Ev → Option Srv
  | .arrives a => s.arrives a
  | .runs a => s.runs sfd a

end Srv

/-- The server from the end of `listen` on, where `sfd` is its listening socket. -/
def server (sfd : Fd) : System Srv Ev := ⟨Srv.start, Srv.step sfd⟩

/-- The next call is `fcntl` or `epoll_ctl`. -/
def Pc.setsUp : Pc → Bool
  | .register | .nonBlocking _ _ _ | .add _ _ _ => true
  | _ => false

/-- The steps, as a relation. -/
inductive Srv.Step (sfd : Fd) (s : Srv) : Ev → Srv → Prop where
  | connect (hopen : s.listening = true) : Step sfd s (.arrives .connect) s.connect
  | abandon {i} (hi : i < s.backlog.length) :
      Step sfd s (.arrives (.abandon i)) { s with backlog := s.backlog.eraseIdx i }
  | queued {i inp k} (hk : s.backlog[i]? = some k) (hmay : k.MayReceive inp) :
      Step sfd s (.arrives (.queued i inp))
        ({ s with backlog := s.backlog.set i (k.receive inp) }.logs [.received k.id inp])
  | input {fd inp c} (hc : s.conns fd = some c) (hmay : c.sock.MayReceive inp) :
      Step sfd s (.arrives (.input fd inp))
        ((s.setConn fd (some (c.receive inp))).logs [.received c.sock.id inp])
  | hangup {fd c} (hc : s.conns fd = some c) :
      Step sfd s (.arrives (.hangup fd)) (s.setConn fd (some c.hangup))
  | register (halive : s.aborted = false) (hpc : s.pc = .register) :
      Step sfd s (.runs .ok) ({ s with edge := !s.backlog.isEmpty }.goto .wait)
  | abort (halive : s.aborted = false) (hpc : s.pc.setsUp = true) : Step sfd s (.runs .fails) s.abort
  | report {rs} (halive : s.aborted = false) (hpc : s.pc = .wait) (hmay : s.MayReport sfd rs) :
      Step sfd s (.runs (.ready rs)) (s.report sfd rs)
  | dispatch {e rest} (halive : s.aborted = false) (hpc : s.pc = .event e rest) :
      Step sfd s (.runs .ok) (s.dispatch sfd e rest)
  | accepted {e rest fd k queue} (halive : s.aborted = false) (hpc : s.pc = .accept e rest)
      (hqueue : s.backlog = k :: queue) (hfree : s.Free sfd fd) :
      Step sfd s (.runs (.accepted fd)) (s.accepted e fd k queue rest)
  | acceptFailed {e rest n} (halive : s.aborted = false) (hpc : s.pc = .accept e rest)
      (hn : n = .again → s.backlog = []) :
      Step sfd s (.runs (.errno n)) (s.acceptFailed n rest)
  | nonBlocking {e infd rest} (halive : s.aborted = false) (hpc : s.pc = .nonBlocking e infd rest) :
      Step sfd s (.runs .ok) (s.goto (.add e infd rest))
  | watch {e infd rest} (halive : s.aborted = false) (hpc : s.pc = .add e infd rest) :
      Step sfd s (.runs .ok) ((s.watch infd).goto (.accept e rest))
  | readCount {e rest c n} (halive : s.aborted = false) (hpc : s.pc = .read e rest)
      (hc : s.conns e.fd = some c) (hn : c.sock.MayCount n) :
      Step sfd s (.runs (.count n)) (s.readCount e c n rest)
  | readFailed {e rest n} (halive : s.aborted = false) (hpc : s.pc = .read e rest)
      (hn : n = .again → (s.conns e.fd).any (fun c => !c.sock.unread) = true) :
      Step sfd s (.runs (.errno n)) (s.readFailed sfd e n rest)
  | write {e id buf rest n} (halive : s.aborted = false) (hpc : s.pc = .write e id buf rest)
      (hn : n ≤ buf.length) :
      Step sfd s (.runs (.count n)) ((s.goto (.read e rest)).logs [.displayed id (buf.take n)])
  | writeFailed {e id buf rest n} (halive : s.aborted = false) (hpc : s.pc = .write e id buf rest) :
      Step sfd s (.runs (.errno n)) s.abort
  | close {e rest} (halive : s.aborted = false) (hpc : s.pc = .close e rest) :
      Step sfd s (.runs .ok)
        (((s.closeFd sfd e.fd).goto (.next rest)).logs [.closed (s.owner sfd e.fd)])

theorem Srv.arrives_step {sfd : Fd} {s s' : Srv} {a : Arrival} (h : s.arrives a = some s') :
    s.Step sfd (.arrives a) s' := by
  cases a with
  | connect =>
    simp only [arrives] at h
    split at h <;> cases h
    exact .connect ‹_›
  | abandon i =>
    simp only [arrives] at h
    split at h <;> cases h
    exact .abandon ‹_›
  | queued i inp =>
    simp only [arrives] at h
    split at h
    · split at h <;> cases h
      exact .queued ‹_› ‹_›
    · cases h
  | input fd inp =>
    simp only [arrives] at h
    split at h
    · split at h <;> cases h
      exact .input ‹_› ‹_›
    · cases h
  | hangup fd =>
    simp only [arrives] at h
    split at h <;> cases h
    exact .hangup ‹_›

theorem Srv.runs_step {sfd : Fd} {s s' : Srv} {a : Answer} (h : s.runs sfd a = some s') :
    s.Step sfd (.runs a) s' := by
  simp only [runs] at h
  split at h
  · cases h
  · have halive : s.aborted = false := by simpa using ‹¬ s.aborted = true›
    split at h
    · cases h
      exact .register halive ‹_›
    · cases h
      exact .abort halive (by simp [*, Pc.setsUp])
    · split at h <;> cases h
      exact .report halive ‹_› ‹_›
    · cases h
      exact .dispatch halive ‹_›
    · split at h
      · split at h <;> cases h
        exact .accepted halive ‹_› ‹_› ‹_›
      · cases h
    · split at h <;> cases h
      exact .acceptFailed halive ‹_› ‹_›
    · cases h
      exact .nonBlocking halive ‹_›
    · cases h
      exact .abort halive (by simp [*, Pc.setsUp])
    · cases h
      exact .watch halive ‹_›
    · cases h
      exact .abort halive (by simp [*, Pc.setsUp])
    · split at h
      · split at h <;> cases h
        exact .readCount halive ‹_› ‹_› ‹_›
      · cases h
    · split at h <;> cases h
      exact .readFailed halive ‹_› ‹_›
    · split at h <;> cases h
      exact .write halive ‹_› ‹_›
    · cases h
      exact .writeFailed halive ‹_›
    · cases h
      exact .close halive ‹_›
    · cases h

/-- What one step can do. -/
theorem Srv.step_cases {sfd : Fd} {s s' : Srv} {e : Ev} (h : (server sfd).step s e = some s') :
    s.Step sfd e s' := by
  cases e with
  | arrives a => exact arrives_step h
  | runs a => exact runs_step h

end NetProg.EpollServer
