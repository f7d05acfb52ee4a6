/-
# NetProg.Server.SelectSrvBetter -- `C/select_srv_better.c` and its copy `ameba/tcp_select_server.c`.

Both programs keep the connected clients in `cli_socks`, remember the highest slot ever used in `maxi`,
and watch `active_fds`.  A pass copies `active_fds` to `rfds`, calls `select`, accepts at most one
connection, and then scans the slots up to `maxi`, counting the ready descriptors down in `nready` so
that it can stop early.  The two `main`s differ in their printing only, so one body serves both.

Modelled beside the locals: the descriptors the process has open (`opened`), and the log `evs` of the
current pass.  An `fd_set` is a finite set of descriptors.  `FD_SET` of a negative descriptor, which the
code reaches when `accept` fails while a slot is free, is undefined behaviour.  What `recv_buf` holds is
only printed, and so left out with the other printing.
-/
import NetProg.Base.Loop
import NetProg.Server.Descriptors

namespace NetProg.SelectSrvBetter

/-! ## The kernel's side -/

/-- The kernel's answers in one pass; `read i` answers the read made for slot `i`. -/
structure Answers (n : ℕ) where
  nready : ℤ
  rfds : Finset ℤ
  accept : ℤ
  read : Fin n → ReadAnswer

/-- What a pass does to descriptors, sets and the table. -/
inductive Ev (n : ℕ) where
  | accept (fd : ℤ)
  | close (fd : ℤ)
  | fdSet (fd : ℤ)
  | fdClr (fd : ℤ)
  | fdIsset (fd : ℤ)
  | read (fd : ℤ) (ans : ReadAnswer)
  | setSlot (i : Fin n) (fd : ℤ)
  deriving DecidableEq

/-! ## The server -/

/-- The locals of `main` that outlive a statement, the open descriptors, and the log of the pass. -/
structure Srv (n : ℕ) where
  cliSocks : Fin n → ℤ
  maxi : ℤ
  nready : ℤ
  maxSd : ℤ
  rfds : Finset ℤ
  activeFds : Finset ℤ
  opened : Finset ℤ
  evs : List (Ev n)

namespace Srv

variable {n : ℕ}

def log (s : Srv n) (e : Ev n) : Srv n := { s with evs := s.evs ++ [e] }

/-- `close (fd)`; closing a descriptor that is not open changes nothing. -/
def close (s : Srv n) (fd : ℤ) : Srv n := { s with opened := s.opened.erase fd }.log (.close fd)

/-- `cli_socks[i] = fd`. -/
def setSlot (s : Srv n) (i : Fin n) (fd : ℤ) : Srv n :=
  { s with cliSocks := Function.update s.cliSocks i fd }.log (.setSlot i fd)

/-- `FD_SET (fd, &active_fds)`. -/
def fdSet (s : Srv n) (fd : ℤ) : Srv n :=
  { s with activeFds := insert fd s.activeFds }.log (.fdSet fd)

/-- `FD_CLR (fd, &active_fds)`. -/
def fdClr (s : Srv n) (fd : ℤ) : Srv n :=
  { s with activeFds := s.activeFds.erase fd }.log (.fdClr fd)

/-- The locals at the first loop head. -/
def start (h : Host) : Srv n where
  cliSocks := fun _ => -1
  maxi := -1
  nready := 0
  maxSd := h.masterSock
  rfds := ∅
  activeFds := {h.masterSock}
  opened := h.initial
  evs := []

/-- `rfds = active_fds; nready = select (max_sd + 1, &rfds, NULL, NULL, NULL)`. -/
def select (s : Srv n) (a : Answers n) : Srv n :=
  { s with rfds := a.rfds, nready := a.nready, evs := [] }

/-- `new_sock = accept (master_sock, ...)`, and the `close (new_sock)` that follows a failure. -/
def accept (s : Srv n) (newSock : ℤ) : Srv n :=
  if newSock < 0 then (s.log (.accept newSock)).close newSock
  else { s with opened := insert newSock s.opened }.log (.accept newSock)

/-- `if (i > maxi) maxi = i;` and `if (new_sock > max_sd) max_sd = new_sock;`. -/
def raise (s : Srv n) (i : Fin n) (newSock : ℤ) : Srv n :=
  { s with
    maxi := if s.maxi < i then i else s.maxi
    maxSd := if s.maxSd < newSock then newSock else s.maxSd }

/-- From the `accept` to the table-full test: the connection goes into the first free slot, or is
closed again when there is none. -/
def register (s : Srv n) (newSock : ℤ) : Flow (Srv n) :=
  match SlotTable.firstSlot (fun fd => decide (fd < 0)) s.cliSocks with
  | some i =>
    -- a failed `accept` is not told apart: -1 is stored, and `FD_SET (-1, ...)` follows
    if newSock < 0 then .undef (((s.accept newSock).setSlot i newSock).log (.fdSet newSock))
    else .next ((((s.accept newSock).setSlot i newSock).fdSet newSock).raise i newSock)
  | none => .again ((s.accept newSock).close newSock)

/-- `--nready`. -/
def decr (s : Srv n) : Srv n := { s with nready := s.nready - 1 }

/-- `if (--nready <= 0) continue;`. -/
def countDown (s : Srv n) : Flow (Srv n) :=
  if s.decr.nready ≤ 0 then .again s.decr else .next s.decr

/-- The block under `FD_ISSET (master_sock, &rfds)`. -/
def listener (h : Host) (s : Srv n) (newSock : ℤ) : Flow (Srv n) :=
  if h.masterSock ∈ s.rfds then ((s.log (.fdIsset h.masterSock)).register newSock).andThen countDown
  else .next (s.log (.fdIsset h.masterSock))

/-- The read for a ready client, and what follows end of file or an error. -/
def serve (s : Srv n) (i : Fin n) (ans : ReadAnswer) : Srv n :=
  let sockfd := s.cliSocks i
  let s := s.log (.read sockfd ans)
  if ans.gone then ((s.close sockfd).fdClr sockfd).setSlot i (-1) else s

/-- `FD_ISSET (cli_socks[i], &rfds)`; the answer is `cli_socks[i] ∈ rfds`. -/
def isset (s : Srv n) (i : Fin n) : Srv n := s.log (.fdIsset (s.cliSocks i))

/-- `for (i = 0; i <= maxi; i++)`, over the slots still ahead. -/
def scan (read : Fin n → ReadAnswer) : List (Fin n) → Srv n → Srv n
  | [], s => s
  | i :: is, s =>
    if (i : ℤ) ≤ s.maxi then
      -- free slots and clients that are not ready cost no count
      if s.cliSocks i < 0 then scan read is s
      else if s.cliSocks i ∈ s.rfds then
        if (((s.isset i).serve i (read i)).decr).nready ≤ 0 then ((s.isset i).serve i (read i)).decr
        else scan read is ((s.isset i).serve i (read i)).decr
      else scan read is (s.isset i)
    else s

/-- One pass of the `while (1)`. -/
def body (h : Host) (s : Srv n) (a : Answers n) : Flow (Srv n) :=
  if a.nready = -1 ∨ a.nready = 0 then .again (s.select a)
  else ((s.select a).listener h a.accept).andThen fun s => .next (scan a.read (List.finRange n) s)

end Srv

/-- What the kernel may answer: `select` fails and leaves the set as it was, or reports a subset and its
size; `accept` fails or returns a descriptor that is not open. -/
def Admits {n : ℕ} (s : Srv n) (a : Answers n) : Prop :=
  ((a.nready = -1 ∧ a.rfds = s.activeFds) ∨
    (a.rfds ⊆ s.activeFds ∧ a.nready = a.rfds.card)) ∧
  (a.accept < 0 ∨ a.accept ∉ s.opened)

instance {n : ℕ} (s : Srv n) (a : Answers n) : Decidable (Admits s a) :=
  inferInstanceAs (Decidable ((_ ∨ _) ∧ (_ ∨ _)))

/-- The server with `n` slots. -/
def server (n : ℕ) (h : Host) : System (Flow (Srv n)) (Answers n) :=
  whileLoop (Srv.body h) Admits (Srv.start h)

/-- `#define MAX_CONNECTIONS 10`, in both programs. -/
def maxConnections : ℕ := 10

instance : NeZero maxConnections := ⟨Nat.succ_ne_zero 9⟩

/-- `main` of `C/select_srv_better.c`. -/
def selectSrvBetter (h : Host) : System (Flow (Srv maxConnections)) (Answers maxConnections) :=
  server maxConnections h

/-- `main` of `ameba/tcp_select_server.c`. -/
def tcpSelectServer (h : Host) : System (Flow (Srv maxConnections)) (Answers maxConnections) :=
  server maxConnections h

end NetProg.SelectSrvBetter
