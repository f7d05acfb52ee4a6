/-
# NetProg.Server.SelectServer -- `C/select_server.c`.

The server keeps its clients in `cli_socks`, counts them in `cur_conn_cnt`, and watches `active_fds`.  A
pass accepts at most one connection, refusing it when the count is at the limit, and then scans the slots
below `cur_conn_cnt`; a client that left is closed and taken off the count while the scan runs.  After
every `recv`, whatever it returned, the server formats `recv_buf` into `send_buf` and sends it.

Modelled beside the locals: the descriptors the process has open (`opened`), and the log `evs` of the
current pass.  An `fd_set` is a finite set of descriptors.  `sprintf` past the end of `send_buf` is
undefined behaviour.  What `send` returns is only printed, but no handler is installed for SIGPIPE: a `send`
to a client that has gone can end the process.  A `send` on a descriptor that is closed only fails.  Behind a
refusal a pass does nothing but `close`, so that a SIGPIPE there is left out: the run just ends with that pass.
-/
import NetProg.Base.Loop
import NetProg.Server.Descriptors

namespace NetProg.SelectServer

/-! ## Texts and buffers -/

/-- The characters of a string literal. -/
def cstr (s : String) : List UInt8 := s.toList.map fun c => UInt8.ofNat c.toNat

/-- `#define BUF_SIZE 256`. -/
def bufSize : ℕ := 256

/-- `#define MAX_CLIENTS_NUM 3`. -/
def maxClientsNum : ℕ := 3

instance : NeZero maxClientsNum := ⟨Nat.succ_ne_zero 2⟩

def acceptMsg : List UInt8 := cstr "Accept, connection established!"

def refuseMsg : List UInt8 := cstr "Refuse, connection numbers reach the upper limit!"

/-- `recv_buf` after `bzero` and `recv`. -/
def recvBuf : ReadAnswer → List UInt8
  | .error => List.replicate bufSize 0
  | .data bs => bs ++ List.replicate (bufSize - bs.length) 0

/-- The text that `sprintf (send_buf, "ECHO BACK : %s", recv_buf)` writes, without its terminating NUL. -/
def echoText (recvBuf : List UInt8) : List UInt8 :=
  cstr "ECHO BACK : " ++ recvBuf.takeWhile (· ≠ 0)

/-- The text and its NUL fit into `send_buf`. -/
def fits (ans : ReadAnswer) : Bool := (echoText (recvBuf ans)).length + 1 ≤ bufSize

/-! ## The kernel's side -/

/-- `select`: `-1` with `errno` equal to `EINTR` or not, `0`, or the number of descriptors in `rfds`. -/
inductive SelectAnswer where
  | error (eintr : Bool)
  | timeout
  | ready (rfds : Finset ℤ)
  deriving DecidableEq

/-- The kernel's answers in one pass; `recv i` answers the `recv` made for slot `i`.  `acceptPipe` and `echoPipe i`
say whether the client is gone when it is sent `ACCEPT_MSG`, or the echo of slot `i`, so that SIGPIPE is raised. -/
structure Answers (n : ℕ) where
  select : SelectAnswer
  accept : ℤ
  acceptPipe : Bool
  recv : Fin n → ReadAnswer
  echoPipe : Fin n → Bool

/-- What a pass does to descriptors, sets and the table, and what it sends. -/
inductive Ev (n : ℕ) where
  | accept (fd : ℤ)
  | close (fd : ℤ)
  | fdSet (fd : ℤ)
  | fdClr (fd : ℤ)
  | recv (fd : ℤ) (ans : ReadAnswer)
  | send (fd : ℤ) (text : List UInt8)
  | setSlot (i : Fin n) (fd : ℤ)
  deriving DecidableEq

/-! ## The server -/

/-- The locals of `main` that outlive a statement, the open descriptors, and the log of the pass. -/
structure Srv (n : ℕ) where
  cliSocks : Fin n → ℤ
  curConnCnt : ℤ
  maxSd : ℤ
  rfds : Finset ℤ
  activeFds : Finset ℤ
  opened : Finset ℤ
  evs : List (Ev n)

namespace Srv

variable {n : ℕ}

def log (s : Srv n) (e : Ev n) : Srv n := { s with evs := s.evs ++ [e] }

/-- The locals at the first loop head. -/
def start (h : Host) : Srv n where
  cliSocks := fun _ => -1
  curConnCnt := 0
  maxSd := h.masterSock
  rfds := ∅
  activeFds := {h.masterSock}
  opened := h.initial
  evs := []

/-- `rfds = active_fds; select (max_sd + 1, &rfds, NULL, NULL, NULL)`: an error leaves the set as it was. -/
def select (s : Srv n) (ans : SelectAnswer) : Srv n :=
  match ans with
  | .error _ => { s with rfds := s.activeFds, evs := [] }
  | .timeout => { s with rfds := ∅, evs := [] }
  | .ready rfds => { s with rfds := rfds, evs := [] }

/-- `new_sock = accept (master_sock, ...)`, when it succeeds. -/
def accept (s : Srv n) (newSock : ℤ) : Srv n :=
  { s with opened := insert newSock s.opened }.log (.accept newSock)

/-- `send (new_sock, REFUSE_MSG, ...)` and `close (new_sock)`. -/
def refuse (s : Srv n) (newSock : ℤ) : Srv n :=
  { s.log (.send newSock refuseMsg) with opened := s.opened.erase newSock }.log (.close newSock)

/-- The `for` loop that stores `new_sock` in the first slot equal to `-1`, if there is one. -/
def store (s : Srv n) (newSock : ℤ) : Srv n :=
  match SlotTable.firstSlot (fun fd => -1 == fd) s.cliSocks with
  | some i => { s with cliSocks := Function.update s.cliSocks i newSock }.log (.setSlot i newSock)
  | none => s

/-- The rest of the branch that keeps the connection: `max_sd`, `FD_SET`, `cur_conn_cnt++`, `send`. -/
def keep (s : Srv n) (newSock : ℤ) : Srv n :=
  ({ s with
    maxSd := if s.maxSd < newSock then newSock else s.maxSd
    activeFds := insert newSock s.activeFds
    curConnCnt := s.curConnCnt + 1 }.log (.fdSet newSock)).log (.send newSock acceptMsg)

/-- Behind a `send`: SIGPIPE ends the process. -/
def signal (s : Srv n) (pipe : Bool) : Flow (Srv n) := if pipe then .exit "SIGPIPE" s else .next s

@[simp] theorem state_signal (s : Srv n) (pipe : Bool) : (s.signal pipe).state = s := by
  cases pipe <;> rfl

/-- The block under `FD_ISSET (master_sock, &rfds)`. -/
def listener (h : Host) (s : Srv n) (newSock : ℤ) (pipe : Bool) : Flow (Srv n) :=
  if h.masterSock ∈ s.rfds then
    if newSock < 0 then .exit "ERROR accept" (s.log (.accept newSock))
    -- `continue`: the clients that are ready have to wait for the next pass
    else if s.curConnCnt > n - 1 then .again ((s.accept newSock).refuse newSock)
    else (((s.accept newSock).store newSock).keep newSock).signal pipe
  else .next s

/-- `close (sd); FD_CLR (sd, &active_fds); cli_socks[i] = -1; cur_conn_cnt--;`. -/
def drop (s : Srv n) (i : Fin n) : Srv n :=
  (({ s with
    opened := s.opened.erase (s.cliSocks i)
    activeFds := s.activeFds.erase (s.cliSocks i)
    cliSocks := Function.update s.cliSocks i (-1)
    curConnCnt := s.curConnCnt - 1 }.log (.close (s.cliSocks i))).log
      (.fdClr (s.cliSocks i))).log (.setSlot i (-1))

/-- `recv`, and the `switch` on what it returned. -/
def receive (s : Srv n) (i : Fin n) (ans : ReadAnswer) : Srv n :=
  if ans.gone then (s.log (.recv (s.cliSocks i) ans)).drop i
  else s.log (.recv (s.cliSocks i) ans)

/-- `sprintf (send_buf, ...)` and the `send` to `sd`, which was closed if `recv` returned no data. -/
def echoBack (s : Srv n) (sd : ℤ) (ans : ReadAnswer) (pipe : Bool) : Flow (Srv n) :=
  if fits ans then (s.log (.send sd (echoText (recvBuf ans)))).signal (pipe && !ans.gone) else .undef s

/-- The loop body for a ready client. -/
def serve (s : Srv n) (i : Fin n) (ans : ReadAnswer) (pipe : Bool) : Flow (Srv n) :=
  (s.receive i ans).echoBack (s.cliSocks i) ans pipe

/-- `for (i = 0; i < cur_conn_cnt; i++)`, over the slots still ahead. -/
def scan (a : Answers n) : List (Fin n) → Srv n → Flow (Srv n)
  | [], s => .next s
  | i :: is, s =>
    -- the bound is looked at anew for every slot, and `drop` lowers it
    if (i : ℤ) < s.curConnCnt then
      if s.cliSocks i < 0 then scan a is s
      else if s.cliSocks i ∈ s.rfds then (s.serve i (a.recv i) (a.echoPipe i)).andThen (scan a is)
      else scan a is s
    else .next s

/-- One pass of the `while (1)`. -/
def body (h : Host) (s : Srv n) (a : Answers n) : Flow (Srv n) :=
  match a.select with
  | .error true => .again (s.select a.select)
  | .error false => .exit "[ERROR] select" (s.select a.select)
  | .timeout => .next (s.select a.select)
  | .ready _ =>
    ((s.select a.select).listener h a.accept a.acceptPipe).andThen (scan a (List.finRange n))

end Srv

/-- `rfds` is a nonempty subset of what was asked for. -/
def SelectAnswer.Admits (active : Finset ℤ) : SelectAnswer → Prop
  | ready rfds => rfds ⊆ active ∧ rfds.Nonempty
  | _ => True

instance (active : Finset ℤ) : (ans : SelectAnswer) → Decidable (ans.Admits active)
  | .ready rfds => inferInstanceAs (Decidable (rfds ⊆ active ∧ rfds.Nonempty))
  | .error _ | .timeout => inferInstanceAs (Decidable True)

/-- `recv` stores at most `sizeof (recv_buf) - 1` bytes. -/
def RecvAdmits : ReadAnswer → Prop
  | .error => True
  | .data bs => bs.length ≤ bufSize - 1

instance : (ans : ReadAnswer) → Decidable (RecvAdmits ans)
  | .error => inferInstanceAs (Decidable True)
  | .data bs => inferInstanceAs (Decidable (bs.length ≤ bufSize - 1))

/-- What the kernel may answer; `accept` fails or returns a descriptor that is not open. -/
def Admits {n : ℕ} (s : Srv n) (a : Answers n) : Prop :=
  a.select.Admits s.activeFds ∧ (a.accept < 0 ∨ a.accept ∉ s.opened) ∧ ∀ i, RecvAdmits (a.recv i)

instance {n : ℕ} (s : Srv n) (a : Answers n) : Decidable (Admits s a) :=
  inferInstanceAs (Decidable (_ ∧ (_ ∨ _) ∧ _))

/-- The server with `n` slots. -/
def server (n : ℕ) (h : Host) : System (Flow (Srv n)) (Answers n) :=
  whileLoop (Srv.body h) Admits (Srv.start h)

/-- `main` of `C/select_server.c`. -/
def selectServer (h : Host) : System (Flow (Srv maxClientsNum)) (Answers maxClientsNum) :=
  server maxClientsNum h

end NetProg.SelectServer
