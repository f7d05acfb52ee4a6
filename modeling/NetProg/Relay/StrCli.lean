/-
# NetProg.Relay.StrCli -- the non-blocking relay `str_cli` of `C/nonblock_stream_client.c`.

`str_cli` copies stdin to the socket and the socket to stdout through two arrays `to` and `fr` (here `toBuf`,
`frBuf`), each with an in-cursor and an out-cursor (`toiptr`/`tooptr`, `friptr`/`froptr`, here offsets).  One
iteration builds the two descriptor sets, calls `select`, and then runs four blocks: read stdin, read the
socket, write stdout, write the socket.  All three descriptors are non-blocking.

The kernel's side of an iteration is one `Answers` record, with no assumption at all on it: `select` may
fail (the sets are then unmodified) or return any subset, a `read` gives at most what was asked for, a
`write` takes at most what was offered, and each may fail with `EWOULDBLOCK` or with another error.
Every call is kept in `calls`, oldest first.  The progress lines on stderr, which nothing reads back, and
`maxfd` are left out.
-/
import NetProg.Base.Loop
import NetProg.Base.Window
import Mathlib.Data.Finset.Basic
import Mathlib.Data.Finset.Lattice.Basic

namespace NetProg.Relay

/-! ## The kernel's side -/

/-- `#define MAX_SIZE 1024`. -/
def maxSize : ℕ := 1024

/-- The three descriptors of `str_cli`. -/
inductive Fd where
  | stdin
  | stdout
  | sockfd
  deriving DecidableEq, Repr

inductive SelectAnswer where
  | failed
  | ready (r w : Finset Fd)
  deriving DecidableEq

/-- What `read` returns: `-1` with `EWOULDBLOCK`, `-1` with another error, or the bytes stored. -/
inductive ReadAnswer where
  | wouldBlock
  | error
  | data (bs : List UInt8)
  deriving DecidableEq, Repr

/-- What `write` returns: `-1` with `EWOULDBLOCK`, `-1` with another error, or the count taken. -/
inductive WriteAnswer where
  | wouldBlock
  | error
  | wrote (n : ℕ)
  deriving DecidableEq, Repr

/-- `read` never stores more than it was asked for. -/
def ReadAnswer.upTo (len : ℕ) : ReadAnswer → ReadAnswer
  | data bs => data (bs.take len)
  | a => a

/-- `write` never takes more than it was offered. -/
def WriteAnswer.upTo (len : ℕ) : WriteAnswer → WriteAnswer
  | wrote n => wrote (min n len)
  | a => a

/-- A system call with its arguments and its answer. -/
inductive Call where
  | select (rset wset : Finset Fd)
  | read (fd : Fd) (len : ℕ) (ans : ReadAnswer)
  | write (fd : Fd) (buf : List UInt8) (ans : WriteAnswer)
  | shutdown
  deriving DecidableEq

/-- The kernel's answers in one iteration. -/
structure Answers where
  select : SelectAnswer
  readStdin : ReadAnswer
  readSock : ReadAnswer
  writeStdout : WriteAnswer
  writeSock : WriteAnswer

/-! ## The function -/

/-- The locals of `str_cli`, and the calls made so far. -/
structure StrCli where
  stdineof : Bool
  toBuf : Vector UInt8 maxSize
  toiptr : ℕ
  tooptr : ℕ
  frBuf : Vector UInt8 maxSize
  friptr : ℕ
  froptr : ℕ
  rset : Finset Fd
  wset : Finset Fd
  calls : List Call

namespace StrCli

/-- Log a call. -/
def call (s : StrCli) (c : Call) : StrCli := { s with calls := s.calls ++ [c] }

/-- The locals at the first loop head; the arrays are not initialised. -/
def start (toBuf frBuf : Vector UInt8 maxSize) : StrCli where
  stdineof := false
  toBuf := toBuf
  toiptr := 0
  tooptr := 0
  frBuf := frBuf
  friptr := 0
  froptr := 0
  rset := ∅
  wset := ∅
  calls := []

/-- `FD_ZERO` of both sets and the four guarded `FD_SET`s. -/
def buildSets (s : StrCli) : StrCli :=
  { s with
    rset := (if s.stdineof = false ∧ s.toiptr < maxSize then {Fd.stdin} else ∅) ∪
      (if s.friptr < maxSize then {Fd.sockfd} else ∅)
    wset := (if s.tooptr ≠ s.toiptr then {Fd.sockfd} else ∅) ∪
      (if s.froptr ≠ s.friptr then {Fd.stdout} else ∅) }

/-- `select (maxfd, &rset, &wset, NULL, NULL)`, whose return value is ignored. -/
def select (s : StrCli) (a : SelectAnswer) : StrCli :=
  let s := s.call (.select s.rset s.wset)
  match a with
  -- the sets stay as they were built
  | .failed => s
  | .ready r w => { s with rset := s.rset ∩ r, wset := s.wset ∩ w }

/-- The block under `FD_ISSET(STDIN_FILENO, &rset)`. -/
def readStdin (s : StrCli) (a : ReadAnswer) : Flow StrCli :=
  if Fd.stdin ∈ s.rset then
    let len := maxSize - s.toiptr
    let s := s.call (.read .stdin len (a.upTo len))
    match a.upTo len with
    | .wouldBlock => .next s
    | .error => .exit "read error on stdin\n" s
    | .data bs =>
      if bs.length = 0 then
        let s := { s with stdineof := true }
        .next (if s.tooptr = s.toiptr then s.call .shutdown else s)
      else
        -- `FD_SET (sockfd, &wset)`: tried on the socket in this iteration already
        .next { s with
          toBuf := store s.toBuf s.toiptr bs
          toiptr := s.toiptr + bs.length
          wset := insert Fd.sockfd s.wset }
  else .next s

/-- The block under `FD_ISSET(sockfd, &rset)`. -/
def readSock (s : StrCli) (a : ReadAnswer) : Flow StrCli :=
  if Fd.sockfd ∈ s.rset then
    let len := maxSize - s.friptr
    let s := s.call (.read .sockfd len (a.upTo len))
    match a.upTo len with
    | .wouldBlock => .next s
    | .error => .exit "read error on socket\n" s
    | .data bs =>
      if bs.length = 0 then
        -- "normal termination": the two write blocks below are not reached
        if s.stdineof then .ret s
        else .exit "str_cli : server terminated prematurely\n" s
      else
        .next { s with
          frBuf := store s.frBuf s.friptr bs
          friptr := s.friptr + bs.length
          wset := insert Fd.stdout s.wset }
  else .next s

/-- The block under `FD_ISSET(STDOUT_FILENO, &wset) && (n = friptr - froptr) > 0`. -/
def writeStdout (s : StrCli) (a : WriteAnswer) : Flow StrCli :=
  let n := s.friptr - s.froptr
  if Fd.stdout ∈ s.wset ∧ 0 < n then
    let s := s.call (.write .stdout (window s.frBuf s.froptr (s.froptr + n)) (a.upTo n))
    match a.upTo n with
    | .wouldBlock => .next s
    | .error => .exit "write error to stdout\n" s
    | .wrote k =>
      let s := { s with froptr := s.froptr + k }
      -- a drained array is filled from its start again
      .next (if s.froptr = s.friptr then { s with froptr := 0, friptr := 0 } else s)
  else .next s

/-- The block under `FD_ISSET(sockfd, &wset) && (n = toiptr - tooptr) > 0`. -/
def writeSock (s : StrCli) (a : WriteAnswer) : Flow StrCli :=
  let n := s.toiptr - s.tooptr
  if Fd.sockfd ∈ s.wset ∧ 0 < n then
    let s := s.call (.write .sockfd (window s.toBuf s.tooptr (s.tooptr + n)) (a.upTo n))
    match a.upTo n with
    | .wouldBlock => .next s
    | .error => .exit "write error to sockfd\n" s
    | .wrote k =>
      let s := { s with tooptr := s.tooptr + k }
      if s.tooptr = s.toiptr then
        let s := { s with tooptr := 0, toiptr := 0 }
        -- the end of stdin was found while bytes were pending; now they are gone
        .next (if s.stdineof then s.call .shutdown else s)
      else .next s
  else .next s

/-- One iteration of the loop of `str_cli`. -/
def body (s : StrCli) (a : Answers) : Flow StrCli :=
  (readStdin (select (buildSets s) a.select) a.readStdin).andThen fun s =>
  (readSock s a.readSock).andThen fun s =>
  (writeStdout s a.writeStdout).andThen fun s =>
  writeSock s a.writeSock

end StrCli

/-- `str_cli` from its first loop head, over any answers of the kernel. -/
def strCli (toBuf frBuf : Vector UInt8 maxSize) : System (Flow StrCli) Answers :=
  whileLoop StrCli.body (fun _ _ => True) (StrCli.start toBuf frBuf)

end NetProg.Relay
