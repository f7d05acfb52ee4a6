/-
# NetProg.Heartbeat.Srv -- the handlers of `C/heartbeat_srv.c`, and the end of a session in its `main`.

SIGURG reads the byte of a client's heartbeat, answers a `'c'` with an `'s'`, and starts the count again;
SIGALRM counts, and reports a reset after `PEER_EXPIRE_CNT` SIGALRMs without a heartbeat.  `main` blocks in
`recv` for as long as the session lasts.  A flag that the code keeps in an `int` is a `Bool`.  What the
program prints about a reset is kept in `reports`.
-/
import NetProg.Base.Decimal

namespace NetProg.HeartbeatSrv

/-- `#define PEER_EXPIRE_CNT 3`. -/
def peerExpireCnt : ℤ := 3

/-- The reset messages. -/
inductive Report where
  | notStartUp
  | shutdown
  deriving DecidableEq, Repr

/-- The globals, and what was reported, oldest first. -/
structure Srv where
  expireCnt : ℤ
  alreadyReset : Bool
  reports : List Report
  deriving DecidableEq, Repr

namespace Srv

def start : Srv where
  expireCnt := 0
  alreadyReset := false
  reports := []

/-- `sig_handler (SIGURG)`; what it sends is `answer`. -/
def sigUrg (s : Srv) : Srv := { s with expireCnt := 0, alreadyReset := false }

/-- `if (c == 'c') send (cli_fd, "s", 1, MSG_OOB)`, for the byte that `recv` left in `c`. -/
def answer (c : Char) : Option Char := if c = 'c' then some 's' else none

/-- `sig_handler (SIGALRM)`. -/
def sigAlrm (s : Srv) : Srv :=
  if peerExpireCnt = s.expireCnt ∧ s.alreadyReset = false then
    { s with expireCnt := 0, reports := s.reports ++ [.notStartUp] }
  else { s with expireCnt := wrap32 (s.expireCnt + 1) }

/-- `main` after its `recv` returned. -/
def shutdown (s : Srv) : Srv :=
  { s with alreadyReset := true, reports := s.reports ++ [.shutdown] }

end Srv

end NetProg.HeartbeatSrv
