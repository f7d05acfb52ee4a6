/-
# NetProg.Heartbeat.Router -- `C/heartbeat_router.c`: a parent, its children, and one shared file.

The parent accepts connections, forks one child for each, and counts in the counter file, once per
SIGALRM, how long no heartbeat came; at `PEER_EXPIRE_CNT` it resets the peer.  A child blocks in `recv`
and writes 0 into the file on every SIGURG.  The globals are copied by `fork`, so each process has its
own `already_reset`.

`router` is the system of the single steps: the parent's main loop is before `accept`, before `fork`, or has
yet to store what `fork` returned (`MainPc`); its handler for SIGALRM has read the file, has tested what it
read, has truncated the file, and so on (`AlrmPc`); and a child's handler likewise (`UrgPc`).  A signal waits
while its own handler runs.  The main loop of a process runs only outside its handlers; the parent's two
handlers may interrupt each other, and the interrupted one waits for the other (`ChldPc`).  `atomicRouter` is
the system whose main loop and handlers run in one piece, as the source's functions are written;
`atomic_reachable` says that its runs are runs of `router`.

Time is not modelled: once `main` has called `alarm`, a SIGALRM can come at any step.  A SIGURG that finds
no handler is ignored by the kernel and is not an event.  `wait (0)` takes the first child that has exited,
returns when there is no child at all, and blocks while there are only children that run.  `system` holds
SIGCHLD back while it waits for its shell, so that what the parent sees of the shell is one more SIGCHLD when
`system` returns.  A child's `system` does nothing to the parent.  `printf`, and the `listen_fd` of a child,
are left out.
-/
import NetProg.Base.System
import NetProg.Heartbeat.ExpireFile

namespace NetProg.Heartbeat

/-- `#define PEER_EXPIRE_CNT 30`. -/
def peerExpireCnt : ℤ := 30

/-! ## Processes -/

/-- The globals of `heartbeat_router.c`; every process has its own. -/
structure Globals where
  cliFd : ℤ
  childPid : ℤ
  alreadyReset : ℤ
  deriving DecidableEq, Repr

/-- Where the parent's main loop stands; `pid` is what `fork` returned. -/
inductive MainPc where
  | accept
  | fork
  | store (pid : ℤ)
  deriving DecidableEq, Repr

/-- Where the parent's handler for SIGALRM stands; `e` is its `expire_cnt`. -/
inductive AlrmPc where
  | main
  | toRead
  | toTest (e : ℤ)
  | toSystem (e : ℤ)
  | toResetTrunc (e : ℤ)
  | toResetWrite (e : ℤ)
  | toTrunc (e : ℤ)
  | toWrite (e : ℤ)
  deriving DecidableEq, Repr

/-- Where the parent's handler for SIGCHLD stands; `inner` says that it interrupted the one for SIGALRM. -/
inductive ChldPc where
  | idle
  | toWait (inner : Bool)
  deriving DecidableEq, Repr

/-- Where a child's handler for SIGURG stands. -/
inductive UrgPc where
  | recv
  | toTrunc
  | toWrite
  deriving DecidableEq, Repr

/-- A child that the parent has not waited for; `live` is false once it has exited or was killed. -/
structure Child where
  pid : ℤ
  globals : Globals
  urg : UrgPc
  live : Bool
  deriving DecidableEq, Repr

/-- What the handlers did, oldest first. -/
inductive LogEv where
  | alrmRead
  | alrmDone
  | beatDone
  | closed (fd : ℤ)
  | killed (pid : ℤ)
  | reset
  | sent (fd : ℤ)
  | childReset (pid : ℤ)
  deriving DecidableEq, Repr

/-- The parent, its children, the file, and the log. -/
structure Router where
  file : File
  parent : Globals
  main : MainPc
  alrm : AlrmPc
  chld : ChldPc
  children : List Child
  chldPending : Bool
  log : List LogEv
  deriving DecidableEq, Repr

namespace Router

def logs (s : Router) (es : List LogEv) : Router := { s with log := s.log ++ es }

/-- The live child with this pid. -/
def child (s : Router) (pid : ℤ) : Option Child :=
  s.children.find? fun c => c.pid = pid && c.live

def mapChild (s : Router) (pid : ℤ) (f : Child → Child) : Router :=
  { s with children := s.children.map fun c => if c.pid = pid && c.live then f c else c }

@[simp] theorem logs_log (s : Router) (es : List LogEv) : (s.logs es).log = s.log ++ es := rfl
@[simp] theorem logs_file (s : Router) (es : List LogEv) : (s.logs es).file = s.file := rfl
@[simp] theorem logs_alrm (s : Router) (es : List LogEv) : (s.logs es).alrm = s.alrm := rfl
@[simp] theorem logs_parent (s : Router) (es : List LogEv) : (s.logs es).parent = s.parent := rfl
@[simp] theorem logs_main (s : Router) (es : List LogEv) : (s.logs es).main = s.main := rfl
@[simp] theorem logs_chld (s : Router) (es : List LogEv) : (s.logs es).chld = s.chld := rfl
@[simp] theorem logs_chldPending (s : Router) (es : List LogEv) : (s.logs es).chldPending = s.chldPending := rfl
@[simp] theorem logs_children (s : Router) (es : List LogEv) : (s.logs es).children = s.children := rfl

section MapChild

variable (s : Router) (pid : ℤ) (f : Child → Child)

@[simp] theorem mapChild_log : (s.mapChild pid f).log = s.log := rfl
@[simp] theorem mapChild_file : (s.mapChild pid f).file = s.file := rfl
@[simp] theorem mapChild_alrm : (s.mapChild pid f).alrm = s.alrm := rfl
@[simp] theorem mapChild_parent : (s.mapChild pid f).parent = s.parent := rfl
@[simp] theorem mapChild_main : (s.mapChild pid f).main = s.main := rfl
@[simp] theorem mapChild_chld : (s.mapChild pid f).chld = s.chld := rfl

end MapChild

/-- The globals at the first `accept`; the file holds the text of 0. -/
def start : Router where
  file := writeExpireCnt 0 []
  parent := ⟨0, 0, 0⟩
  main := .accept
  alrm := .main
  chld := .idle
  children := []
  chldPending := false
  log := []

/-! ## The parent's main loop -/

/-- `cli_fd = accept (...)`; for a positive descriptor `fork` comes next. -/
def acceptReturns (s : Router) (fd : ℤ) : Router :=
  { s with
    main := if 0 < fd then .fork else .accept
    parent := { s.parent with cliFd := fd } }

/-- `fork`, whose result in the parent is `pid`. -/
def forkReturns (s : Router) (pid : ℤ) : Router :=
  { s with
    main := .store pid
    -- when `fork` fails, nobody serves the connection
    children := if 0 < pid then s.children ++ [Child.mk pid s.parent .recv true] else s.children }

/-- `child_pid = pid; close (cli_fd)`. -/
def storePid (s : Router) (pid : ℤ) : Router :=
  { s with main := .accept, parent := { s.parent with childPid := pid } }.logs [.closed s.parent.cliFd]

/-! ## A child -/

/-- `recv` in `servlet` returns: the child resets the peer and exits. -/
def eof (s : Router) (pid : ℤ) : Router :=
  { s.mapChild pid fun c => { c with live := false } with chldPending := true }.logs [.childReset pid]

/-- SIGURG arrives: `recv (cli_fd, &c, ...)`, and the answer to a `'c'`. -/
def urgEnter (s : Router) (pid : ℤ) (c : Char) : Router :=
  (s.mapChild pid fun ch => { ch with urg := .toTrunc }).logs
    (match s.child pid with
     | some ch => if c = 'c' then [.sent ch.globals.cliFd] else []
     | none => [])

/-- The `open` of `write_expire_cnt (0)`. -/
def urgTrunc (s : Router) (pid : ℤ) : Router :=
  { s.mapChild pid fun c => { c with urg := .toWrite } with file := s.file.truncate }

/-- The `write` of `write_expire_cnt (0)`, and `already_reset = 0` in the child. -/
def urgWrite (s : Router) (pid : ℤ) : Router :=
  { s.mapChild pid fun c => { c with urg := .recv, globals := { c.globals with alreadyReset := 0 } } with
    file := s.file.write 0 }.logs [.beatDone]

/-! ## The parent's handlers -/

/-- SIGALRM arrives: `alarm (ALARM_INTERVAL)`. -/
def alrmEnter (s : Router) : Router := { s with alrm := .toRead }

/-- `expire_cnt = read_expire_cnt ()`. -/
def alrmRead (s : Router) (stack : List Char) : Router :=
  { s with alrm := .toTest (readExpireCnt stack s.file) }.logs [.alrmRead]

/-- `PEER_EXPIRE_CNT == expire_cnt && 0 == already_reset`. -/
def expired (s : Router) (e : ℤ) : Bool := peerExpireCnt = e && s.parent.alreadyReset = 0

/-- `kill (child_pid, SIGKILL)`, when `child_pid > 0`. -/
def kill (s : Router) : Router :=
  if 0 < s.parent.childPid then
    -- `child_pid` is never cleared: the child may have exited long ago
    { s.mapChild s.parent.childPid fun c => { c with live := false } with
      chldPending := s.chldPending || (s.child s.parent.childPid).isSome }.logs
        [.killed s.parent.childPid]
  else s

/-- `close (cli_fd)`, and the `kill`. -/
def dropPeer (s : Router) : Router := (s.logs [.closed s.parent.cliFd]).kill

/-- `system ("echo 1 > /sys/android/reboot")`; the SIGCHLD for its `shell`, if that could be started, comes when
`system` has returned. -/
def system (s : Router) (shell : Bool) : Router :=
  { s with chldPending := s.chldPending || shell }.logs [.reset]

/-- The `close`, the `kill`, and the `system`. -/
def resetPeer (s : Router) : Router := s.dropPeer.system true

/-- The log entries of `dropPeer`. -/
def dropEntries (s : Router) : List LogEv :=
  .closed s.parent.cliFd :: if 0 < s.parent.childPid then [.killed s.parent.childPid] else []

@[simp] theorem dropPeer_log (s : Router) : s.dropPeer.log = s.log ++ s.dropEntries := by
  unfold dropPeer kill dropEntries
  split_ifs <;> simp_all

/-- Dropping the peer leaves all but the children, the pending SIGCHLD and the log. -/
@[simp] theorem dropPeer_file (s : Router) : s.dropPeer.file = s.file := by
  unfold dropPeer kill
  split_ifs <;> rfl

@[simp] theorem dropPeer_parent (s : Router) : s.dropPeer.parent = s.parent := by
  unfold dropPeer kill
  split_ifs <;> rfl

@[simp] theorem dropPeer_main (s : Router) : s.dropPeer.main = s.main := by
  unfold dropPeer kill
  split_ifs <;> rfl

@[simp] theorem dropPeer_alrm (s : Router) : s.dropPeer.alrm = s.alrm := by
  unfold dropPeer kill
  split_ifs <;> rfl

@[simp] theorem dropPeer_chld (s : Router) : s.dropPeer.chld = s.chld := by
  unfold dropPeer kill
  split_ifs <;> rfl

/-- The log entries of `resetPeer`. -/
def resetEntries (s : Router) : List LogEv :=
  .closed s.parent.cliFd ::
    ((if 0 < s.parent.childPid then [.killed s.parent.childPid] else []) ++ [.reset])

@[simp] theorem resetPeer_log (s : Router) : s.resetPeer.log = s.log ++ s.resetEntries := by
  show s.dropPeer.log ++ [.reset] = _
  rw [dropPeer_log, List.append_assoc]
  rfl

@[simp] theorem resetPeer_file (s : Router) : s.resetPeer.file = s.file := dropPeer_file s

@[simp] theorem resetPeer_alrm (s : Router) : s.resetPeer.alrm = s.alrm := dropPeer_alrm s

@[simp] theorem resetPeer_parent (s : Router) : s.resetPeer.parent = s.parent := dropPeer_parent s

/-- The test, and what comes before `system` when it holds. -/
def alrmTest (s : Router) (e : ℤ) : Router :=
  if s.expired e then { s.dropPeer with alrm := .toSystem e } else { s with alrm := .toTrunc e }

/-- `system` returns. -/
def alrmSystem (s : Router) (e : ℤ) (shell : Bool) : Router :=
  { s.system shell with alrm := .toResetTrunc e }

/-- The `open` of `write_expire_cnt (0)`. -/
def alrmResetTrunc (s : Router) (e : ℤ) : Router :=
  { s with alrm := .toResetWrite e, file := s.file.truncate }

/-- The `write` of `write_expire_cnt (0)`, and `already_reset = 1`. -/
def alrmResetWrite (s : Router) (e : ℤ) : Router :=
  { s with alrm := .toTrunc e, file := s.file.write 0, parent := { s.parent with alreadyReset := 1 } }

/-- The `open` of `write_expire_cnt (++expire_cnt)`. -/
def alrmTrunc (s : Router) (e : ℤ) : Router := { s with alrm := .toWrite e, file := s.file.truncate }

/-- The `write` of `write_expire_cnt (++expire_cnt)`. -/
def alrmWrite (s : Router) (e : ℤ) : Router :=
  { s with alrm := .main, file := s.file.write (wrap32 (e + 1)) }.logs [.alrmDone]

/-- The first child that has exited is waited for. -/
def reap : List Child → List Child
  | [] => []
  | c :: cs => if c.live then c :: reap cs else cs

/-- SIGCHLD arrives. -/
def chldEnter (s : Router) : Router := { s with chldPending := false, chld := .toWait (s.alrm ≠ .main) }

/-- `wait (0)` finds a child that has exited, or no child. -/
def WaitReturns (s : Router) : Prop := (∃ c ∈ s.children, c.live = false) ∨ s.children = []

instance (s : Router) : Decidable s.WaitReturns := inferInstanceAs (Decidable ((∃ c ∈ s.children, _) ∨ _))

/-- `wait (0)` returns. -/
def waitReturns (s : Router) : Router := { s with chld := .idle, children := reap s.children }

/-! ## The main loop and the handlers in one piece -/

/-- `cli_fd = accept (...)`, and for a positive descriptor the `fork` and what follows in the parent. -/
def accept (s : Router) (fd pid : ℤ) : Router :=
  if 0 < fd then
    -- when `fork` fails, `child_pid` is -1 and nobody serves the connection
    { s with
      parent := { s.parent with cliFd := fd, childPid := pid }
      children := if 0 < pid then
          s.children ++ [Child.mk pid { s.parent with cliFd := fd } .recv true]
        else s.children }.logs [.closed fd]
  else { s with parent := { s.parent with cliFd := fd } }

/-- `sig_handler (SIGCHLD)`. -/
def sigChld (s : Router) : Router := { s with chldPending := false, children := reap s.children }

/-- `sig_handler (SIGURG)` in the child `pid`. -/
def sigUrg (s : Router) (pid : ℤ) (c : Char) : Router :=
  { (s.urgEnter pid c).mapChild pid fun ch =>
      { ch with urg := .recv, globals := { ch.globals with alreadyReset := 0 } } with
    file := writeExpireCnt 0 s.file }.logs [.beatDone]

/-- The block under `PEER_EXPIRE_CNT == expire_cnt && 0 == already_reset`. -/
def resetBlock (s : Router) : Router :=
  { s.resetPeer with
    file := writeExpireCnt 0 s.resetPeer.file
    parent := { s.resetPeer.parent with alreadyReset := 1 } }

/-- `write_expire_cnt (++expire_cnt)`. -/
def countBlock (s : Router) (e : ℤ) : Router :=
  { s with file := writeExpireCnt (wrap32 (e + 1)) s.file }.logs [.alrmDone]

/-- `sig_handler (SIGALRM)`, after it read `e`. -/
def alrmRest (s : Router) (e : ℤ) : Router :=
  (if s.expired e then s.resetBlock else s).countBlock e

/-- `sig_handler (SIGALRM)`. -/
def sigAlrm (s : Router) (stack : List Char) : Router :=
  (s.logs [.alrmRead]).alrmRest (readExpireCnt stack s.file)

end Router

/-! ## The two systems -/

/-- One step of some process. -/
inductive Ev where
  | accept (fd : ℤ)
  | fork (pid : ℤ)
  | store
  | eof (pid : ℤ)
  | urg (pid : ℤ) (c : Char)
  | urgTrunc (pid : ℤ)
  | urgWrite (pid : ℤ)
  | alrm
  | alrmRead (stack : List Char)
  | alrmTest
  | alrmSystem (shell : Bool)
  | alrmTrunc
  | alrmWrite
  | chld
  | wait
  deriving DecidableEq, Repr

/-- The live child `pid` stands at `pc`. -/
def Router.urgAt (s : Router) (pid : ℤ) (pc : UrgPc) : Prop :=
  ∃ c ∈ s.children, c.pid = pid ∧ c.live = true ∧ c.urg = pc

instance (s : Router) (pid : ℤ) (pc : UrgPc) : Decidable (s.urgAt pid pc) :=
  inferInstanceAs (Decidable (∃ c ∈ s.children, _))

/-- `fork` fails with `-1` or returns the pid of no child the parent still has. -/
def Router.Forks (s : Router) (pid : ℤ) : Prop :=
  pid = -1 ∨ (0 < pid ∧ ∀ c ∈ s.children, c.pid ≠ pid)

instance (s : Router) (pid : ℤ) : Decidable (s.Forks pid) :=
  inferInstanceAs (Decidable (_ ∨ (_ ∧ ∀ c ∈ s.children, _)))

/-- No handler of the parent runs. -/
def Router.InMain (s : Router) : Prop := s.alrm = .main ∧ s.chld = .idle

instance (s : Router) : Decidable s.InMain := inferInstanceAs (Decidable (_ ∧ _))

/-- The handler for SIGALRM is not interrupted by the other one. -/
def Router.AlrmRuns (s : Router) : Prop := s.chld ≠ .toWait true

instance (s : Router) : Decidable s.AlrmRuns := inferInstanceAs (Decidable (_ ≠ _))

/-- The handler for SIGCHLD runs, and is not interrupted. -/
def Router.ChldRuns (s : Router) : Prop := s.chld = .toWait true ∨ s.chld = .toWait false ∧ s.alrm = .main

instance (s : Router) : Decidable s.ChldRuns := inferInstanceAs (Decidable (_ ∨ _))

/-- The single steps. -/
def Router.step (s : Router) : Ev → Option Router
  | .accept fd => if s.InMain ∧ s.main = .accept then some (s.acceptReturns fd) else none
  | .fork pid => if (s.InMain ∧ s.main = .fork) ∧ s.Forks pid then some (s.forkReturns pid) else none
  | .store =>
    match s.main with
    | .store pid => if s.InMain then some (s.storePid pid) else none
    | _ => none
  | .eof pid => if s.urgAt pid .recv then some (s.eof pid) else none
  | .urg pid c => if s.urgAt pid .recv then some (s.urgEnter pid c) else none
  | .urgTrunc pid => if s.urgAt pid .toTrunc then some (s.urgTrunc pid) else none
  | .urgWrite pid => if s.urgAt pid .toWrite then some (s.urgWrite pid) else none
  | .alrm => if s.alrm = .main then some s.alrmEnter else none
  | .alrmRead stack => if s.AlrmRuns ∧ s.alrm = .toRead then some (s.alrmRead stack) else none
  | .alrmTest =>
    match s.alrm with
    | .toTest e => if s.AlrmRuns then some (s.alrmTest e) else none
    | _ => none
  | .alrmSystem shell =>
    match s.alrm with
    | .toSystem e => if s.AlrmRuns then some (s.alrmSystem e shell) else none
    | _ => none
  | .alrmTrunc =>
    match s.alrm with
    | .toResetTrunc e => if s.AlrmRuns then some (s.alrmResetTrunc e) else none
    | .toTrunc e => if s.AlrmRuns then some (s.alrmTrunc e) else none
    | _ => none
  | .alrmWrite =>
    match s.alrm with
    | .toResetWrite e => if s.AlrmRuns then some (s.alrmResetWrite e) else none
    | .toWrite e => if s.AlrmRuns then some (s.alrmWrite e) else none
    | _ => none
  | .chld => if s.chldPending = true ∧ s.chld = .idle then some s.chldEnter else none
  | .wait => if s.ChldRuns ∧ s.WaitReturns then some s.waitReturns else none

/-- Parent and children, step by step. -/
def router : System Router Ev := ⟨Router.start, Router.step⟩

/-- The single steps, as a relation. -/
inductive Router.Step (s : Router) : Ev → Router → Prop where
  | accept {fd} (hin : s.InMain) (hmain : s.main = .accept) : Step s (.accept fd) (s.acceptReturns fd)
  | fork {pid} (hin : s.InMain) (hmain : s.main = .fork) (hfork : s.Forks pid) :
      Step s (.fork pid) (s.forkReturns pid)
  | store {pid} (hin : s.InMain) (hmain : s.main = .store pid) : Step s .store (s.storePid pid)
  | eof {pid} (hat : s.urgAt pid .recv) : Step s (.eof pid) (s.eof pid)
  | urg {pid c} (hat : s.urgAt pid .recv) : Step s (.urg pid c) (s.urgEnter pid c)
  | urgTrunc {pid} (hat : s.urgAt pid .toTrunc) : Step s (.urgTrunc pid) (s.urgTrunc pid)
  | urgWrite {pid} (hat : s.urgAt pid .toWrite) : Step s (.urgWrite pid) (s.urgWrite pid)
  | alrm (hpc : s.alrm = .main) : Step s .alrm s.alrmEnter
  | alrmRead {stack} (hruns : s.AlrmRuns) (hpc : s.alrm = .toRead) : Step s (.alrmRead stack) (s.alrmRead stack)
  | alrmTest {e} (hruns : s.AlrmRuns) (hpc : s.alrm = .toTest e) : Step s .alrmTest (s.alrmTest e)
  | alrmSystem {e shell} (hruns : s.AlrmRuns) (hpc : s.alrm = .toSystem e) :
      Step s (.alrmSystem shell) (s.alrmSystem e shell)
  | alrmResetTrunc {e} (hruns : s.AlrmRuns) (hpc : s.alrm = .toResetTrunc e) :
      Step s .alrmTrunc (s.alrmResetTrunc e)
  | alrmResetWrite {e} (hruns : s.AlrmRuns) (hpc : s.alrm = .toResetWrite e) :
      Step s .alrmWrite (s.alrmResetWrite e)
  | alrmTrunc {e} (hruns : s.AlrmRuns) (hpc : s.alrm = .toTrunc e) : Step s .alrmTrunc (s.alrmTrunc e)
  | alrmWrite {e} (hruns : s.AlrmRuns) (hpc : s.alrm = .toWrite e) : Step s .alrmWrite (s.alrmWrite e)
  | chld (hpending : s.chldPending = true) (hidle : s.chld = .idle) : Step s .chld s.chldEnter
  | wait (hruns : s.ChldRuns) (hreturns : s.WaitReturns) : Step s .wait s.waitReturns

/-- What one step can do. -/
theorem router_step_iff {s s' : Router} {e : Ev} : router.step s e = some s' ↔ s.Step e s' := by
  constructor
  · intro h
    cases e with
    | accept fd =>
      obtain ⟨⟨hin, hmain⟩, rfl⟩ := Option.ite_some_none_eq_some.mp h
      exact .accept hin hmain
    | fork pid =>
      obtain ⟨⟨⟨hin, hmain⟩, hfork⟩, rfl⟩ := Option.ite_some_none_eq_some.mp h
      exact .fork hin hmain hfork
    | eof | urg | urgTrunc | urgWrite | alrm =>
      obtain ⟨hat, rfl⟩ := Option.ite_some_none_eq_some.mp h
      constructor
      assumption
    | alrmRead stack =>
      obtain ⟨⟨hruns, hpc⟩, rfl⟩ := Option.ite_some_none_eq_some.mp h
      exact .alrmRead hruns hpc
    | chld =>
      obtain ⟨⟨hpending, hidle⟩, rfl⟩ := Option.ite_some_none_eq_some.mp h
      exact .chld hpending hidle
    | wait =>
      obtain ⟨⟨hruns, hreturns⟩, rfl⟩ := Option.ite_some_none_eq_some.mp h
      exact .wait hruns hreturns
    | store | alrmTest | alrmSystem | alrmTrunc | alrmWrite =>
      -- a step of a known place, which the state has to be at
      simp only [router, Router.step] at h
      split at h
      all_goals first
        | (obtain ⟨hruns, rfl⟩ := Option.ite_some_none_eq_some.mp h
           constructor <;> assumption)
        | cases h
  · intro h
    cases h <;> simp_all [router, Router.step]

/-- A connection is accepted, and its child forked, with nothing in between. -/
def connect (fd pid : ℤ) : List Ev := [.accept fd, .fork pid, .store]

/-- One event of the system whose main loop and handlers are not interrupted. -/
inductive AtomicEv where
  | accept (fd pid : ℤ)
  | eof (pid : ℤ)
  | urg (pid : ℤ) (c : Char)
  | alrm (stack : List Char)
  | chld
  deriving DecidableEq, Repr

def Router.atomicStep (s : Router) : AtomicEv → Option Router
  | .accept fd pid => if s.Forks pid then some (s.accept fd pid) else none
  | .eof pid => if s.urgAt pid .recv then some (s.eof pid) else none
  | .urg pid c => if s.urgAt pid .recv then some (s.sigUrg pid c) else none
  | .alrm stack => some (s.sigAlrm stack)
  | .chld => if s.chldPending = true ∧ s.WaitReturns then some s.sigChld else none

/-- Parent and children, whole handlers at a time. -/
def atomicRouter : System Router AtomicEv := ⟨Router.start, Router.atomicStep⟩

/-- The steps of whole handlers, as a relation. -/
inductive Router.AtomicStep (s : Router) : AtomicEv → Router → Prop where
  | accept {fd pid} (hfork : s.Forks pid) : AtomicStep s (.accept fd pid) (s.accept fd pid)
  | eof {pid} (hat : s.urgAt pid .recv) : AtomicStep s (.eof pid) (s.eof pid)
  | urg {pid c} (hat : s.urgAt pid .recv) : AtomicStep s (.urg pid c) (s.sigUrg pid c)
  | alrm {stack} : AtomicStep s (.alrm stack) (s.sigAlrm stack)
  | chld (hpending : s.chldPending = true) (hreturns : s.WaitReturns) : AtomicStep s .chld s.sigChld

/-- What one whole handler can do. -/
theorem atomicRouter_step_iff {s s' : Router} {e : AtomicEv} :
    atomicRouter.step s e = some s' ↔ s.AtomicStep e s' := by
  constructor
  · intro h
    cases e with
    | alrm stack =>
      obtain rfl := Option.some.inj h
      exact .alrm
    | accept | eof | urg =>
      obtain ⟨hmay, rfl⟩ := Option.ite_some_none_eq_some.mp h
      constructor
      assumption
    | chld =>
      obtain ⟨⟨hpending, hreturns⟩, rfl⟩ := Option.ite_some_none_eq_some.mp h
      exact .chld hpending hreturns
  · intro h
    cases h <;> simp_all [atomicRouter, Router.atomicStep]

end NetProg.Heartbeat
