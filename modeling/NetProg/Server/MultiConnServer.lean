/-
# NetProg.Server.MultiConnServer -- `C/multi_conn_server.c`.

The parent accepts connections, and forks a child for each.  A child answers one message and exits, which raises
SIGCHLD in the parent.  The handler `sig_child` waits for every child that has exited, and then exits itself: the
first SIGCHLD ends the server.  So a run keeps the server accepting exactly as long as no SIGCHLD is delivered to
it (`keepsServing_iff`).  What is waited for is never the problem: while the parent is in its loop, a child that
has exited still has a SIGCHLD pending (`Reaped`).

The steps are those of the parent, those of the children, and the signals, in any order.  A signal may come
between any two steps.  SIGINT ends a child through `sig_int_parent` or, behind its `sigaction`, through
`sig_int_child`, and other signals end it without a handler; for the parent that is all the same.  A child may
also raise SIGCHLD by being stopped.
-/
import Mathlib.Data.Fintype.EquivFin
import NetProg.Base.EventLog
import NetProg.Base.History
import NetProg.Base.System

namespace NetProg.MultiConn

/-! ## The server -/

/-- The parent is in its loop, at `accept`, `fork` or `close`; in `sig_child`, at `waitpid`; in `sig_int_parent`;
or it has exited, with what it gave to `perror`. -/
inductive ParentPc where
  | accept
  | fork
  | close
  | sigChild
  | sigIntParent
  | exited (error : Option String)
  deriving DecidableEq, Repr

/-- The child is at `sigaction`, at `close (master_sock)`, in `process`, at `exit`, or it has exited and was not
waited for. -/
inductive ChildPc where
  | sigaction
  | closeMaster
  | read
  | write
  | exit
  | zombie
  deriving DecidableEq, Repr

/-- A child, with its connection. -/
structure Child where
  pid : ℕ
  newSock : ℤ
  pc : ChildPc
  deriving DecidableEq, Repr

/-- The parent and its globals, whether a SIGCHLD is pending, and the children. -/
structure Server where
  parent : ParentPc
  masterOpen : Bool
  newSock : ℤ
  pending : Bool
  children : List Child
  deriving DecidableEq, Repr

/-- A call of the parent and its result; a call of a child, which succeeds or fails; a signal that ends a child,
or a SIGCHLD for another reason than that; a signal that is delivered to the parent; and the calls of its
handlers. -/
inductive Ev where
  | acceptFails (eintr : Bool)
  | accepted (newSock : ℤ)
  | forkFails
  | forked (pid : ℕ)
  | close
  | child (pid : ℕ) (ok : Bool)
  | killed (pid : ℕ)
  | raised
  | sigchld
  | waited (pid : ℕ)
  | waitedNone
  | sigint
  | sigIntExit
  deriving DecidableEq, Repr

/-- The parent is in its loop. -/
def ParentPc.inLoop : ParentPc → Bool
  | accept | fork | close => true
  | sigChild | sigIntParent | exited _ => false

/-- The parent has not exited. -/
def ParentPc.alive : ParentPc → Bool
  | exited _ => false
  | _ => true

/-- The child's next call; `read` and `write` exit when they fail. -/
def ChildPc.next (ok : Bool) : ChildPc → ChildPc
  | sigaction => closeMaster
  | closeMaster => read
  | read => if ok then write else zombie
  | write => if ok then exit else zombie
  | exit | zombie => zombie

namespace Server

def start : Server := ⟨.accept, true, 0, false, []⟩

def pids (s : Server) : List ℕ := s.children.map Child.pid

/-- The child `pid`, if it has not exited. -/
def running (s : Server) (pid : ℕ) : Option Child := s.children.find? fun c => c.pid = pid && c.pc ≠ .zombie

/-- The child goes on to `pc`; when it exits, a SIGCHLD is pending. -/
def move (s : Server) (pid : ℕ) (pc : ChildPc) : Server :=
  { s with
    pending := s.pending || pc = .zombie
    children := s.children.map fun c => if c.pid = pid then { c with pc := pc } else c }

def step (s : Server) : Ev → Option Server
  | .acceptFails eintr =>
    if s.parent = .accept then some (if eintr then s else { s with parent := .exited (some "accept") }) else none
  | .accepted newSock =>
    if s.parent = .accept ∧ 0 ≤ newSock then some { s with parent := .fork, newSock := newSock } else none
  | .forkFails => if s.parent = .fork then some { s with parent := .exited (some "fork") } else none
  | .forked pid =>
    if s.parent = .fork ∧ 0 < pid ∧ pid ∉ s.pids then
      some { s with parent := .close, children := s.children ++ [⟨pid, s.newSock, .sigaction⟩] }
    else none
  | .close => if s.parent = .close then some { s with parent := .accept } else none
  | .child pid ok => (s.running pid).map fun c => s.move pid (c.pc.next ok)
  | .killed pid => (s.running pid).map fun _ => s.move pid .zombie
  | .raised => some { s with pending := true }
  | .sigchld =>
    if s.pending = true ∧ s.parent.alive = true ∧ s.parent ≠ .sigChild then
      some { s with parent := .sigChild, pending := false }
    else none
  | .waited pid =>
    if s.parent = .sigChild ∧ ∃ c ∈ s.children, c.pid = pid ∧ c.pc = .zombie then
      some { s with children := s.children.filter fun c => c.pid ≠ pid }
    else none
  -- `exit(EXIT_SUCCESS)` behind the loop of `sig_child`
  | .waitedNone =>
    if s.parent = .sigChild ∧ ∀ c ∈ s.children, c.pc ≠ .zombie then some { s with parent := .exited none } else none
  | .sigint =>
    if s.parent.alive = true ∧ s.parent ≠ .sigIntParent then some { s with parent := .sigIntParent } else none
  | .sigIntExit =>
    if s.parent = .sigIntParent then some { s with parent := .exited none, masterOpen := false } else none

end Server

def server : System Server Ev := ⟨Server.start, Server.step⟩

/-- The server, with the events so far. -/
def run : System (Server × List Ev) Ev := server.observe fun _ e => [e]

/-! ## The law -/

/-- What may end the loop: SIGINT, and an error of `accept` or `fork`. -/
def Ev.ends : Ev → Bool
  | sigint | acceptFails false | forkFails => true
  | _ => false

/-- The server will still get to `accept`, if the steps are right. -/
def CanAccept (s : Server) : Prop := ∃ t, server.Leads s t ∧ t.parent = .accept

/-- In the loop, when no SIGCHLD is pending, every child that has exited was waited for. -/
def Reaped (s : Server) : Prop := s.parent.inLoop = true → s.pending = false → ∀ c ∈ s.children, c.pc ≠ .zombie

/-- The server goes on, unless it was ended as it may be, and has waited for its children. -/
structure Serves (s : Server) (l : List Ev) : Prop where
  accepts : (∀ e ∈ l, e.ends = false) → CanAccept s
  reaped : Reaped s

/-- It did so in every state of the run. -/
def KeepsServing (l : List Ev) : Prop :=
  ∀ before after s, l = before ++ after → run.Reachable (s, before) → Serves s before

/-! ## One step -/

section Step

variable {s s' : Server} {e : Ev}

/-- Nobody exits, and whether a SIGCHLD is pending stays. -/
def NoExit (s s' : Server) : Prop :=
  s'.pending = s.pending ∧ ∀ c ∈ s'.children, c.pc = .zombie → c ∈ s.children

/-- A child that exits raises SIGCHLD. -/
theorem move_pending (s : Server) (pid : ℕ) (pc : ChildPc) :
    (s.move pid pc).pending = true ∨ NoExit s (s.move pid pc) := by
  by_cases hexit : pc = .zombie
  · subst hexit
    exact .inl (Bool.or_true _)
  · refine .inr ⟨by simp [Server.move, hexit], fun c' hc' hzombie => ?_⟩
    obtain ⟨c, hc, rfl⟩ := List.mem_map.mp hc'
    split_ifs at hzombie ⊢ with hpid
    · exact absurd hzombie hexit
    · exact hc

/-- **What a step can do**: go on in the loop, something outside the parent, or leave the loop, from where no step
leads back. -/
theorem step_cases (hstep : s.step e = some s') :
    (s.parent.inLoop = true ∧ s'.parent.inLoop = true ∧ e.ends = false ∧ e ≠ .sigchld ∧ NoExit s s') ∨
    (s'.parent = s.parent ∧ e.ends = false ∧ e ≠ .sigchld ∧ (s'.pending = true ∨ NoExit s s')) ∨
    (s'.parent.inLoop = false ∧ (s.parent.inLoop = true → e.ends = true ∨ e = .sigchld)) := by
  have hsame : ∀ t : Server, NoExit t t := fun t => ⟨rfl, fun _ hc _ => hc⟩
  cases e with
  | acceptFails eintr =>
    obtain ⟨hpc, rfl⟩ := Option.ite_some_none_eq_some.mp hstep
    cases eintr with
    | true => exact .inr (.inl ⟨rfl, rfl, Ev.noConfusion, .inr (hsame s)⟩)
    | false => exact .inr (.inr ⟨rfl, fun _ => .inl rfl⟩)
  | accepted newSock =>
    obtain ⟨hpc, rfl⟩ := Option.ite_some_none_eq_some.mp hstep
    exact .inl ⟨by rw [hpc.1]; rfl, rfl, rfl, Ev.noConfusion, hsame s⟩
  | forkFails =>
    obtain ⟨-, rfl⟩ := Option.ite_some_none_eq_some.mp hstep
    exact .inr (.inr ⟨rfl, fun _ => .inl rfl⟩)
  | forked pid =>
    obtain ⟨hpc, rfl⟩ := Option.ite_some_none_eq_some.mp hstep
    refine .inl ⟨by rw [hpc.1]; rfl, rfl, rfl, Ev.noConfusion, rfl, fun c hc hzombie => ?_⟩
    rcases List.mem_append.mp hc with hold | hnew
    · exact hold
    · rw [List.mem_singleton.mp hnew] at hzombie
      cases hzombie
  | close =>
    obtain ⟨hpc, rfl⟩ := Option.ite_some_none_eq_some.mp hstep
    exact .inl ⟨by rw [hpc]; rfl, rfl, rfl, Ev.noConfusion, hsame s⟩
  | child pid ok =>
    obtain ⟨c, -, rfl⟩ := Option.map_eq_some_iff.mp hstep
    exact .inr (.inl ⟨rfl, rfl, Ev.noConfusion, move_pending s pid _⟩)
  | killed pid =>
    obtain ⟨c, -, rfl⟩ := Option.map_eq_some_iff.mp hstep
    exact .inr (.inl ⟨rfl, rfl, Ev.noConfusion, move_pending s pid _⟩)
  | raised =>
    obtain rfl := Option.some.inj hstep
    exact .inr (.inl ⟨rfl, rfl, Ev.noConfusion, .inl rfl⟩)
  | sigchld =>
    obtain ⟨-, rfl⟩ := Option.ite_some_none_eq_some.mp hstep
    exact .inr (.inr ⟨rfl, fun _ => .inr rfl⟩)
  | sigint =>
    obtain ⟨-, rfl⟩ := Option.ite_some_none_eq_some.mp hstep
    exact .inr (.inr ⟨rfl, fun _ => .inl rfl⟩)
  | waited pid =>
    obtain ⟨hpc, rfl⟩ := Option.ite_some_none_eq_some.mp hstep
    have hout : s.parent.inLoop = false := by rw [hpc.1]; rfl
    exact .inr (.inr ⟨hout, fun hin => absurd (hout.symm.trans hin) Bool.false_ne_true⟩)
  | waitedNone =>
    obtain ⟨hpc, rfl⟩ := Option.ite_some_none_eq_some.mp hstep
    have hout : s.parent.inLoop = false := by rw [hpc.1]; rfl
    exact .inr (.inr ⟨rfl, fun hin => absurd (hout.symm.trans hin) Bool.false_ne_true⟩)
  | sigIntExit =>
    obtain ⟨hpc, rfl⟩ := Option.ite_some_none_eq_some.mp hstep
    have hout : s.parent.inLoop = false := by rw [hpc]; rfl
    exact .inr (.inr ⟨rfl, fun hin => absurd (hout.symm.trans hin) Bool.false_ne_true⟩)

/-- Only SIGINT, an error and SIGCHLD leave the loop, and nothing comes back to it. -/
theorem inLoop_step (hstep : s.step e = some s') :
    s'.parent.inLoop = true ↔ s.parent.inLoop = true ∧ e.ends = false ∧ e ≠ .sigchld := by
  rcases step_cases hstep with ⟨hin, hin', hends, hother, -⟩ | ⟨hsame, hends, hother, -⟩ | ⟨hout, hwhy⟩
  · exact iff_of_true hin' ⟨hin, hends, hother⟩
  · rw [hsame]
    exact (and_iff_left ⟨hends, hother⟩).symm
  · refine iff_of_false (by rw [hout]; exact Bool.false_ne_true) fun ⟨hin, hends, hother⟩ => ?_
    rcases hwhy hin with hend | hsig
    · rw [hends] at hend
      cases hend
    · exact hother hsig

/-- **Every step keeps it**: who exits in the loop leaves a SIGCHLD pending. -/
theorem Reaped.step (hs : Reaped s) (hstep : s.step e = some s') : Reaped s' := by
  have hkept : s.parent.inLoop = true → NoExit s s' → s'.pending = false → ∀ c ∈ s'.children, c.pc ≠ .zombie :=
    fun hin hnone hquiet c hc hzombie =>
      hs hin (hnone.1.symm.trans hquiet) c (hnone.2 c hc hzombie) hzombie
  intro hin' hquiet
  rcases step_cases hstep with ⟨hin, -, -, -, hnone⟩ | ⟨hsame, -, -, hpending | hnone⟩ | ⟨hout, -⟩
  · exact hkept hin hnone hquiet
  · rw [hquiet] at hpending
    cases hpending
  · exact hkept (hsame ▸ hin') hnone hquiet
  · rw [hout] at hin'
    cases hin'

/-- **In the loop the server gets to `accept`, and outside it never does.** -/
theorem canAccept_iff : CanAccept s ↔ s.parent.inLoop = true := by
  constructor
  · rintro ⟨t, ⟨es, hes⟩, haccept⟩
    by_contra hout
    have hnever : ¬ t.parent.inLoop = true := by
      refine server.runFrom_induction (P := fun u => ¬ u.parent.inLoop = true) es ?_ hout hes
      exact fun u e u' _ hu hstep hu' => hu ((inLoop_step hstep).mp hu').1
    rw [haccept] at hnever
    exact hnever rfl
  · intro hin
    cases hpc : s.parent with
    | accept => exact ⟨s, .refl s, hpc⟩
    | close =>
      refine ⟨_, .single (e := .close) (t := { s with parent := .accept }) ?_, rfl⟩
      exact if_pos hpc
    | fork =>
      obtain ⟨pid, hfresh⟩ := Infinite.exists_notMem_finset (insert 0 s.pids.toFinset)
      rw [Finset.mem_insert, List.mem_toFinset, not_or] at hfresh
      let forked : Server :=
        { s with parent := .close, children := s.children ++ [⟨pid, s.newSock, .sigaction⟩] }
      have hforked : server.step s (.forked pid) = some forked :=
        if_pos ⟨hpc, Nat.pos_of_ne_zero hfresh.1, hfresh.2⟩
      exact ⟨{ forked with parent := .accept }, .step hforked (.single (e := .close) rfl), rfl⟩
    | sigChild | sigIntParent | exited error =>
      rw [hpc] at hin
      cases hin

end Step

/-! ## Every run -/

section Run

variable {s : Server} {l : List Ev}

/-- The parent is in its loop as long as none of these events has come; and it has waited for its children. -/
theorem run_inv (hs : run.Reachable (s, l)) :
    (s.parent.inLoop = true ↔ (∀ e ∈ l, e.ends = false) ∧ .sigchld ∉ l) ∧ Reaped s := by
  refine System.observe_invariant
    (P := fun s l => (s.parent.inLoop = true ↔ (∀ e ∈ l, e.ends = false) ∧ .sigchld ∉ l) ∧ Reaped s) ?_ ?_ hs
  · exact ⟨iff_of_true rfl ⟨fun e he => absurd he List.not_mem_nil, List.not_mem_nil⟩,
      fun _ _ c hc => absurd hc List.not_mem_nil⟩
  · rintro s l e s' - ⟨hloop, hreaped⟩ hstep
    refine ⟨?_, hreaped.step hstep⟩
    rw [inLoop_step hstep, hloop, List.forall_mem_append, List.forall_mem_singleton, List.mem_append,
      List.mem_singleton, not_or, and_and_and_comm]
    exact and_congr_right' (and_congr_right' ne_comm)

end Run

/-! ## The main result -/

/-- **When the server keeps serving**: in a run whatever the clients, the children and the signals do, exactly as
long as no SIGCHLD is delivered, except behind what may end the loop. -/
theorem keepsServing_iff {s : Server} {l : List Ev} (hs : run.Reachable (s, l)) :
    KeepsServing l ↔ Each (fun before e => e = .sigchld → ∃ c ∈ before, c.ends = true) l := by
  constructor
  · rintro hserves before e after rfl rfl
    have hcut : before ++ Ev.sigchld :: after = (before ++ [.sigchld]) ++ after := List.append_cons ..
    obtain ⟨t, ht⟩ := System.exists_reachable_before hs hcut
    by_contra hnone
    have hends : ∀ e ∈ before ++ [Ev.sigchld], e.ends = false := by
      rw [List.forall_mem_append, List.forall_mem_singleton]
      exact ⟨fun c hc => Bool.eq_false_iff.mpr fun hend => hnone ⟨c, hc, hend⟩, rfl⟩
    have hin := canAccept_iff.mp ((hserves _ _ t hcut ht).accepts hends)
    exact ((run_inv ht).1.mp hin).2 (List.mem_append_right _ List.mem_cons_self)
  · rintro heach before after t rfl ht
    refine ⟨fun hends => canAccept_iff.mpr ((run_inv ht).1.mpr ⟨hends, fun hsig => ?_⟩), (run_inv ht).2⟩
    obtain ⟨past, rest, rfl⟩ := List.append_of_mem hsig
    obtain ⟨c, hc, hend⟩ := heach past .sigchld (rest ++ after) (by simp) rfl
    rw [hends c (List.mem_append_left _ hc)] at hend
    cases hend

/-- A client comes, a call of `accept` is interrupted, and SIGINT ends the server. -/
theorem keepsServing_iff_sigint : ∃ s, run.Reachable (s, [.accepted 4, .forked 100, .close, .acceptFails true, .sigint,
    .sigIntExit]) ∧ KeepsServing [.accepted 4, .forked 100, .close, .acceptFails true, .sigint, .sigIntExit] := by
  have hs := System.reachable_of_run run
    [.accepted 4, .forked 100, .close, .acceptFails true, .sigint, .sigIntExit] rfl
  refine ⟨_, hs, (keepsServing_iff hs).mpr ?_⟩
  rintro before e after hcut rfl
  have hmem : Ev.sigchld ∈ before ++ Ev.sigchld :: after := List.mem_append_right _ List.mem_cons_self
  rw [← hcut] at hmem
  exact absurd hmem (by decide)

/-- The session of one client, and the signal of its end. -/
def oneClient : List Ev :=
  [.accepted 4, .forked 100, .close, .child 100 true, .child 100 true, .child 100 true, .child 100 true,
    .child 100 true, .sigchld, .waited 100, .waitedNone]

/-- The child of the first client exits, and the server has exited too. -/
theorem oneClient_ends_server : ∃ s, run.Reachable (s, oneClient) ∧ s.parent = .exited none ∧
    (∀ e ∈ oneClient, e.ends = false) ∧ ¬ KeepsServing oneClient := by
  have hs := System.reachable_of_run run oneClient rfl
  refine ⟨_, hs, rfl, by decide, fun hserves => ?_⟩
  have hin := canAccept_iff.mp ((hserves oneClient [] _ (List.append_nil _).symm hs).accepts (by decide))
  cases hin

end NetProg.MultiConn
