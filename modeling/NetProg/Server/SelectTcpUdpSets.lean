/-
# NetProg.Server.SelectTcpUdpSets -- the read set of `C/select_tcp_udp_server.c`.

`rfds` is a local that nothing clears, neither before the loop nor in it: every pass adds the two sockets to what
is there, and `select` takes out what is not ready.  A descriptor that was in the set at the start, by chance,
stays in it for as long as every `select` leaves it there (`strayLaws`), and is watched like the sockets.  So
the server watches its two sockets, and nothing else below `max_sd`, exactly when the set held nothing else there
at the start (`select_watches_iff`).

The pass is that of `SelectTcpUdp.body`, with the set beside it.  An `fd_set` is a finite set of descriptors; what
`select` leaves of it above `max_sd` is anything.
-/
import Mathlib.Data.Finset.Insert
import NetProg.Server.SelectTcpUdp

namespace NetProg.SelectTcpUdp

/-- `listenfd` and `udpfd`. -/
structure Socks where
  listenfd : ℕ
  udpfd : ℕ
  deriving DecidableEq, Repr

/-- `listenfd > udpfd ? listenfd : udpfd`. -/
def Socks.maxSd (h : Socks) : ℕ := if h.listenfd > h.udpfd then h.listenfd else h.udpfd

/-- What `select` returns, `-1` with `errno` equal to EINTR or not, `0`, or a positive number, and the set that it
leaves. -/
inductive SetAnswer where
  | error (eintr : Bool)
  | timeout (rfds : Finset ℕ)
  | ready (rfds : Finset ℕ)
  deriving DecidableEq

/-- The kernel's answers in one pass. -/
structure PassAnswers where
  select : SetAnswer
  accept : Bool
  fork : Bool
  recv : EchoServer.RecvAnswer
  deriving DecidableEq

/-- The set behind `select`: an error leaves it as it was. -/
def SetAnswer.store (passed : Finset ℕ) : SetAnswer → Finset ℕ
  | error _ => passed
  | timeout rfds | ready rfds => rfds

/-- What the two calls of `FD_ISSET` find. -/
def SetAnswer.toSelect (h : Socks) : SetAnswer → SelectAnswer
  | error eintr => .error eintr
  | timeout _ => .timeout
  | ready rfds => .ready (decide (h.listenfd ∈ rfds)) (decide (h.udpfd ∈ rfds))

def PassAnswers.toAnswers (h : Socks) (a : PassAnswers) : Answers := ⟨a.select.toSelect h, a.accept, a.fork, a.recv⟩

/-- The set, and the locals of the echo. -/
structure Srv where
  rfds : Finset ℕ
  echo : EchoServer.Echo

namespace Srv

/-- The set that `select` is called with: `FD_SET(listenfd, &rfds); FD_SET(udpfd, &rfds);`. -/
def passed (h : Socks) (s : Srv) : Finset ℕ := insert h.udpfd (insert h.listenfd s.rfds)

/-- One pass of the `while (1)`. -/
def pass (h : Socks) (s : Srv) (a : PassAnswers) : Flow Srv :=
  (body s.echo (a.toAnswers h)).map fun echo => ⟨a.select.store (s.passed h), echo⟩

/-- Up to `max_sd`, a timeout empties the set, and what is ready was in it. -/
def Admits (h : Socks) (s : Srv) (a : PassAnswers) : Prop :=
  a.recv.Admits ∧
    match a.select with
    | .error _ => True
    | .timeout rfds => ∀ fd ∈ rfds, h.maxSd < fd
    | .ready rfds => (∀ fd ∈ rfds, fd ≤ h.maxSd → fd ∈ s.passed h) ∧ ∃ fd ∈ rfds, fd ≤ h.maxSd

instance (h : Socks) (s : Srv) : (a : PassAnswers) → Decidable (s.Admits h a)
  | ⟨.error _, _, _, _⟩ => inferInstanceAs (Decidable (_ ∧ True))
  | ⟨.timeout rfds, _, _, _⟩ => inferInstanceAs (Decidable (_ ∧ ∀ fd ∈ rfds, h.maxSd < fd))
  | ⟨.ready rfds, _, _, _⟩ => inferInstanceAs (Decidable
      (_ ∧ (∀ fd ∈ rfds, fd ≤ h.maxSd → fd ∈ s.passed h) ∧ ∃ fd ∈ rfds, fd ≤ h.maxSd))

end Srv

/-- The server, whatever `rfds` holds at the start, with the passes so far: the state that each started in, and
the kernel's answers. -/
def watcher (h : Socks) (rfds : Finset ℕ) : System (Flow Srv × List (Srv × PassAnswers)) PassAnswers :=
  (whileLoop (Srv.pass h) (Srv.Admits h) ⟨rfds, EchoServer.Echo.start⟩).observe fun f a => [(f.state, a)]

/-! ## The law -/

/-- The set, up to `max_sd`, is the two sockets. -/
def Watches (h : Socks) (passed : Finset ℕ) : Prop := passed.filter (· ≤ h.maxSd) = {h.listenfd, h.udpfd}

/-- What else there is in a set, up to `max_sd`. -/
def strays (h : Socks) (rfds : Finset ℕ) : Finset ℕ := rfds.filter (· ≤ h.maxSd) \ {h.listenfd, h.udpfd}

/-- `select` leaves `fd` in the set, if it is there. -/
def SetAnswer.Leaves (fd : ℕ) : SetAnswer → Prop
  | error _ => True
  | timeout rfds | ready rfds => fd ∈ rfds

/-! ## One pass -/

section Pass

variable {h : Socks} {rfds : Finset ℕ} {s : Srv} {a : PassAnswers} {fd : ℕ}

theorem mem_strays : fd ∈ strays h rfds ↔ (fd ∈ rfds ∧ fd ≤ h.maxSd) ∧ fd ≠ h.listenfd ∧ fd ≠ h.udpfd := by
  simp [strays]

theorem listenfd_le (h : Socks) : h.listenfd ≤ h.maxSd := by
  unfold Socks.maxSd
  split_ifs <;> omega

theorem udpfd_le (h : Socks) : h.udpfd ≤ h.maxSd := by
  unfold Socks.maxSd
  split_ifs <;> omega

/-- The two sockets are always in the set, so that only the strays count. -/
theorem watches_passed_iff : Watches h (s.passed h) ↔ strays h s.rfds = ∅ := by
  constructor
  · intro hwatches
    rw [Finset.eq_empty_iff_forall_notMem]
    intro fd hstray
    obtain ⟨⟨hmem, hle⟩, hlisten, hudp⟩ := mem_strays.mp hstray
    have hpassed : fd ∈ (s.passed h).filter (· ≤ h.maxSd) :=
      Finset.mem_filter.mpr ⟨Finset.mem_insert_of_mem (Finset.mem_insert_of_mem hmem), hle⟩
    rw [hwatches, Finset.mem_insert, Finset.mem_singleton] at hpassed
    rcases hpassed with heq | heq
    · exact hlisten heq
    · exact hudp heq
  · intro hnone
    ext fd
    rw [Finset.mem_filter, Srv.passed, Finset.mem_insert, Finset.mem_insert, Finset.mem_insert,
      Finset.mem_singleton]
    constructor
    · rintro ⟨rfl | rfl | hmem, hle⟩
      · exact .inr rfl
      · exact .inl rfl
      · by_contra hother
        rw [not_or] at hother
        have hstray : fd ∈ strays h s.rfds := mem_strays.mpr ⟨⟨hmem, hle⟩, hother⟩
        rw [hnone] at hstray
        exact absurd hstray (Finset.notMem_empty fd)
    · rintro (rfl | rfl)
      · exact ⟨.inr (.inl rfl), listenfd_le h⟩
      · exact ⟨.inl rfl, udpfd_le h⟩

/-- A stray in the set that is passed was there before. -/
theorem mem_strays_passed : fd ∈ strays h (s.passed h) ↔ fd ∈ strays h s.rfds := by
  rw [mem_strays, mem_strays, Srv.passed, Finset.mem_insert, Finset.mem_insert]
  constructor
  · rintro ⟨⟨hmem, hle⟩, hlisten, hudp⟩
    exact ⟨⟨(hmem.resolve_left hudp).resolve_left hlisten, hle⟩, hlisten, hudp⟩
  · rintro ⟨⟨hmem, hle⟩, hother⟩
    exact ⟨⟨.inr (.inr hmem), hle⟩, hother⟩

/-- **What a pass does to the strays**: it keeps those that `select` leaves in the set. -/
theorem mem_strays_pass (ha : s.Admits h a) :
    fd ∈ strays h (s.pass h a).state.rfds ↔ fd ∈ strays h s.rfds ∧ a.select.Leaves fd := by
  have hrfds : (s.pass h a).state.rfds = a.select.store (s.passed h) := by
    unfold Srv.pass
    cases body s.echo (a.toAnswers h) <;> rfl
  have hadmits := ha.2
  rw [hrfds]
  cases hselect : a.select with
  | error eintr => exact mem_strays_passed.trans (and_iff_left trivial).symm
  | timeout rfds =>
    rw [hselect] at hadmits
    -- nothing up to `max_sd` is left
    have hnone : ¬ (fd ∈ rfds ∧ fd ≤ h.maxSd) := fun hmem => absurd (hadmits fd hmem.1) (Nat.not_lt.mpr hmem.2)
    constructor
    · intro hstray
      exact absurd (mem_strays.mp hstray).1 hnone
    · rintro ⟨hstray, hmem⟩
      exact absurd ⟨hmem, (mem_strays.mp hstray).1.2⟩ hnone
  | ready rfds =>
    rw [hselect] at hadmits
    constructor
    · intro hstray
      obtain ⟨⟨hmem, hle⟩, hother⟩ := mem_strays.mp hstray
      have hbefore : fd ∈ strays h (s.passed h) := mem_strays.mpr ⟨⟨hadmits.1 fd hmem hle, hle⟩, hother⟩
      exact ⟨mem_strays_passed.mp hbefore, hmem⟩
    · rintro ⟨hstray, hmem⟩
      obtain ⟨⟨-, hle⟩, hother⟩ := mem_strays.mp hstray
      exact mem_strays.mpr ⟨⟨hmem, hle⟩, hother⟩

end Pass

/-! ## Every run -/

/-- `fd` was a stray at the start, and all the passes left it. -/
def Survives (h : Socks) (rfds : Finset ℕ) (l : List (Srv × PassAnswers)) (fd : ℕ) : Prop :=
  fd ∈ strays h rfds ∧ ∀ p ∈ l, p.2.select.Leaves fd

/-- The strays of a run, at its end and at the start of each pass. -/
structure StrayLaws (h : Socks) (rfds : Finset ℕ) (f : Flow Srv) (l : List (Srv × PassAnswers)) : Prop where
  now : ∀ fd, fd ∈ strays h f.state.rfds ↔ Survives h rfds l fd
  passes : Each (fun before p => ∀ fd, fd ∈ strays h p.1.rfds ↔ Survives h rfds before fd) l

section Run

variable {h : Socks} {rfds : Finset ℕ} {f : Flow Srv} {l : List (Srv × PassAnswers)}

theorem survives_snoc {p : Srv × PassAnswers} {fd : ℕ} :
    Survives h rfds (l ++ [p]) fd ↔ Survives h rfds l fd ∧ p.2.select.Leaves fd := by
  rw [Survives, List.forall_mem_append, List.forall_mem_singleton, ← and_assoc]
  rfl

/-- **In every run the strays are those that survived.** -/
theorem strayLaws (hf : (watcher h rfds).Reachable (f, l)) : StrayLaws h rfds f l := by
  refine whileLoop_observe_invariant (P := StrayLaws h rfds) ?_ ?_ hf
  · exact ⟨fun fd => (and_iff_left fun p hp => absurd hp List.not_mem_nil).symm, Each.nil⟩
  · rintro s l a - hs ha
    refine ⟨fun fd => ?_, hs.passes.snoc hs.now⟩
    rw [Flow.state_loopBack, mem_strays_pass ha, survives_snoc]
    exact and_congr_left' (hs.now fd)

/-- A pass watches the two sockets when every stray of the start was left out by a pass before it. -/
theorem watches_iff (hf : (watcher h rfds).Reachable (f, l)) :
    Each (fun before p => Watches h (p.1.passed h) ↔
      ∀ fd ∈ strays h rfds, ∃ q ∈ before, ¬ q.2.select.Leaves fd) l := by
  refine (strayLaws hf).passes.mono fun before p hstrays => ?_
  rw [watches_passed_iff, Finset.eq_empty_iff_forall_notMem]
  refine forall_congr' fun fd => ?_
  rw [hstrays fd, Survives]
  push Not
  rfl

end Run

/-! ## The main result -/

/-- **When `select_tcp_udp_server` watches its two sockets.**  In all passes of all runs exactly when `rfds` held
nothing else up to `max_sd` at the start; and in a pass of a run exactly when each such descriptor was left out by
a `select` before it. -/
theorem select_watches_iff (h : Socks) (rfds : Finset ℕ) :
    ((∀ f l, (watcher h rfds).Reachable (f, l) → ∀ p ∈ l, Watches h (p.1.passed h)) ↔ strays h rfds = ∅) ∧
    ∀ f l, (watcher h rfds).Reachable (f, l) → Each (fun before p => Watches h (p.1.passed h) ↔
      ∀ fd ∈ strays h rfds, ∃ q ∈ before, ¬ q.2.select.Leaves fd) l := by
  refine ⟨⟨fun hall => ?_, fun hnone f l hf p hp => ?_⟩, fun f l hf => watches_iff hf⟩
  · -- one pass, which is interrupted
    have hf : (watcher h rfds).Reachable _ := System.reachable_of_run (watcher h rfds)
      [⟨.error true, true, true, .data []⟩] rfl
    exact watches_passed_iff.mp (hall _ _ hf _ List.mem_cons_self)
  · obtain ⟨before, after, rfl⟩ := List.append_of_mem hp
    refine (watches_iff hf before p after rfl).mpr fun fd hfd => ?_
    rw [hnone] at hfd
    exact absurd hfd (Finset.notMem_empty fd)

/-- Standard input is in the set at the start: as long as it is ready, it stays there. -/
theorem select_watches_stdin : ∃ f l, (watcher ⟨3, 4⟩ {0}).Reachable (f, l) ∧
    l.map (fun p => p.1.passed ⟨3, 4⟩) = [{0, 3, 4}, {0, 3, 4}] ∧ ∀ p ∈ l, ¬ Watches ⟨3, 4⟩ (p.1.passed ⟨3, 4⟩) := by
  obtain ⟨⟨f, l⟩, hf, hsets⟩ := (watcher ⟨3, 4⟩ {0}).exists_reachable_of_run
    [⟨.ready {0}, true, true, .data []⟩, ⟨.ready {0}, true, true, .data []⟩]
    (fun q => q.2.map (fun p => p.1.passed ⟨3, 4⟩) == [{0, 3, 4}, {0, 3, 4}]) (by decide +kernel)
  have hpassed := beq_iff_eq.mp hsets
  refine ⟨f, l, hf, hpassed, fun p hp => ?_⟩
  have hset : p.1.passed ⟨3, 4⟩ ∈ [{0, 3, 4}, {0, 3, 4}] := hpassed ▸ List.mem_map_of_mem hp
  have heq : p.1.passed ⟨3, 4⟩ = {0, 3, 4} := by simpa using hset
  rw [heq]
  show ¬ Finset.filter (· ≤ Socks.maxSd ⟨3, 4⟩) {0, 3, 4} = {3, 4}
  decide

end NetProg.SelectTcpUdp
