/-
# NetProg.Heartbeat.ClientSockets -- when the clients close every socket once.

`conn_fd` is closed by `connect_server` when the connect failed, by the handler for SIGALRM when it finds
`got_reply` equal to 0, and in `heartbeat_android.c` by the main loop behind its `recv`.  None of them records
that it closed it.  In `heartbeat_cli.c` a session's socket is closed if exactly one SIGALRM gives up between
the connect and the next `socket`; in `heartbeat_android.c` if none does.

`Orderly` is that condition, over what was seen of the run so far; it looks at no descriptor.  Where it holds
every socket is closed once, and before the next one is made; a step that breaks it leads to a close of a
closed descriptor, or to a `socket` before the last one was closed (`one_socket`).
-/
import NetProg.Base.History
import NetProg.Heartbeat.Client

namespace NetProg.HeartbeatCli

/-! ## The law -/

/-- The descriptor of the last `socket`, unless it was closed since. -/
def owned (l : List LogEv) : Option ℤ :=
  l.foldl (fun fd e =>
    match e with
    | .socket fd' => some fd'
    | .alrmClosed _ | .mainClosed _ => none
    | _ => fd) none

/-- A socket is made when none is open, and what is closed is the one that is. -/
def SocketRule (before : List LogEv) : LogEv → Prop
  | .socket _ => owned before = none
  | .alrmClosed fd | .mainClosed fd => owned before = some fd
  | _ => True

/-- Every socket is closed once, and before the next one is made. -/
def OneSocket (l : List LogEv) : Prop := Each SocketRule l

/-! ## The condition -/

/-- A socket was made, its connect succeeded or failed, or a handler for SIGALRM found `got_reply` equal to
0. -/
inductive Mark where
  | opened
  | connected
  | refused
  | gaveUp
  deriving DecidableEq, Repr

/-- The handler for SIGALRM is the running one, and finds `got_reply` equal to 0. -/
def GivesUp (s : Client) : Prop := s.frames.head? = some (.alrm .test) ∧ s.gotReply = false

instance (s : Client) : Decidable (GivesUp s) := inferInstanceAs (Decidable (_ ∧ _))

def marks (s : Client) : Ev → List Mark
  | .main _ ok =>
    match s.pc with
    | .socket => [.opened]
    | .connect => [if ok then .connected else .refused]
    | _ => []
  | .alrm => if GivesUp s then [.gaveUp] else []
  | _ => []

/-- In `heartbeat_cli` a SIGALRM gives up only when the last mark is a successful connect, and a socket is made
only when it is not; in `heartbeat_android` no SIGALRM gives up. -/
def Orderly (v : Variant) (s : Client) (l : List Mark) : Ev → Prop
  | .main _ _ => s.pc = .socket → v.closesSession = true ∨ l.getLast? ≠ some .connected
  | .alrm => GivesUp s → v.closesSession = false ∧ l.getLast? = some .connected
  | _ => True

instance (v : Variant) (s : Client) (l : List Mark) : (e : Ev) → Decidable (Orderly v s l e)
  | .main _ _ => inferInstanceAs (Decidable (_ → _))
  | .alrm => inferInstanceAs (Decidable (_ → _))
  | .sigalrm => inferInstanceAs (Decidable True)
  | .sigurg => inferInstanceAs (Decidable True)
  | .urg _ _ => inferInstanceAs (Decidable True)

/-- The program, with the marks of its run. -/
abbrev withMarks (v : Variant) : System (Client × List Mark) Ev := (client v).observe marks

/-- Runs in which every step meets the condition. -/
abbrev orderlyRuns (v : Variant) : System (Client × List Mark) Ev :=
  (withMarks v).restrict fun p e => Orderly v p.1 p.2 e

section Owned

variable (l : List LogEv)

@[simp] theorem owned_socket (fd : ℤ) : owned (l ++ [.socket fd]) = some fd := by
  simp [owned]

@[simp] theorem owned_alrmClosed (fd : ℤ) : owned (l ++ [.alrmClosed fd]) = none := by
  simp [owned]

@[simp] theorem owned_mainClosed (fd : ℤ) : owned (l ++ [.mainClosed fd]) = none := by
  simp [owned]

/-- The entries that `SocketRule` says nothing of. -/
def LogEv.isSocket : LogEv → Bool
  | .socket _ | .alrmClosed _ | .mainClosed _ => true
  | _ => false

theorem owned_other {e : LogEv} (he : e.isSocket = false) : owned (l ++ [e]) = owned l := by
  cases e <;> simp_all [owned, LogEv.isSocket]

theorem OneSocket.other {l : List LogEv} (h : OneSocket l) {e : LogEv} (he : e.isSocket = false) :
    OneSocket (l ++ [e]) := by
  refine h.snoc ?_
  cases e with
  | socket | alrmClosed | mainClosed => cases he
  | sent | unsent | reply | cleared | lostConnection | notStartUp => trivial

/-- A heartbeat makes and closes no socket, whether it goes out or not. -/
theorem send_isSocket (s : Client) :
    (if s.connected then LogEv.sent s.connFd else .unsent s.connFd).isSocket = false := by
  cases s.connected <;> rfl

end Owned

/-! ## The invariant -/

/-- Two active handlers are for different signals. -/
def Apart (fs : List Frame) : Prop := fs.Pairwise fun f g => f.isAlrm ≠ g.isAlrm

theorem Apart.replace {f g : Frame} {fs : List Frame} (h : Apart (f :: fs)) (heq : g.isAlrm = f.isAlrm) :
    Apart (g :: fs) := by
  rw [Apart, List.pairwise_cons] at h ⊢
  exact ⟨fun x hx => heq ▸ h.1 x hx, h.2⟩

theorem Apart.tail {f : Frame} {fs : List Frame} (h : Apart (f :: fs)) : Apart fs := List.Pairwise.of_cons h

theorem apart_reachable {v : Variant} {s : Client} (hs : (client v).Reachable s) : Apart s.frames := by
  refine (client v).invariant (P := fun s => Apart s.frames) List.Pairwise.nil ?_ hs
  intro s e s' _ h hstep
  cases client_step_iff.mp hstep with
  | @main fd ok hframes =>
    have hkeep : (s.mainStep v fd ok).frames = s.frames := by
      unfold Client.mainStep
      split <;> try rfl
      · unfold Client.countFailed
        split_ifs <;> rfl
    exact hkeep ▸ h
  | sigalrm harmed hfree =>
    refine List.Pairwise.cons ?_ h
    intro f hf
    have hother := List.all_eq_true.mp hfree f hf
    simpa [Frame.isAlrm] using hother
  | sigurg hfree =>
    refine List.Pairwise.cons ?_ h
    intro f hf
    have hother := List.all_eq_true.mp hfree f hf
    simpa [Frame.isAlrm] using hother
  | @alrm pc fs hframes =>
    rw [hframes] at h
    cases pc with
    | clear => exact h.tail
    | report =>
      simp only [Client.alrmStep]
      split_ifs <;> exact h.tail
    | alarm | test | send | close => exact h.replace rfl
  | @urg got c pc fs hframes =>
    rw [hframes] at h
    cases pc with
    | reset => exact h.tail
    | recv | assign _ _ => exact h.replace rfl

theorem close_mem_cons {f : Frame} {fs : List Frame} (hne : .alrm .close ≠ f) :
    .alrm .close ∈ f :: fs ↔ .alrm .close ∈ fs := by
  rw [List.mem_cons]
  exact or_iff_right hne

/-- The main loop has closed what it closes at the end of a session. -/
def MainPc.behindSession : MainPc → Bool
  | clearReply | sleep | socket => true
  | _ => false

/-- After which marks the socket is still open; `closing` says whether a handler is about to close it. -/
def held (v : Variant) (pc : MainPc) (closing : Bool) : Option Mark → Bool
  | some .opened => true
  | some .connected => !(v.closesSession && pc.behindSession)
  | some .refused => pc == .closeFailed
  | some .gaveUp => closing
  | none => false

/-- The marks that the main loop has behind it. -/
def Stage (v : Variant) (pc : MainPc) (last : Option Mark) : Prop :=
  match pc with
  | .connect => last = some .opened
  | .closeFailed | .countFailed => last = some .refused
  | .alarm | .setReply | .recv | .clearReply => last = some .connected ∨ last = some .gaveUp
  | .closeSession => v.closesSession = true ∧ last = some .connected
  | .sleep | .socket => last ≠ some .opened

theorem Stage.gaveUp {v : Variant} {pc : MainPc} (h : Stage v pc (some .connected))
    (hcloses : v.closesSession = false) : Stage v pc (some .gaveUp) := by
  cases pc with
  | connect | closeFailed | countFailed => cases h
  | alarm | setReply | recv | clearReply => exact .inr rfl
  | closeSession =>
    rw [h.1] at hcloses
    cases hcloses
  | sleep | socket => exact fun hopened => Mark.noConfusion (Option.some.inj hopened)

/-- Within a session, and again behind it, the place does not matter. -/
theorem held_session {v : Variant} {pc pc' : MainPc} {last : Option Mark}
    (hlast : last = some .connected ∨ last = some .gaveUp) (hpc : pc'.behindSession = pc.behindSession) :
    held v pc' false last = held v pc false last := by
  rcases hlast with rfl | rfl
  · simp [held, hpc]
  · rfl

/-- Where the main loop closes no session, it matters nowhere. -/
theorem held_variant {v : Variant} {last : Option Mark} (hlast : last = some .connected ∨ last = some .gaveUp)
    (hcloses : v.closesSession = false) (pc pc' : MainPc) : held v pc' false last = held v pc false last := by
  rcases hlast with rfl | rfl
  · simp [held, hcloses]
  · rfl

/-- The law, and what is owned: `conn_fd`, when the marks say that it is open. -/
structure Holding (v : Variant) (s : Client) (l : List Mark) : Prop where
  law : OneSocket s.log
  owned : owned s.log = if held v s.pc (decide (.alrm .close ∈ s.frames)) l.getLast? then some s.connFd else none
  stage : Stage v s.pc l.getLast?
  closing : .alrm .close ∈ s.frames → l.getLast? = some .gaveUp
  gaveUp : l.getLast? = some .gaveUp → v.closesSession = false

theorem Holding.start (v : Variant) : Holding v Client.start [] where
  law := Each.nil
  owned := rfl
  stage := by simp [Stage, Client.start]
  closing := by simp [Client.start]
  gaveUp := by simp

section Step

variable {v : Variant} {s s' : Client} {l : List Mark}

/-- A handler that closes nothing and does not give up. -/
theorem Holding.congr (h : Holding v s l) (hlaw : OneSocket s'.log)
    (howned : HeartbeatCli.owned s'.log = HeartbeatCli.owned s.log) (hfd : s'.connFd = s.connFd)
    (hpc : s'.pc = s.pc) (hclose : .alrm .close ∈ s'.frames ↔ .alrm .close ∈ s.frames) : Holding v s' l where
  law := hlaw
  owned := by
    rw [howned, hfd, hpc, h.owned]
    simp only [hclose]
  stage := hpc ▸ h.stage
  closing := fun hin => h.closing (hclose.mp hin)
  gaveUp := h.gaveUp

/-- No handler is active. -/
theorem Holding.quiet (hframes : s.frames = []) (hlaw : OneSocket s.log)
    (howned : HeartbeatCli.owned s.log = if held v s.pc false l.getLast? then some s.connFd else none)
    (hstage : Stage v s.pc l.getLast?) (hgaveUp : l.getLast? = some .gaveUp → v.closesSession = false) :
    Holding v s l where
  law := hlaw
  owned := by
    rw [howned, hframes]
    rfl
  stage := hstage
  closing := by simp [hframes]
  gaveUp := hgaveUp

/-- The main loop goes on, and makes or closes no socket. -/
theorem Holding.onward (h : Holding v s l) (hframes : s.frames = []) (hlaw : OneSocket s'.log)
    (howned : HeartbeatCli.owned s'.log = HeartbeatCli.owned s.log) (hfd : s'.connFd = s.connFd)
    (hframes' : s'.frames = s.frames) (hheld : held v s'.pc false l.getLast? = held v s.pc false l.getLast?)
    (hstage : Stage v s'.pc l.getLast?) : Holding v s' l := by
  refine Holding.quiet (hframes'.trans hframes) hlaw ?_ hstage h.gaveUp
  rw [howned, h.owned, hframes, hheld, hfd]
  rfl

section MainLoop

variable {fd : ℤ} {ok : Bool}

/-- In the main loop no handler holds a socket. -/
theorem Holding.owned_main (h : Holding v s l) (hframes : s.frames = []) :
    HeartbeatCli.owned s.log = if held v s.pc false l.getLast? then some s.connFd else none := by
  rw [h.owned, hframes]
  rfl

/-- `socket`: the descriptor of the last session was closed before. -/
theorem Holding.mainSocket (h : Holding v s l) (hframes : s.frames = []) (hpc : s.pc = .socket)
    (horderly : Orderly v s l (.main fd ok)) :
    Holding v (s.mainStep v fd ok) (l ++ marks s (.main fd ok)) := by
  have howned := h.owned_main hframes
  have hstage := h.stage
  rw [hpc] at howned hstage
  have hclosed : HeartbeatCli.owned s.log = none := by
    rw [howned, if_neg]
    cases hlast : l.getLast? with
    | none => simp [held]
    | some m =>
      cases m with
      | opened => exact absurd hlast hstage
      | connected =>
        rcases horderly hpc with hcloses | hnot
        · simp [held, hcloses, MainPc.behindSession]
        · exact absurd hlast hnot
      | refused => simp [held]
      | gaveUp => simp [held]
  simp only [Client.mainStep, marks, hpc]
  refine Holding.quiet hframes (h.law.snoc hclosed) ?_ ?_ ?_
  · simp [Client.logs, held]
  · simp [Stage, Client.logs]
  · simp

/-- `connect`: the socket is open. -/
theorem Holding.mainConnect (h : Holding v s l) (hframes : s.frames = []) (hpc : s.pc = .connect) :
    Holding v (s.mainStep v fd ok) (l ++ marks s (.main fd ok)) := by
  have howned := h.owned_main hframes
  have hstage := h.stage
  rw [hpc] at howned hstage
  have hopen : HeartbeatCli.owned s.log = some s.connFd := by
    rw [howned, hstage]
    rfl
  simp only [Client.mainStep, marks, hpc]
  cases ok with
  | true =>
    refine Holding.quiet hframes h.law ?_ ?_ ?_
    · simpa [held, MainPc.behindSession] using hopen
    · simp [Stage]
    · simp
  | false =>
    refine Holding.quiet hframes h.law ?_ ?_ ?_
    · simpa [held] using hopen
    · simp [Stage]
    · simp

/-- `close` behind a `connect` that failed: the socket is the one that is open. -/
theorem Holding.mainCloseFailed (h : Holding v s l) (hframes : s.frames = []) (hpc : s.pc = .closeFailed) :
    Holding v (s.mainStep v fd ok) (l ++ marks s (.main fd ok)) := by
  have howned := h.owned_main hframes
  have hstage := h.stage
  rw [hpc] at howned hstage
  have hlast : l.getLast? = some .refused := hstage
  have hopen : HeartbeatCli.owned s.log = some s.connFd := by
    rw [howned, hlast]
    rfl
  simp only [Client.mainStep, marks, hpc, List.append_nil]
  refine Holding.quiet hframes (h.law.snoc hopen) ?_ hlast h.gaveUp
  simp [Client.logs, held, hlast]

theorem Holding.mainCountFailed (h : Holding v s l) (hframes : s.frames = []) (hpc : s.pc = .countFailed) :
    Holding v (s.mainStep v fd ok) (l ++ marks s (.main fd ok)) := by
  have hstage := h.stage
  have hlast : l.getLast? = some .refused := by
    rw [hpc] at hstage
    exact hstage
  simp only [Client.mainStep, marks, hpc, List.append_nil]
  unfold Client.countFailed
  split_ifs
  · refine h.onward hframes (h.law.other rfl) (owned_other _ rfl) rfl rfl ?_ ?_
    · simp [Client.logs, held, hpc, hlast]
    · simp [Stage, Client.logs, hlast]
  · refine h.onward hframes h.law rfl rfl rfl ?_ ?_
    · simp [held, hpc, hlast]
    · simp [Stage, hlast]

theorem Holding.mainAlarm (h : Holding v s l) (hframes : s.frames = []) (hpc : s.pc = .alarm) :
    Holding v (s.mainStep v fd ok) (l ++ marks s (.main fd ok)) := by
  have hstage := h.stage
  rw [hpc] at hstage
  simp only [Client.mainStep, marks, hpc, List.append_nil]
  refine h.onward hframes h.law rfl rfl rfl ?_ hstage
  rw [hpc]
  exact held_session hstage rfl

theorem Holding.mainSetReply (h : Holding v s l) (hframes : s.frames = []) (hpc : s.pc = .setReply) :
    Holding v (s.mainStep v fd ok) (l ++ marks s (.main fd ok)) := by
  have hstage := h.stage
  rw [hpc] at hstage
  simp only [Client.mainStep, marks, hpc, List.append_nil]
  refine h.onward hframes h.law rfl rfl rfl ?_ hstage
  rw [hpc]
  exact held_session hstage rfl

/-- `recv`: the session ends, and only some variants close it. -/
theorem Holding.mainRecv (h : Holding v s l) (hframes : s.frames = []) (hpc : s.pc = .recv) :
    Holding v (s.mainStep v fd ok) (l ++ marks s (.main fd ok)) := by
  have hstage := h.stage
  rw [hpc] at hstage
  simp only [Client.mainStep, marks, hpc, List.append_nil]
  cases hcloses : v.closesSession with
  | true =>
    have hlast : l.getLast? = some .connected := by
      apply hstage.resolve_right
      intro hgave
      rw [h.gaveUp hgave] at hcloses
      cases hcloses
    refine h.onward hframes h.law rfl rfl rfl ?_ ⟨hcloses, hlast⟩
    rw [hpc]
    exact held_session hstage rfl
  | false =>
    refine h.onward hframes h.law rfl rfl rfl ?_ hstage
    rw [hpc]
    exact held_variant hstage hcloses _ _

/-- `close` behind the session. -/
theorem Holding.mainCloseSession (h : Holding v s l) (hframes : s.frames = []) (hpc : s.pc = .closeSession) :
    Holding v (s.mainStep v fd ok) (l ++ marks s (.main fd ok)) := by
  have howned := h.owned_main hframes
  have hstage := h.stage
  rw [hpc] at howned hstage
  obtain ⟨hcloses, hlast⟩ := hstage
  have hopen : HeartbeatCli.owned s.log = some s.connFd := by
    rw [howned, hlast]
    simp [held, MainPc.behindSession]
  simp only [Client.mainStep, marks, hpc, List.append_nil]
  refine Holding.quiet hframes (h.law.snoc hopen) ?_ (.inl hlast) h.gaveUp
  simp [Client.logs, held, hlast, hcloses, MainPc.behindSession]

theorem Holding.mainClearReply (h : Holding v s l) (hframes : s.frames = []) (hpc : s.pc = .clearReply) :
    Holding v (s.mainStep v fd ok) (l ++ marks s (.main fd ok)) := by
  have hstage := h.stage
  rw [hpc] at hstage
  simp only [Client.mainStep, marks, hpc, List.append_nil]
  refine h.onward hframes (h.law.other rfl) (owned_other _ rfl) rfl rfl ?_ ?_
  · rw [hpc]
    exact held_session hstage rfl
  · rcases hstage with hlast | hlast <;> simp [Stage, Client.logs, hlast]

theorem Holding.mainSleep (h : Holding v s l) (hframes : s.frames = []) (hpc : s.pc = .sleep) :
    Holding v (s.mainStep v fd ok) (l ++ marks s (.main fd ok)) := by
  have hstage := h.stage
  rw [hpc] at hstage
  simp only [Client.mainStep, marks, hpc, List.append_nil]
  refine h.onward hframes h.law rfl rfl rfl ?_ hstage
  rw [hpc]
  cases hlast : l.getLast? with
  | none => rfl
  | some m => cases m <;> rfl

end MainLoop

/-- **The main loop**: it closes the socket of a failed connect, and of a session where it does so, and makes the
next one when the last is closed. -/
theorem Holding.mainStep (h : Holding v s l) (hframes : s.frames = []) (fd : ℤ) (ok : Bool)
    (horderly : Orderly v s l (.main fd ok)) : Holding v (s.mainStep v fd ok) (l ++ marks s (.main fd ok)) := by
  cases hpc : s.pc with
  | socket => exact h.mainSocket hframes hpc horderly
  | connect => exact h.mainConnect hframes hpc
  | closeFailed => exact h.mainCloseFailed hframes hpc
  | countFailed => exact h.mainCountFailed hframes hpc
  | alarm => exact h.mainAlarm hframes hpc
  | setReply => exact h.mainSetReply hframes hpc
  | recv => exact h.mainRecv hframes hpc
  | closeSession => exact h.mainCloseSession hframes hpc
  | clearReply => exact h.mainClearReply hframes hpc
  | sleep => exact h.mainSleep hframes hpc

/-- **The handler for SIGALRM** closes the socket of a session that no other one gave up. -/
theorem Holding.alrmStep (h : Holding v s l) (hapart : Apart s.frames) {pc : AlrmPc} {fs : List Frame}
    (hframes : s.frames = .alrm pc :: fs) (horderly : Orderly v s l .alrm) :
    Holding v (s.alrmStep fs pc) (l ++ marks s .alrm) := by
  -- the handlers below are for the other signal
  have hbelow : .alrm .close ∉ fs := by
    rw [hframes, Apart, List.pairwise_cons] at hapart
    exact fun hin => hapart.1 _ hin rfl
  have hmarks : pc ≠ .test → marks s .alrm = [] := by
    intro hne
    have hnot : ¬ GivesUp s := by
      rw [GivesUp, hframes]
      simpa using fun heq => absurd heq hne
    exact if_neg hnot
  have hclose : ∀ pc', pc ≠ .close → pc' ≠ .close →
      ((.alrm .close : Frame) ∈ .alrm pc' :: fs ↔ .alrm .close ∈ s.frames) := by
    intro pc' hne hne'
    rw [hframes, close_mem_cons (by simpa using hne'.symm), close_mem_cons (by simpa using hne.symm)]
  have hpop : pc ≠ .close → ((.alrm .close : Frame) ∈ fs ↔ .alrm .close ∈ s.frames) := by
    intro hne
    rw [hframes, close_mem_cons (by simpa using hne.symm)]
  cases pc with
  | alarm =>
    rw [hmarks (by decide), List.append_nil]
    exact h.congr h.law rfl rfl rfl (hclose .test (by decide) (by decide))
  | test =>
    by_cases hgot : s.gotReply = true
    · have hnone : marks s .alrm = [] := by
        apply if_neg
        rintro ⟨-, hclear⟩
        rw [hgot] at hclear
        cases hclear
      have hnext : s.alrmStep fs .test = { s with frames := .alrm .send :: fs } := by
        simp only [Client.alrmStep, if_pos hgot]
      rw [hnone, List.append_nil, hnext]
      exact h.congr h.law rfl rfl rfl (hclose .send (by decide) (by decide))
    · -- it gives up
      have hgives : GivesUp s := ⟨by rw [hframes]; rfl, Bool.eq_false_iff.mpr hgot⟩
      obtain ⟨hcloses, hlast⟩ := horderly hgives
      have hnext : s.alrmStep fs .test = { s with frames := .alrm .close :: fs } := by
        simp only [Client.alrmStep, if_neg hgot]
      have hmark : marks s .alrm = [.gaveUp] := if_pos hgives
      have hstage := h.stage
      rw [hlast] at hstage
      rw [hmark, hnext]
      refine ⟨h.law, ?_, ?_, ?_, ?_⟩
      · show HeartbeatCli.owned s.log = _
        rw [h.owned, hlast]
        simp [held, hcloses]
      · show Stage v s.pc _
        rw [List.getLast?_concat]
        exact hstage.gaveUp hcloses
      · intro _
        exact List.getLast?_concat
      · intro _
        exact hcloses
  | send =>
    rw [hmarks (by decide), List.append_nil]
    exact h.congr (h.law.other (send_isSocket s)) (owned_other _ (send_isSocket s)) rfl rfl
      (hclose .clear (by decide) (by decide))
  | clear =>
    rw [hmarks (by decide), List.append_nil]
    exact h.congr h.law rfl rfl rfl (hpop (by decide))
  | close =>
    have hin : .alrm .close ∈ s.frames := by
      rw [hframes]
      exact List.mem_cons_self
    have hlast := h.closing hin
    have hopen : HeartbeatCli.owned s.log = some s.connFd := by
      rw [h.owned, hlast]
      simp [held, hin]
    have hgone : (.alrm .close : Frame) ∉ .alrm .report :: fs := by simp [hbelow]
    rw [hmarks (by decide), List.append_nil]
    refine ⟨h.law.snoc hopen, ?_, h.stage, fun hin => absurd hin hgone, h.gaveUp⟩
    show HeartbeatCli.owned (s.log ++ [.alrmClosed s.connFd]) =
      if held v s.pc (decide ((.alrm .close : Frame) ∈ .alrm .report :: fs)) l.getLast? then some s.connFd
      else none
    rw [owned_alrmClosed, hlast, decide_eq_false hgone]
    rfl
  | report =>
    rw [hmarks (by decide), List.append_nil]
    simp only [Client.alrmStep]
    split_ifs
    · exact h.congr h.law rfl rfl rfl (hpop (by decide))
    · exact h.congr (h.law.other rfl) (owned_other _ rfl) rfl rfl (hpop (by decide))

theorem Holding.urgStep (h : Holding v s l) {pc : UrgPc} {fs : List Frame} {got : Bool} {c : Char}
    (hframes : s.frames = .urg pc :: fs) : Holding v (s.urgStep fs got c pc) l := by
  have hclose : ∀ pc', ((.alrm .close : Frame) ∈ .urg pc' :: fs ↔ .alrm .close ∈ s.frames) := by
    intro pc'
    rw [hframes, close_mem_cons (by simp), close_mem_cons (by simp)]
  have hpop : ((.alrm .close : Frame) ∈ fs ↔ .alrm .close ∈ s.frames) := by
    rw [hframes, close_mem_cons (by simp)]
  cases pc with
  | recv =>
    by_cases hreply : got = true ∧ c = 's'
    · simp only [Client.urgStep, if_pos hreply]
      exact h.congr (h.law.other rfl) (owned_other _ rfl) rfl rfl (hclose _)
    · simp only [Client.urgStep, if_neg hreply]
      refine h.congr ?_ ?_ rfl rfl (hclose _)
      · simpa [Client.logs] using h.law
      · simp [Client.logs]
  | assign _ c' => exact h.congr h.law rfl rfl rfl (hclose _)
  | reset => exact h.congr h.law rfl rfl rfl hpop

theorem Holding.step (h : Holding v s l) (hapart : Apart s.frames) {e : Ev} (horderly : Orderly v s l e)
    (hstep : s.Step v e s') : Holding v s' (l ++ marks s e) := by
  cases hstep with
  | main hframes => exact h.mainStep hframes _ _ horderly
  | sigalrm harmed hfree =>
    rw [show marks s .sigalrm = [] from rfl, List.append_nil]
    exact h.congr h.law rfl rfl rfl (close_mem_cons (by decide))
  | sigurg hfree =>
    rw [show marks s .sigurg = [] from rfl, List.append_nil]
    exact h.congr h.law rfl rfl rfl (close_mem_cons (by decide))
  | alrm hframes => exact h.alrmStep hapart hframes horderly
  | @urg got c pc fs hframes =>
    rw [show marks s (.urg got c) = [] from rfl, List.append_nil]
    exact h.urgStep hframes

end Step

theorem holding_reachable {v : Variant} {p : Client × List Mark} (hp : (orderlyRuns v).Reachable p) :
    Holding v p.1 p.2 := by
  refine System.restrict_observe_invariant (P := Holding v) (Holding.start v) ?_ hp
  intro s l e s' hr h horderly hstep
  exact h.step (apart_reachable hr) horderly (client_step_iff.mp hstep)

/-! ## What comes of a step that does not meet the condition -/

/-- Some continuation breaks the law. -/
def Breaks (v : Variant) (s : Client) : Prop := ∃ t, (client v).Leads s t ∧ ¬ OneSocket t.log

section Breaks

variable {v : Variant} {s t : Client}

theorem Breaks.of_leads (h : (client v).Leads s t) (ht : Breaks v t) : Breaks v s := by
  obtain ⟨u, hu, hlaw⟩ := ht
  exact ⟨u, h.trans hu, hlaw⟩

theorem not_oneSocket_of_last {l : List LogEv} {e : LogEv} (h : ¬ SocketRule l e) : ¬ OneSocket (l ++ [e]) :=
  fun hlaw => h (Each.append_singleton.mp hlaw).2

/-- A step of the main loop. -/
theorem leads_main (hframes : s.frames = []) (fd : ℤ) (ok : Bool) :
    (client v).Leads s (s.mainStep v fd ok) := .single (client_step_iff.mpr (.main hframes))

/-- The handlers for SIGURG end. -/
theorem leads_urg {fs : List Frame} (hfs : ∀ f ∈ fs, f.isAlrm = false) (hframes : s.frames = fs) :
    ∃ t, (client v).Leads s t ∧ t.frames = [] ∧ t.pc = s.pc ∧ owned t.log = owned s.log := by
  induction fs generalizing s with
  | nil => exact ⟨s, .refl s, hframes, rfl, rfl⟩
  | cons f fs ih =>
    rw [List.forall_mem_cons] at hfs
    have hreset : ∀ {s : Client}, s.frames = .urg .reset :: fs →
        ∃ t, (client v).Leads s t ∧ t.frames = [] ∧ t.pc = s.pc ∧ owned t.log = owned s.log := by
      intro s hframes
      have hstep : (client v).step s (.urg false 's') = some { s with alreadyReset := false, frames := fs } :=
        client_step_iff.mpr (.urg hframes)
      obtain ⟨t, ht, hend⟩ := ih hfs.2 (s := { s with alreadyReset := false, frames := fs }) rfl
      exact ⟨t, .step hstep ht, hend⟩
    have hassign : ∀ {s : Client} {got : Bool} {c : Char}, s.frames = .urg (.assign got c) :: fs →
        ∃ t, (client v).Leads s t ∧ t.frames = [] ∧ t.pc = s.pc ∧ owned t.log = owned s.log := by
      intro s got c hframes
      have hstep : (client v).step s (.urg false 's') =
          some { s with gotReply := c == 's', frames := .urg .reset :: fs } :=
        client_step_iff.mpr (.urg hframes)
      obtain ⟨t, ht, hend⟩ := hreset (s := { s with gotReply := c == 's', frames := .urg .reset :: fs }) rfl
      exact ⟨t, .step hstep ht, hend⟩
    cases f with
    | alrm pc => exact absurd hfs.1 Bool.noConfusion
    | urg pc =>
      cases pc with
      | reset => exact hreset hframes
      | assign got c => exact hassign hframes
      | recv =>
        have hstep : (client v).step s (.urg false 's') = some (s.urgStep fs false 's' .recv) :=
          client_step_iff.mpr (.urg hframes)
        obtain ⟨t, ht, hquiet, hpc, howned⟩ := hassign (s := s.urgStep fs false 's' .recv) rfl
        refine ⟨t, .step hstep ht, hquiet, hpc, howned.trans ?_⟩
        simp [Client.urgStep, Client.logs]

/-- The handler for SIGALRM ends. -/
theorem step_report {fs : List Frame} (hframes : s.frames = .alrm .report :: fs) :
    ∃ t, (client v).step s .alrm = some t ∧ t.frames = fs ∧ t.pc = s.pc ∧ owned t.log = owned s.log := by
  refine ⟨_, client_step_iff.mpr (.alrm hframes), ?_⟩
  by_cases hflag : s.alreadyReset = true
  · have hnext : s.alrmStep fs .report = { s with frames := fs } := if_pos hflag
    rw [hnext]
    exact ⟨rfl, rfl, rfl⟩
  · have hnext : s.alrmStep fs .report =
        { s with alreadyReset := true, frames := fs }.logs [.lostConnection] := if_neg hflag
    rw [hnext]
    exact ⟨rfl, rfl, owned_other _ rfl⟩

/-- The main loop comes to close `conn_fd`. -/
def ClosesLater (v : Variant) : MainPc → Prop
  | .connect | .closeFailed => True
  | .alarm | .setReply | .recv | .closeSession => v.closesSession = true
  | _ => False

/-- A socket that is open, and which this SIGALRM should not close, is closed by the main loop later. -/
theorem closesLater_of_held {pc : MainPc} {last : Option Mark} (hstage : Stage v pc last)
    (hheld : held v pc false last = true)
    (hnot : ¬ (v.closesSession = false ∧ last = some .connected)) : ClosesLater v pc := by
  cases last with
  | none => cases hheld
  | some m =>
    cases m with
    | opened =>
      cases pc with
      | connect => trivial
      | closeFailed | countFailed => cases hstage
      | alarm | setReply | recv | clearReply => rcases hstage with hlast | hlast <;> cases hlast
      | closeSession => cases hstage.2
      | sleep | socket => exact absurd rfl hstage
    | connected =>
      have hcloses : v.closesSession = true := by
        by_contra hno
        exact hnot ⟨Bool.eq_false_iff.mpr hno, rfl⟩
      cases pc with
      | connect | closeFailed | countFailed => cases hstage
      | alarm | setReply | recv | closeSession => exact hcloses
      | clearReply | sleep | socket => simp [held, hcloses, MainPc.behindSession] at hheld
    | refused =>
      obtain rfl : pc = .closeFailed := by simpa [held] using hheld
      trivial
    | gaveUp => cases hheld

/-- It is closed already. -/
theorem Breaks.of_closed (hframes : s.frames = []) (hpc : ClosesLater v s.pc) (hclosed : owned s.log = none) :
    Breaks v s := by
  -- the statement that closes
  have hlast : ∀ {s : Client}, s.frames = [] → s.pc = .closeFailed ∨ s.pc = .closeSession →
      owned s.log = none → Breaks v s := by
    intro s hframes hpc hclosed
    refine ⟨s.mainStep v 0 false, leads_main hframes 0 false, ?_⟩
    have hlog : (s.mainStep v 0 false).log = s.log ++ [.mainClosed s.connFd] := by
      rcases hpc with hpc | hpc <;> simp only [Client.mainStep, hpc, Client.logs]
    rw [hlog]
    apply not_oneSocket_of_last
    intro hopen
    replace hopen : owned s.log = some s.connFd := hopen
    rw [hclosed] at hopen
    cases hopen
  have hrecv : ∀ {s : Client}, s.frames = [] → s.pc = .recv → v.closesSession = true →
      owned s.log = none → Breaks v s := by
    intro s hframes hpc hcloses hclosed
    have hnext : s.mainStep v 0 false = { s with pc := .closeSession } := by
      simp only [Client.mainStep, hpc, if_pos hcloses]
    exact .of_leads (hnext ▸ leads_main hframes 0 false)
      (hlast (s := { s with pc := .closeSession }) hframes (.inr rfl) hclosed)
  have hset : ∀ {s : Client}, s.frames = [] → s.pc = .setReply → v.closesSession = true →
      owned s.log = none → Breaks v s := by
    intro s hframes hpc hcloses hclosed
    have hnext : s.mainStep v 0 false = { s with gotReply := true, pc := .recv } := by
      simp only [Client.mainStep, hpc]
    exact .of_leads (hnext ▸ leads_main hframes 0 false)
      (hrecv (s := { s with gotReply := true, pc := .recv }) hframes rfl hcloses hclosed)
  cases hat : s.pc with
  | connect =>
    have hnext : s.mainStep v 0 false = { s with connected := false, pc := .closeFailed } := by
      simp [Client.mainStep, hat]
    exact .of_leads (hnext ▸ leads_main hframes 0 false)
      (hlast (s := { s with connected := false, pc := .closeFailed }) hframes (.inl rfl) hclosed)
  | closeFailed => exact hlast hframes (.inl hat) hclosed
  | closeSession => exact hlast hframes (.inr hat) hclosed
  | recv =>
    rw [hat] at hpc
    exact hrecv hframes hat hpc hclosed
  | setReply =>
    rw [hat] at hpc
    exact hset hframes hat hpc hclosed
  | alarm =>
    rw [hat] at hpc
    have hnext : s.mainStep v 0 false = { s with armed := true, pc := .setReply } := by
      simp only [Client.mainStep, hat]
    exact .of_leads (hnext ▸ leads_main hframes 0 false)
      (hset (s := { s with armed := true, pc := .setReply }) hframes rfl hpc hclosed)
  | socket | countFailed | clearReply | sleep =>
    rw [hat] at hpc
    exact hpc.elim

/-- The handler for SIGALRM is about to close `conn_fd`, which is closed, or which the main loop closes later. -/
theorem Breaks.of_close {fs : List Frame} (hframes : s.frames = .alrm .close :: fs) (hapart : Apart s.frames)
    (hpc : owned s.log = some s.connFd → ClosesLater v s.pc) : Breaks v s := by
  have hclose : (client v).step s .alrm = some (s.alrmStep fs .close) := client_step_iff.mpr (.alrm hframes)
  by_cases hopen : owned s.log = some s.connFd
  · have hfs : ∀ f ∈ fs, f.isAlrm = false := by
      rw [hframes, Apart, List.pairwise_cons] at hapart
      intro f hf
      exact Bool.eq_false_iff.mpr (hapart.1 f hf).symm
    obtain ⟨t, hstep, htframes, htpc, htowned⟩ := step_report (v := v) (s := s.alrmStep fs .close) rfl
    have htclosed : owned t.log = none := htowned.trans (owned_alrmClosed s.log s.connFd)
    obtain ⟨u, hu, huframes, hupc, huclosed⟩ := leads_urg (v := v) hfs htframes
    refine .of_leads (.step hclose (.step hstep hu)) (Breaks.of_closed huframes ?_ (huclosed.trans htclosed))
    rw [hupc, htpc]
    exact hpc hopen
  · exact ⟨_, .single hclose, not_oneSocket_of_last hopen⟩

end Breaks

/-- **In a run that meets the condition every socket is closed once, and before the next one is made**; a step
that does not meet it leads to a run in which one is not, or is closed twice. -/
theorem one_socket (v : Variant) (p : Client × List Mark) (hp : (orderlyRuns v).Reachable p) :
    OneSocket p.1.log ∧
      ∀ e p', ¬ Orderly v p.1 p.2 e → (withMarks v).step p e = some p' → Breaks v p'.1 := by
  have h := holding_reachable hp
  refine ⟨h.law, ?_⟩
  obtain ⟨s, l⟩ := p
  rintro e ⟨s', l'⟩ hnot hobs
  obtain ⟨hstep, rfl⟩ := System.observe_step.mp hobs
  have hapart := apart_reachable (System.reachable_of_observe (System.reachable_of_restrict _ hp))
  have howned : owned s.log = if held v s.pc (decide (.alrm .close ∈ s.frames)) l.getLast? then some s.connFd
    else none := h.owned
  have hstage : Stage v s.pc l.getLast? := h.stage
  cases e with
  | main fd ok =>
    -- a socket is made while that of the session is open
    replace hnot : ¬ (s.pc = .socket → v.closesSession = true ∨ l.getLast? ≠ some .connected) := hnot
    rw [Classical.not_imp, not_or, not_not, Bool.not_eq_true] at hnot
    obtain ⟨hpc, hcloses, hlast⟩ := hnot
    cases client_step_iff.mp hstep with
    | main hframes =>
      have hlog : (s.mainStep v fd ok).log = s.log ++ [.socket fd] := by
        simp only [Client.mainStep, hpc, Client.logs]
      refine ⟨_, .refl _, ?_⟩
      show ¬ OneSocket (s.mainStep v fd ok).log
      rw [hlog]
      apply not_oneSocket_of_last
      intro hclosed
      replace hclosed : owned s.log = none := hclosed
      rw [howned, hlast] at hclosed
      simp [held, hcloses] at hclosed
  | alrm =>
    replace hnot : ¬ (GivesUp s → v.closesSession = false ∧ l.getLast? = some .connected) := hnot
    rw [Classical.not_imp] at hnot
    obtain ⟨⟨hhead, hgot⟩, hnot⟩ := hnot
    cases client_step_iff.mp hstep with
    | @alrm pc fs hframes =>
      rw [hframes, List.head?_cons, Option.some.injEq, Frame.alrm.injEq] at hhead
      subst hhead
      have hnext : s.alrmStep fs .test = { s with frames := .alrm .close :: fs } := by
        simp only [Client.alrmStep, hgot, Bool.false_eq_true, if_false]
      show Breaks v (s.alrmStep fs .test)
      rw [hnext]
      rw [hframes] at hapart
      refine Breaks.of_close rfl (hapart.replace rfl) ?_
      intro hopen
      replace hopen : owned s.log = some s.connFd := hopen
      show ClosesLater v s.pc
      have hnone : (.alrm .close : Frame) ∉ s.frames := by
        rw [hframes, close_mem_cons (by simp)]
        rw [Apart, List.pairwise_cons] at hapart
        exact fun hin => hapart.1 _ hin rfl
      have hheld : held v s.pc false l.getLast? = true := by
        by_contra hfree
        rw [howned, decide_eq_false hnone, if_neg hfree] at hopen
        cases hopen
      exact closesLater_of_held hstage hheld hnot
  | sigalrm | sigurg | urg _ _ => exact absurd trivial hnot

/-- A session that a SIGALRM gives up, and the next socket. -/
theorem one_socket_gaveUp : ∃ p, (orderlyRuns heartbeatCli).Reachable p ∧ OneSocket p.1.log ∧
    p.1.log = [.socket 3, .sent 3, .alrmClosed 3, .lostConnection, .cleared false, .socket 4] := by
  obtain ⟨p, hp, hlog⟩ := (orderlyRuns heartbeatCli).exists_reachable_of_run
    [.main 3 true, .main 3 true, .main 3 true, .main 3 true, .sigalrm, .alrm, .alrm, .alrm, .alrm,
      .sigalrm, .alrm, .alrm, .alrm, .alrm, .main 3 true, .main 3 true, .main 3 true, .main 4 true]
    (fun p => p.1.log = [.socket 3, .sent 3, .alrmClosed 3, .lostConnection, .cleared false, .socket 4])
    (by decide +kernel)
  exact ⟨p, hp, (one_socket heartbeatCli p hp).1, of_decide_eq_true hlog⟩

/-- In `heartbeat_cli` the server closes a session, and the next socket is made while that of the session is
open; in `heartbeat_android` a SIGALRM gives a session up, and the main loop closes it again. -/
theorem two_sockets :
    (∃ s, (client heartbeatCli).Reachable s ∧ s.log = [.socket 3] ++ [.cleared true] ++ [.socket 4] ∧
      ¬ OneSocket s.log) ∧
    ∃ s, (client heartbeatAndroid).Reachable s ∧
      s.log = [.socket 3, .sent 3, .alrmClosed 3, .lostConnection] ++ [.mainClosed 3] ∧ ¬ OneSocket s.log := by
  constructor
  · obtain ⟨s, hs, hlog⟩ := (client heartbeatCli).exists_reachable_of_run
      [.main 3 true, .main 3 true, .main 3 true, .main 3 true, .main 3 true, .main 3 true, .main 3 true,
        .main 4 true] (fun s => s.log = [.socket 3] ++ [.cleared true] ++ [.socket 4]) (by decide +kernel)
    rw [decide_eq_true_iff] at hlog
    refine ⟨s, hs, hlog, ?_⟩
    rw [hlog]
    apply not_oneSocket_of_last
    intro hclosed
    exact absurd (show owned [.socket 3, .cleared true] = none from hclosed) (by decide)
  · obtain ⟨s, hs, hlog⟩ := (client heartbeatAndroid).exists_reachable_of_run
      [.main 3 true, .main 3 true, .main 3 true, .main 3 true, .sigalrm, .alrm, .alrm, .alrm, .alrm,
        .sigalrm, .alrm, .alrm, .alrm, .alrm, .main 3 true, .main 3 true]
      (fun s => s.log = [.socket 3, .sent 3, .alrmClosed 3, .lostConnection] ++ [.mainClosed 3])
      (by decide +kernel)
    rw [decide_eq_true_iff] at hlog
    refine ⟨s, hs, hlog, ?_⟩
    rw [hlog]
    apply not_oneSocket_of_last
    intro hopen
    exact absurd (show owned [.socket 3, .sent 3, .alrmClosed 3, .lostConnection] = some 3 from hopen) (by decide)

end NetProg.HeartbeatCli
