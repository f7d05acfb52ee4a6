/-
# NetProg.Heartbeat.Timed -- the heartbeat protocol with a clock.

`C/heartbeat_cli.c` calls `alarm (3)` and `C/heartbeat_srv.c` calls `alarm (2)`, each at its start and first
thing in its handler for SIGALRM.  Here the handlers of `atomicSession` run against a discrete clock.  A clock
counts the ticks since each `alarm`; the SIGALRM comes when the interval is over, at most `latency` ticks late.
While the connection works an urgent byte is read at most `delay` ticks after it was sent; `cut` is the moment
from which nothing arrives any more.  Time does not pass over a deadline: `tick` is not enabled there.
When the client has closed the connection and all it sent was read, the server's `recv` returns (`fin`), unless
the outage came first.

The sessions without time say where the token can be.  While the client has not given up, the two programs and
the connection between them are a ring of five places (`Place`), and a handler or an arrival moves the token on
(`At.step`).
-/
import NetProg.Heartbeat.SessionAtomic

namespace NetProg

/-- `#define ALARM_INTERVAL 3`, of `C/heartbeat_cli.c` and `C/heartbeat_android.c`. -/
def HeartbeatCli.alarmInterval : ℕ := 3

/-- `#define ALARM_INTERVAL 2`, of `C/heartbeat_srv.c`. -/
def HeartbeatSrv.alarmInterval : ℕ := 2

namespace HeartbeatSession

open HeartbeatCli HeartbeatSrv

/-! ## The clock -/

/-- The ticks in a second, from `send` until a byte is read, and from the expiry of an alarm until its handler
runs. -/
structure Timing where
  second : ℕ
  delay : ℕ
  latency : ℕ
  deriving DecidableEq, Repr

namespace Timing

def cliPeriod (T : Timing) : ℕ := HeartbeatCli.alarmInterval * T.second

def srvPeriod (T : Timing) : ℕ := HeartbeatSrv.alarmInterval * T.second

end Timing

/-- The session, whether the connection works, whether the server's `recv` has returned, the ticks since each
`alarm`, and for how long the oldest byte of each direction has been in flight. -/
structure Timed where
  session : Session
  linked : Bool
  ended : Bool
  cliClock : ℕ
  srvClock : ℕ
  upAge : ℕ
  downAge : ℕ
  deriving DecidableEq, Repr

/-- A byte is at the mark or will get there. -/
def moving (linked : Bool) (l : Urgent Char) : Bool := l.pending || linked && !l.wire.isEmpty

inductive TimedEv where
  | tick
  | cut
  | fin
  | act (e : AtomicEv)
  deriving DecidableEq, Repr

namespace Timed

/-- The client has called `alarm` just now, and the server `phase` ticks ago. -/
def start (cli : Client) (srv : Srv) (phase : ℕ) : Timed where
  session := Session.start cli srv
  linked := true
  ended := false
  cliClock := 0
  srvClock := phase
  upAge := 0
  downAge := 0

/-- No handler is overdue when the next tick is over. -/
def canTick (T : Timing) (t : Timed) : Prop :=
  t.cliClock < T.cliPeriod + T.latency ∧ t.srvClock < T.srvPeriod + T.latency ∧
    (moving t.linked t.session.up = true → t.upAge < T.delay) ∧
    (moving t.linked t.session.down = true → t.downAge < T.delay)

instance (T : Timing) (t : Timed) : Decidable (t.canTick T) := by
  unfold canTick
  infer_instance

def tick (t : Timed) : Timed :=
  { t with
    cliClock := t.cliClock + 1
    srvClock := t.srvClock + 1
    upAge := t.upAge + 1
    downAge := t.downAge + 1 }

/-- An alarm expires when its interval is over, and bytes arrive on a connection that works. -/
def due (T : Timing) (t : Timed) : AtomicEv → Prop
  | .sigalrm => T.cliPeriod ≤ t.cliClock
  | .srvAlrm => T.srvPeriod ≤ t.srvClock
  | .arriveUp | .arriveDown => t.linked = true
  | .srvUrg _ | .sigurg _ => True

instance (T : Timing) (t : Timed) (e : AtomicEv) : Decidable (t.due T e) := by
  unfold due
  split <;> infer_instance

/-- A handler for SIGALRM starts with `alarm`; where nothing is in flight, the next byte is the oldest one. -/
def act (t : Timed) (e : AtomicEv) (s : Session) : Timed where
  session := s
  linked := t.linked
  ended := t.ended
  cliClock := if e = .sigalrm then 0 else t.cliClock
  srvClock := if e = .srvAlrm then 0 else t.srvClock
  upAge := if t.session.up.inFlight = [] then 0 else t.upAge
  downAge := if t.session.down.inFlight = [] then 0 else t.downAge

/-- The end of the client's stream has arrived, behind its heartbeats, and was not seen yet. -/
def canEnd (t : Timed) : Prop :=
  t.linked = true ∧ t.ended = false ∧ .close ∈ t.session.log ∧ t.session.up.inFlight = []

instance (t : Timed) : Decidable t.canEnd := by
  unfold canEnd
  infer_instance

/-- The server's `main` behind its `recv`. -/
def fin (t : Timed) : Timed :=
  { t with session := { t.session with srv := t.session.srv.shutdown }, ended := true }

def step (T : Timing) (t : Timed) : TimedEv → Option Timed
  | .tick => if t.canTick T then some t.tick else none
  | .cut => some { t with linked := false }
  | .fin => if t.canEnd then some t.fin else none
  | .act e => if t.due T e then (t.session.atomicStep e).map (t.act e) else none

end Timed

/-- The session on a clock. -/
def timed (T : Timing) (cli : Client) (srv : Srv) (phase : ℕ) : System Timed TimedEv :=
  ⟨Timed.start cli srv phase, Timed.step T⟩

/-- The steps, as a relation. -/
inductive Timed.Step (T : Timing) (t : Timed) : TimedEv → Timed → Prop where
  | tick (hcan : t.canTick T) : Step T t .tick t.tick
  | cut : Step T t .cut { t with linked := false }
  | fin (hend : t.canEnd) : Step T t .fin t.fin
  | act {e s} (hdue : t.due T e) (hact : t.session.atomicStep e = some s) : Step T t (.act e) (t.act e s)

/-- What one step can do. -/
theorem timed_step_iff {T : Timing} {cli : Client} {srv : Srv} {phase : ℕ} {t t' : Timed} {e : TimedEv} :
    (timed T cli srv phase).step t e = some t' ↔ t.Step T e t' := by
  constructor
  · intro h
    cases e with
    | tick =>
      simp only [timed, Timed.step] at h
      split at h
      · obtain rfl := Option.some.inj h
        exact .tick ‹_›
      · cases h
    | cut =>
      obtain rfl := Option.some.inj h
      exact .cut
    | fin =>
      simp only [timed, Timed.step] at h
      split at h
      · obtain rfl := Option.some.inj h
        exact .fin ‹_›
      · cases h
    | act e =>
      simp only [timed, Timed.step] at h
      split at h
      · obtain ⟨s, hact, rfl⟩ := Option.map_eq_some_iff.mp h
        exact .act ‹_› hact
      · cases h
  · intro h
    cases h with
    | tick hcan => exact if_pos hcan
    | cut => rfl
    | fin hend => exact if_pos hend
    | act hdue hact => simp [timed, Timed.step, hdue, hact]

/-- What the server keeps decides nothing for the client and the connection. -/
theorem atomicStep_setSrv {s s' : Session} {e : AtomicEv} (srv : Srv) (hstep : s.atomicStep e = some s') :
    ∃ srv', { s with srv }.atomicStep e = some { s' with srv := srv' } := by
  cases e with
  | arriveUp | arriveDown =>
    obtain ⟨l, harrive, rfl⟩ := Option.map_eq_some_iff.mp hstep
    exact ⟨srv, by simp [Session.atomicStep, harrive]⟩
  | srvAlrm =>
    obtain rfl := Option.some.inj hstep
    exact ⟨srv.sigAlrm, rfl⟩
  | srvUrg junk =>
    simp only [Session.atomicStep] at hstep ⊢
    split at hstep
    · next hpending =>
      obtain rfl := Option.some.inj hstep
      refine ⟨srv.sigUrg, ?_⟩
      rw [if_pos hpending]
      unfold Session.srvUrg
      split <;> simp_all
    · cases hstep
  | sigalrm =>
    simp only [Session.atomicStep] at hstep ⊢
    split at hstep
    · next harmed =>
      obtain rfl := Option.some.inj hstep
      refine ⟨srv, ?_⟩
      rw [if_pos harmed]
      unfold Session.sigAlrm
      (repeat' split) <;> simp_all
    · cases hstep
  | sigurg junk =>
    simp only [Session.atomicStep] at hstep ⊢
    split at hstep
    · next hpending =>
      obtain rfl := Option.some.inj hstep
      refine ⟨srv, ?_⟩
      rw [if_pos hpending]
      unfold Session.sigUrg
      split <;> simp_all
    · cases hstep

/-- The time and the end of the server's `recv` aside, it is a run of the session. -/
theorem Timed.session_reachable {T : Timing} {cli : Client} {srv : Srv} {phase : ℕ} {t : Timed}
    (ht : (timed T cli srv phase).Reachable t) :
    ∃ srv', (atomicSession cli srv).Reachable { t.session with srv := srv' } := by
  refine System.invariant _ (P := fun t => ∃ srv', (atomicSession cli srv).Reachable { t.session with srv := srv' })
    ⟨srv, .init⟩ ?_ ht
  rintro t e t' - ⟨srv', hs⟩ hstep
  cases timed_step_iff.mp hstep with
  | tick | cut | fin => exact ⟨srv', hs⟩
  | act _ hact =>
    obtain ⟨srv'', hact'⟩ := atomicStep_setSrv srv' hact
    exact ⟨srv'', .step _ hs hact'⟩

/-- The log only grows. -/
theorem atomicStep_log {s s' : Session} {e : AtomicEv} (hstep : s.atomicStep e = some s') : s.log <+: s'.log := by
  cases e with
  | arriveUp | arriveDown =>
    obtain ⟨l, -, rfl⟩ := Option.map_eq_some_iff.mp hstep
    exact List.prefix_rfl
  | srvAlrm =>
    obtain rfl := Option.some.inj hstep
    exact List.prefix_rfl
  | srvUrg junk | sigalrm | sigurg junk =>
    simp only [Session.atomicStep] at hstep
    split at hstep
    · obtain rfl := Option.some.inj hstep
      first | unfold Session.srvUrg | unfold Session.sigAlrm | unfold Session.sigUrg
      (repeat' split) <;> simp
    · cases hstep

theorem Timed.Leads.log {T : Timing} {cli : Client} {srv : Srv} {phase : ℕ} {t t' : Timed}
    (h : (timed T cli srv phase).Leads t t') {a : Act} (ha : a ∈ t.session.log) : a ∈ t'.session.log := by
  obtain ⟨es, hes⟩ := h
  refine System.runFrom_induction _ es (P := fun t => a ∈ t.session.log) ?_ ha hes
  intro t e t' _ ha hstep
  cases timed_step_iff.mp hstep with
  | tick | cut | fin => exact ha
  | act _ hact => exact (atomicStep_log hact).mem ha

/-! ## The ring -/

/-- Where the token is: the client's flag, a heartbeat on its way or at the server's mark, a reply on its way or
at the client's mark. -/
inductive Place where
  | flag
  | up
  | srvMark
  | down
  | cliMark
  deriving DecidableEq, Repr

namespace Place

def upLink : Place → Urgent Char
  | .up => ⟨['c'], none, false, []⟩
  | .srvMark => ⟨[], some 'c', true, []⟩
  | .flag | .down | .cliMark => .idle

def downLink : Place → Urgent Char
  | .down => ⟨['s'], none, false, []⟩
  | .cliMark => ⟨[], some 's', true, []⟩
  | .flag | .up | .srvMark => .idle

/-- Where an event moves the token; a SIGALRM that does not find it is not among them. -/
def move : Place → AtomicEv → Option Place
  | .flag, .sigalrm => some .up
  | .up, .arriveUp => some .srvMark
  | .srvMark, .srvUrg _ => some .down
  | .down, .arriveDown => some .cliMark
  | .cliMark, .sigurg _ => some .flag
  | p, .srvAlrm => some p
  | _, _ => none

end Place

/-- What an event adds to the log while the token goes round. -/
def acts : AtomicEv → List Act
  | .sigalrm => [.alarm, .heartbeat]
  | .srvUrg _ => [.answer]
  | .sigurg _ => [.reply]
  | .arriveUp | .arriveDown | .srvAlrm => []

/-- What an event does to the server. -/
def srvAfter (srv : Srv) : AtomicEv → Srv
  | .srvUrg _ => srv.sigUrg
  | .srvAlrm => srv.sigAlrm
  | .arriveUp | .arriveDown | .sigalrm | .sigurg _ => srv

/-- The session has its one token at `p`. -/
structure At (s : Session) (p : Place) : Prop where
  flag : s.cli.gotReply = decide (p = .flag)
  armed : s.cli.armed = true
  up : s.up = p.upLink
  down : s.down = p.downLink
  live : s.live = true

namespace At

variable {s s' : Session} {p : Place} {e : AtomicEv}

theorem start (cli : Client) (srv : Srv) : At (Session.start cli srv) .flag := ⟨rfl, rfl, rfl, rfl, rfl⟩

/-- The handler for SIGALRM sends the token off, if it is there. -/
theorem sigAlrm (h : At s .flag) : At s.sigAlrm .up ∧ s.sigAlrm.srv = s.srv ∧
    s.sigAlrm.log = s.log ++ [.alarm, .heartbeat] := by
  have hgot : s.cli.gotReply = true := h.flag
  have heq : s.sigAlrm =
      { s with cli := s.cli.sigAlrm, up := s.up.send 'c', log := s.log ++ [.alarm, .heartbeat] } := by
    simp [Session.sigAlrm, hgot, h.live]
  rw [heq]
  refine ⟨⟨?_, ?_, ?_, h.down, h.live⟩, rfl, rfl⟩
  · simp [Client.sigAlrm, hgot]
  · simp [Client.sigAlrm, hgot]
  · simp [h.up, Place.upLink, Urgent.send, Urgent.idle]

/-- The server's handler turns the heartbeat into a reply. -/
theorem srvUrg (h : At s .srvMark) (junk : Char) : At (s.srvUrg junk) .down ∧
    (s.srvUrg junk).srv = s.srv.sigUrg ∧ (s.srvUrg junk).log = s.log ++ [.answer] := by
  have hmark : s.up.mark = some 'c' := by rw [h.up]; rfl
  have heq : s.srvUrg junk = { s with
      srv := s.srv.sigUrg, up := s.up.signal.take, down := s.down.send 's', log := s.log ++ [.answer] } := by
    simp [Session.srvUrg, hmark, Srv.answer, h.live]
  rw [heq]
  refine ⟨⟨h.flag, h.armed, ?_, ?_, h.live⟩, rfl, rfl⟩
  · simp [h.up, Place.upLink, Urgent.signal, Urgent.take, Urgent.idle]
  · simp [h.down, Place.downLink, Urgent.send, Urgent.idle]

/-- The client's handler turns the reply into the flag. -/
theorem sigUrg (h : At s .cliMark) (junk : Char) : At (s.sigUrg junk) .flag ∧
    (s.sigUrg junk).srv = s.srv ∧ (s.sigUrg junk).log = s.log ++ [.reply] := by
  have hmark : s.down.mark = some 's' := by rw [h.down]; rfl
  have heq : s.sigUrg junk =
      { s with cli := s.cli.sigUrg true 's', down := s.down.signal.take, log := s.log ++ [.reply] } := by
    simp [Session.sigUrg, hmark]
  rw [heq]
  refine ⟨⟨?_, ?_, h.up, ?_, h.live⟩, rfl, rfl⟩
  · simp [Client.sigUrg, Client.logs]
  · simpa [Client.sigUrg, Client.logs] using h.armed
  · simp [h.down, Place.downLink, Urgent.signal, Urgent.take, Urgent.idle]

/-- **The session goes round the ring**, but for a SIGALRM that does not find the token. -/
theorem step (h : At s p) (hstep : s.atomicStep e = some s') (hfound : e = .sigalrm → p = .flag) :
    ∃ p', p.move e = some p' ∧ At s' p' ∧ s'.srv = srvAfter s.srv e ∧ s'.log = s.log ++ acts e := by
  cases e with
  | arriveUp =>
    obtain ⟨l, harrive, rfl⟩ := Option.map_eq_some_iff.mp hstep
    rw [h.up] at harrive
    cases p with
    | up =>
      obtain rfl := Option.some.inj harrive
      exact ⟨.srvMark, rfl, ⟨h.flag, h.armed, rfl, h.down, h.live⟩, rfl, (List.append_nil _).symm⟩
    | flag | srvMark | down | cliMark => cases harrive
  | arriveDown =>
    obtain ⟨l, harrive, rfl⟩ := Option.map_eq_some_iff.mp hstep
    rw [h.down] at harrive
    cases p with
    | down =>
      obtain rfl := Option.some.inj harrive
      exact ⟨.cliMark, rfl, ⟨h.flag, h.armed, h.up, rfl, h.live⟩, rfl, (List.append_nil _).symm⟩
    | flag | up | srvMark | cliMark => cases harrive
  | srvAlrm =>
    obtain rfl := Option.some.inj hstep
    exact ⟨p, by cases p <;> rfl, ⟨h.flag, h.armed, h.up, h.down, h.live⟩, rfl, (List.append_nil _).symm⟩
  | srvUrg junk =>
    simp only [Session.atomicStep, h.up] at hstep
    cases p with
    | srvMark =>
      obtain rfl := Option.some.inj hstep
      exact ⟨.down, rfl, h.srvUrg junk⟩
    | flag | up | down | cliMark => cases hstep
  | sigalrm =>
    obtain rfl := hfound rfl
    simp only [Session.atomicStep, h.armed, if_true] at hstep
    obtain rfl := Option.some.inj hstep
    exact ⟨.up, rfl, h.sigAlrm⟩
  | sigurg junk =>
    simp only [Session.atomicStep, h.down] at hstep
    cases p with
    | cliMark =>
      obtain rfl := Option.some.inj hstep
      exact ⟨.flag, rfl, h.sigUrg junk⟩
    | flag | up | srvMark | down => cases hstep

/-- What moves the token can happen. -/
theorem enabled (h : At s p) {p' : Place} (hmove : p.move e = some p') : ∃ s', s.atomicStep e = some s' := by
  cases p <;> cases e <;> cases hmove <;>
    simp [Session.atomicStep, h.up, h.down, h.armed, Place.upLink, Place.downLink, Urgent.arrive]

/-- A SIGALRM that does not find the token closes the connection. -/
theorem close (h : At s p) (hp : p ≠ .flag) : .close ∈ s.sigAlrm.log := by
  have hgot : s.cli.gotReply = false := by rw [h.flag, decide_eq_false hp]
  simp [Session.sigAlrm, hgot]

/-- Every event moves the token on, or closes the connection. -/
theorem step_or_close (h : At s p) (hstep : s.atomicStep e = some s') :
    .close ∈ s'.log ∨ ∃ p', p.move e = some p' ∧ At s' p' := by
  by_cases hfound : e = .sigalrm → p = .flag
  · obtain ⟨p', hmove, hat, -, -⟩ := h.step hstep hfound
    exact .inr ⟨p', hmove, hat⟩
  · rw [Classical.not_imp] at hfound
    obtain ⟨rfl, hp⟩ := hfound
    simp only [Session.atomicStep, h.armed, if_true] at hstep
    obtain rfl := Option.some.inj hstep
    exact .inl (h.close hp)

end At

end HeartbeatSession

end NetProg
