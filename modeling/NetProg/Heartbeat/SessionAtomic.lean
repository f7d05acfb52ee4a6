/-
# NetProg.Heartbeat.SessionAtomic -- the heartbeat protocol, with handlers that are not interrupted.

A run of `atomicSession` is a run of `session` in which every handler is finished before anything else
happens (`atomic_timely`).  Such a run falls into none of the windows of `Timely`, so it has both the token
law of all runs and the law of the timely ones.
-/
import NetProg.Heartbeat.SessionReply

namespace NetProg.HeartbeatSession

open NetProg.HeartbeatCli NetProg.HeartbeatSrv

variable {cli : Client} {srv : Srv} {s : Session}

/-- A step of the session that `Timely` allows. -/
theorem timely_step {s' : Session} {e : Ev} (hs : ((session cli srv).restrict Timely).Reachable s)
    (htimely : Timely s e) (hstep : s.Step e s') :
    ((session cli srv).restrict Timely).Reachable s' :=
  .step e hs (((session cli srv).restrict_step).mpr ⟨htimely, session_step_iff.mpr hstep⟩)

/-- `Timely` does not restrict the statements of the handler for SIGALRM. -/
theorem timely_alrm (hs : ((session cli srv).restrict Timely).Reachable s) (pc : AlrmPc)
    (hframes : s.cli.frames = [.alrm pc]) :
    ((session cli srv).restrict Timely).Reachable (s.alrm [] pc) :=
  timely_step hs (by simp [Timely]) (.alrm hframes)

/-- Nor those of the handler for SIGURG, when no other handler is below it. -/
theorem timely_urg (hs : ((session cli srv).restrict Timely).Reachable s) (pc : UrgPc)
    (hframes : s.cli.frames = [.urg pc]) (junk : Char) :
    ((session cli srv).restrict Timely).Reachable (s.urg [] junk pc) := by
  refine timely_step hs ?_ (.urg hframes)
  cases pc <;> simp [Timely, hframes]

/-- The delivery of a SIGALRM and the four statements of its handler are `sig_handler (SIGALRM)`. -/
theorem sigAlrm_eq (hframes : s.cli.frames = []) :
    (((s.onAlrm.alrm [] .alarm).alrm [] .test).alrm [] (if s.cli.gotReply then .send else .close)).alrm []
      (if s.cli.gotReply then .clear else .report) = s.sigAlrm := by
  rcases s with ⟨⟨connFd, connected, gotReply, expireCnt, alreadyReset, pc, frames, armed, clog⟩, srv, up, down,
    live, log⟩
  obtain rfl : frames = [] := hframes
  cases gotReply <;> cases live <;> cases alreadyReset <;>
    simp [Session.onAlrm, Session.alrm, Client.alrmStep, Client.send, Client.logs, Session.sigAlrm, Client.sigAlrm]

/-- The delivery of a SIGURG and the three statements of its handler are `sig_handler (SIGURG)`. -/
theorem sigUrg_eq (hframes : s.cli.frames = []) (junk : Char) :
    ∃ got c, ((s.onUrg.urg [] junk .recv).urg [] junk (.assign got c)).urg [] junk .reset =
        s.sigUrg junk ∧ (s.onUrg.urg [] junk .recv).cli.frames = [.urg (.assign got c)] := by
  rcases s with ⟨⟨connFd, connected, gotReply, expireCnt, alreadyReset, pc, frames, armed, clog⟩, srv, up,
    ⟨wire, mark, pending, stream⟩, live, log⟩
  obtain rfl : frames = [] := hframes
  cases mark with
  | none =>
    refine ⟨false, junk, ?_, rfl⟩
    simp [Session.onUrg, Session.urg, Client.urgStep, Client.logs, Session.sigUrg, Client.sigUrg,
      Urgent.signal]
  | some c =>
    refine ⟨true, c, ?_, rfl⟩
    simp [Session.onUrg, Session.urg, Client.urgStep, Client.logs, Session.sigUrg, Client.sigUrg,
      Urgent.signal, Urgent.take]

/-- **A run of whole handlers is a timely run of single statements.** -/
theorem atomic_timely (hs : (atomicSession cli srv).Reachable s) :
    ((session cli srv).restrict Timely).Reachable s ∧ s.cli.frames = [] ∧ s.cli.armed = true := by
  refine System.invariant (atomicSession cli srv)
    (P := fun s => ((session cli srv).restrict Timely).Reachable s ∧
      s.cli.frames = [] ∧ s.cli.armed = true) ⟨.init, rfl, rfl⟩ ?_ hs
  rintro s e s' - ⟨hreach, hframes, harmed⟩ hstep
  simp only [atomicSession] at hstep
  cases e with
  | arriveUp =>
    rcases Option.map_eq_some_iff.mp hstep with ⟨l, hl, rfl⟩
    exact ⟨timely_step hreach (by simp [Timely]) (.arriveUp hl), hframes, harmed⟩
  | arriveDown =>
    rcases Option.map_eq_some_iff.mp hstep with ⟨l, hl, rfl⟩
    exact ⟨timely_step hreach (by simp [Timely]) (.arriveDown hl), hframes, harmed⟩
  | srvUrg junk =>
    simp only [Session.atomicStep] at hstep
    split_ifs at hstep with hpending
    obtain rfl := Option.some.inj hstep
    have hcli : (s.srvUrg junk).cli = s.cli := by
      unfold Session.srvUrg
      split <;> rfl
    rw [hcli]
    exact ⟨timely_step hreach (by simp [Timely]) (.srvUrg hpending), hframes, harmed⟩
  | srvAlrm =>
    obtain rfl := Option.some.inj hstep
    exact ⟨timely_step hreach (by simp [Timely]) .srvAlrm, hframes, harmed⟩
  | sigalrm =>
    simp only [Session.atomicStep, harmed, if_true] at hstep
    obtain rfl := Option.some.inj hstep
    have hdeliver := timely_step hreach (by simp [Timely, hframes, HoldsReply])
      (.sigalrm harmed (by simp [hframes]))
    have halarm := timely_alrm hdeliver .alarm (by simp [Session.onAlrm, hframes])
    have htest := timely_alrm halarm .test rfl
    have hact := timely_alrm htest (if s.cli.gotReply then .send else .close) rfl
    have hlast := timely_alrm hact (if s.cli.gotReply then .clear else .report) (by
      cases hgot : s.cli.gotReply <;> cases hlive : s.live <;>
        simp [Session.alrm, Client.alrmStep, Client.logs, Session.onAlrm, hlive])
    rw [sigAlrm_eq hframes] at hlast
    refine ⟨hlast, ?_, ?_⟩ <;>
      (unfold Session.sigAlrm; split_ifs <;> unfold Client.sigAlrm <;> split_ifs <;>
        simp [Client.logs, hframes])
  | sigurg junk =>
    simp only [Session.atomicStep] at hstep
    split_ifs at hstep with hpending
    obtain rfl := Option.some.inj hstep
    have hdeliver := timely_step hreach (by simp [Timely]) (.sigurg hpending (by simp [hframes]))
    have hrecv := timely_urg hdeliver .recv (by simp [Session.onUrg, hframes]) junk
    obtain ⟨got, c, heq, hassign⟩ := sigUrg_eq hframes junk
    have hset := timely_urg hrecv _ hassign junk
    have hreset := timely_urg hset .reset (by simp [Session.urg, Client.urgStep]) junk
    rw [heq] at hreset
    refine ⟨hreset, ?_, ?_⟩ <;>
      (unfold Session.sigUrg; split <;> simp [Client.sigUrg, Client.logs, hframes, harmed])

/-! ## The main result -/

/-- What holds of the heartbeat protocol at every point of every run. -/
structure SessionLaws (s : Session) : Prop where
  /-- the flag, the heartbeats in flight and the replies in flight are one token -/
  token : s.cli.gotReply.toNat + s.up.inFlight.count 'c' + s.down.inFlight.count 's' ≤ 1
  /-- at most one urgent byte is outstanding, whatever it is -/
  outstanding : s.up.inFlight.length + s.down.inFlight.length ≤ 1
  /-- no urgent byte overwrote another one -/
  noOverwrite : s.up.stream = [] ∧ s.down.stream = []
  /-- every reply answers a heartbeat of its own -/
  answers : Each Answers s.log
  /-- a close means that the alarm came before the reply -/
  closes : Each Remembers s.log

/-- **One token**: the heartbeat protocol on one connection, for every order of alarms, arrivals and
handlers. -/
theorem atomicSession_laws (cli : Client) (srv : Srv) {s : Session}
    (hs : (atomicSession cli srv).Reachable s) : SessionLaws s := by
  obtain ⟨hreach, hframes, -⟩ := atomic_timely hs
  have hreply := ReplyInv.reachable hreach
  have htoken := hreply.token
  have hlone := htoken.lone
  simp only [Session.tokens, Session.holdsFlag, hframes, List.not_mem_nil, decide_false, Bool.not_false,
    Bool.and_true, List.countP_nil] at hlone
  have hdown : s.down.inFlight.length ≤ s.down.pending.toNat + s.down.wire.length := by
    have hmark := htoken.downMark
    simp only [hframes, List.not_mem_nil, or_false] at hmark
    cases hm : s.down.mark with
    | none => simp [Urgent.inFlight, hm]
    | some c =>
      rw [hmark (by simp [hm])]
      simp [Urgent.inFlight, hm, Nat.add_comm]
  refine ⟨?_, by omega, ⟨htoken.up.stream, htoken.down.stream⟩, htoken.law, hreply.law⟩
  rw [htoken.up.count_eq, htoken.down.count_eq]
  omega

/-- Two heartbeats, the first one answered; the second reply is on its way. -/
theorem atomicSession_laws_twoBeats :
    ∃ s, (atomicSession Client.start Srv.start).Reachable s ∧ s.down.inFlight = ['s'] ∧
      s.log = [.alarm, .heartbeat, .answer, .reply, .alarm, .heartbeat, .answer] ∧ SessionLaws s := by
  obtain ⟨s, hs, hend⟩ := (atomicSession Client.start Srv.start).exists_reachable_of_run
    [.sigalrm, .arriveUp, .srvUrg 'x', .arriveDown, .sigurg 'x', .sigalrm, .srvAlrm, .arriveUp,
      .srvUrg 'x']
    (fun s => s.down.inFlight == ['s'] &&
      s.log == [.alarm, .heartbeat, .answer, .reply, .alarm, .heartbeat, .answer])
    (by decide +kernel)
  simp only [Bool.and_eq_true, beq_iff_eq] at hend
  exact ⟨s, hs, hend.1, hend.2, atomicSession_laws _ _ hs⟩

end NetProg.HeartbeatSession
