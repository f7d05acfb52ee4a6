/-
# NetProg.Heartbeat.TimedOutage -- how long an outage goes unnoticed.

From `cut` on nothing arrives.  The client sends at most one more heartbeat, and gives up at the SIGALRM behind
it (`Fading`).  The server reads at most the one heartbeat that is at its mark already, and reports at the fourth
SIGALRM behind that (`Silence`), unless its `recv` had returned before: then `already_reset` keeps it quiet.
Time goes on all the while: a handler that is due can run.
-/
import NetProg.Base.Progress
import NetProg.Heartbeat.Timed
import NetProg.Heartbeat.SrvExpiry

namespace NetProg.HeartbeatSession

open NetProg.HeartbeatCli NetProg.HeartbeatSrv

variable {T : Timing} {cli : Client} {srv : Srv} {phase k : ℕ} {t t' : Timed} {s s' : Session} {e : AtomicEv}

/-! ## What an event does to the server's side -/

def AtomicEv.isSrvUrg : AtomicEv → Bool
  | .srvUrg _ => true
  | .arriveUp | .arriveDown | .srvAlrm | .sigalrm | .sigurg _ => false

/-- The server runs its handlers; only an arrival makes a signal pending for it; and only it answers. -/
theorem atomicStep_server (hstep : s.atomicStep e = some s') :
    s'.srv = srvAfter s.srv e ∧ (e ≠ .arriveUp → s'.up.pending = (s.up.pending && !e.isSrvUrg)) ∧
      (.answer ∈ s'.log → .answer ∈ s.log ∨ e.isSrvUrg = true) := by
  cases e with
  | arriveUp | arriveDown =>
    obtain ⟨l, -, rfl⟩ := Option.map_eq_some_iff.mp hstep
    simp [srvAfter, AtomicEv.isSrvUrg]
  | srvAlrm =>
    obtain rfl := Option.some.inj hstep
    simp [srvAfter, AtomicEv.isSrvUrg, Session.srvAlrm]
  | srvUrg junk =>
    simp only [Session.atomicStep] at hstep
    split at hstep
    · obtain rfl := Option.some.inj hstep
      unfold Session.srvUrg
      split <;> simp [srvAfter, AtomicEv.isSrvUrg, Urgent.signal, Urgent.take]
    · cases hstep
  | sigalrm =>
    simp only [Session.atomicStep] at hstep
    split at hstep
    · obtain rfl := Option.some.inj hstep
      unfold Session.sigAlrm
      (repeat' split) <;> simp [srvAfter, AtomicEv.isSrvUrg, Urgent.send]
    · cases hstep
  | sigurg junk =>
    simp only [Session.atomicStep] at hstep
    split at hstep
    · obtain rfl := Option.some.inj hstep
      unfold Session.sigUrg
      (repeat' split) <;> simp [srvAfter, AtomicEv.isSrvUrg]
    · cases hstep

/-! ## The client -/

/-- The client has given up; or it has not called `alarm` since the outage began, `k` ticks ago; or it has, once,
and has sent the last heartbeat there. -/
structure Fading (T : Timing) (k : ℕ) (t : Timed) : Prop where
  cut : t.linked = false
  clock : t.cliClock ≤ T.cliPeriod + T.latency
  client : .close ∈ t.session.log ∨ ∃ p, At t.session p ∧
    (k ≤ t.cliClock ∨ p = .up ∧ k ≤ t.cliClock + (T.cliPeriod + T.latency))

theorem Fading.act (h : Fading T k t) (hdue : t.due T e) (hact : t.session.atomicStep e = some s) :
    Fading T k (t.act e s) := by
  have hclock := h.clock
  refine ⟨h.cut, ?_, ?_⟩
  · simp only [Timed.act]
    split_ifs <;> omega
  · rcases h.client with hclose | ⟨p, hat, hsince⟩
    · exact .inl ((atomicStep_log hact).mem hclose)
    · refine (hat.step_or_close hact).imp_right ?_
      rintro ⟨p', hmove, hat'⟩
      refine ⟨p', hat', ?_⟩
      cases e with
      | sigalrm =>
        -- the last heartbeat, unless it was sent before
        cases p <;> cases hmove
        rcases hsince with hsince | ⟨⟨⟩, -⟩
        exact .inr ⟨rfl, by simp only [Timed.act, if_true]; omega⟩
      | arriveUp | arriveDown => exact absurd (h.cut.symm.trans hdue) (by decide)
      | srvAlrm | srvUrg | sigurg =>
        refine hsince.imp_right ?_
        rintro ⟨rfl, hlast⟩
        exact ⟨by cases hmove <;> rfl, hlast⟩

theorem Fading.step (h : Fading T k t) {e : TimedEv} (hstep : t.Step T e t') :
    Fading T (k + if e = .tick then 1 else 0) t' := by
  cases hstep with
  | tick hcan =>
    refine ⟨h.cut, hcan.1, h.client.imp_right ?_⟩
    rintro ⟨p, hat, hsince⟩
    refine ⟨p, hat, hsince.imp (fun hle => ?_) fun hle => ⟨hle.1, ?_⟩⟩
    · exact Nat.add_le_add_right hle 1
    · show k + 1 ≤ t.cliClock + 1 + _
      omega
  | cut => exact ⟨rfl, h.clock, h.client⟩
  | fin hend => exact absurd (h.cut.symm.trans hend.1) (by decide)
  | act hdue hact => exact h.act hdue hact

/-! ## The server -/

/-- Since its first answer the server's flag is clear and it counts to `PEER_EXPIRE_CNT`. -/
def Counting (srv : Srv) (m : ℕ) : Prop := srv.alreadyReset = false ∧ srv.expireCnt = m ∧ m ≤ 3

/-- A SIGALRM counts, or reports. -/
theorem Counting.alrm {m : ℕ} (h : Counting srv m) :
    m < 3 ∧ Counting srv.sigAlrm (m + 1) ∧ srv.sigAlrm.reports = srv.reports ∨
      Counting srv.sigAlrm 0 ∧ srv.sigAlrm.reports = srv.reports ++ [.notStartUp] := by
  obtain ⟨hflag, hm, hle⟩ := h
  rcases sigAlrm_cases srv with ⟨-, -, heq⟩ | ⟨hnot, -, heq⟩
  · rw [heq]
    exact .inr ⟨⟨hflag, rfl, by omega⟩, rfl⟩
  · have hless : m < 3 := by
      by_contra hthree
      refine hnot ⟨?_, hflag⟩
      rw [hm]
      simp only [peerExpireCnt]
      omega
    rw [heq]
    refine .inl ⟨hless, ⟨hflag, ?_, hless⟩, rfl⟩
    show wrap32 (srv.expireCnt + 1) = _
    rw [hm, wrap32_eq (by omega) (by omega)]
    rfl

/-- An answer starts the count. -/
theorem Counting.urg (srv : Srv) (he : e.isSrvUrg = true) : Counting (srvAfter srv e) 0 := by
  cases e with
  | srvUrg junk => exact ⟨rfl, rfl, by omega⟩
  | arriveUp | arriveDown | srvAlrm | sigalrm | sigurg => cases he

theorem Counting.after {m : ℕ} (h : Counting srv m) (e : AtomicEv) : ∃ m', Counting (srvAfter srv e) m' := by
  cases e with
  | srvUrg junk => exact ⟨0, .urg srv rfl⟩
  | srvAlrm => exact h.alrm.elim (fun h => ⟨_, h.2.1⟩) fun h => ⟨_, h.1⟩
  | arriveUp | arriveDown | sigalrm | sigurg => exact ⟨m, h⟩

/-- Reports are only added. -/
theorem srvAfter_reports (srv : Srv) (e : AtomicEv) : srv.reports <+: (srvAfter srv e).reports := by
  cases e with
  | srvAlrm =>
    rcases sigAlrm_cases srv with ⟨-, -, heq⟩ | ⟨-, -, heq⟩
    · exact ⟨[.notStartUp], by rw [srvAfter, heq]⟩
    · exact ⟨[], by rw [srvAfter, heq, List.append_nil]⟩
  | arriveUp | arriveDown | srvUrg | sigalrm | sigurg => exact List.prefix_rfl

/-- What holds of the server's clock and of the bytes it will read, in all runs. -/
structure SrvTimely (T : Timing) (t : Timed) : Prop where
  clock : t.srvClock ≤ T.srvPeriod + T.latency
  age : moving t.linked t.session.up = true → t.upAge ≤ T.delay
  ended : t.ended = true → .close ∈ t.session.log
  counting : t.ended = false → .answer ∈ t.session.log → ∃ m, Counting t.session.srv m

/-- What moves after an event has moved before it, unless it was just sent. -/
theorem moving_act (htoken : TokenInv t.session) (hfree : t.session.cli.frames = []) (hdue : t.due T e)
    (hact : t.session.atomicStep e = some s) (hbusy : t.session.up.inFlight ≠ [])
    (hmoving : moving t.linked s.up = true) : moving t.linked t.session.up = true := by
  cases e with
  | arriveUp =>
    obtain ⟨l, harrive, -⟩ := Option.map_eq_some_iff.mp hact
    have hlinked : t.linked = true := hdue
    unfold Urgent.arrive at harrive
    split at harrive
    · cases harrive
    · simp [moving, *]
  | arriveDown =>
    obtain ⟨l, -, rfl⟩ := Option.map_eq_some_iff.mp hact
    exact hmoving
  | srvAlrm =>
    obtain rfl := Option.some.inj hact
    exact hmoving
  | srvUrg junk =>
    simp only [Session.atomicStep] at hact
    split at hact
    · simp [moving, *]
    · cases hact
  | sigurg junk =>
    simp only [Session.atomicStep] at hact
    split at hact
    · obtain rfl := Option.some.inj hact
      unfold Session.sigUrg at hmoving
      split at hmoving <;> exact hmoving
    · cases hact
  | sigalrm =>
    simp only [Session.atomicStep] at hact
    split at hact
    · obtain rfl := Option.some.inj hact
      by_cases hgot : t.session.cli.gotReply = true
      · -- the flag is the token, so nothing is in flight
        have hlone := htoken.lone
        have hflag : t.session.holdsFlag = true := by simp [Session.holdsFlag, hgot, hfree]
        rw [Session.tokens, hflag, Bool.toNat_true] at hlone
        exact absurd (List.length_eq_zero_iff.mp (by omega)) hbusy
      · have hup : t.session.sigAlrm.up = t.session.up := by simp [Session.sigAlrm, hgot]
        rwa [hup] at hmoving
    · cases hact

/-- The token law, and that no handler is active between two events. -/
theorem Timed.token (ht : (timed T cli srv phase).Reachable t) :
    TokenInv t.session ∧ t.session.cli.frames = [] ∧ t.session.cli.armed = true := by
  obtain ⟨srv', hsession⟩ := Timed.session_reachable ht
  obtain ⟨hreach, hfree, harmed⟩ := atomic_timely hsession
  have h := (ReplyInv.reachable hreach).token
  exact ⟨⟨h.lone, h.oneAlrm, h.send, h.up, h.upMark, h.down, h.downMark, h.beats, h.law⟩, hfree, harmed⟩

theorem SrvTimely.reachable (hphase : phase ≤ T.srvPeriod + T.latency)
    (ht : (timed T cli srv phase).Reachable t) : SrvTimely T t := by
  refine System.invariant _ (P := SrvTimely T) ?_ ?_ ht
  · exact ⟨hphase, fun _ => Nat.zero_le _, nofun, fun _ h => absurd h List.not_mem_nil⟩
  intro t e t' ht h hstep
  obtain ⟨htoken, hfree, -⟩ := Timed.token ht
  cases timed_step_iff.mp hstep with
  | tick hcan => exact ⟨hcan.2.1, fun hmoving => hcan.2.2.1 hmoving, h.ended, h.counting⟩
  | cut =>
    refine ⟨h.clock, fun hmoving => h.age ?_, h.ended, h.counting⟩
    have hpending : t.session.up.pending = true := by simpa [moving] using hmoving
    simp [moving, hpending]
  | fin hend => exact ⟨h.clock, h.age, fun _ => hend.2.2.1, nofun⟩
  | act hdue hact =>
    obtain ⟨hsrv, -, hanswer⟩ := atomicStep_server hact
    refine ⟨?_, fun hmoving => ?_, fun hended => (atomicStep_log hact).mem (h.ended hended), fun hopen hanswered => ?_⟩
    · have := h.clock
      simp only [Timed.act]
      split_ifs <;> omega
    · simp only [Timed.act]
      split_ifs with hidle
      · exact Nat.zero_le _
      · exact h.age (moving_act htoken hfree hdue hact hidle hmoving)
    · rcases hanswer hanswered with hbefore | hurg
      · obtain ⟨m, hm⟩ := h.counting hopen hbefore
        exact hsrv ▸ hm.after _
      · exact ⟨0, hsrv ▸ .urg _ hurg⟩

/-- The server has reported since the outage began, `k` ticks ago; or a heartbeat is still at its mark; or it has
counted the intervals since. -/
structure Silence (T : Timing) (before : List Report) (k : ℕ) (t : Timed) : Prop where
  cut : t.linked = false
  server : (∃ rs, t.session.srv.reports = before ++ .notStartUp :: rs) ∨
    t.session.srv.reports = before ∧ ∃ m, Counting t.session.srv m ∧
      (t.session.up.pending = true ∧ k ≤ t.upAge ∨
        t.session.up.pending = false ∧ k ≤ T.delay + m * (T.srvPeriod + T.latency) + t.srvClock)

theorem Silence.act {before : List Report} (h : Silence T before k t) (htimely : SrvTimely T t)
    (htoken : TokenInv t.session) (hdue : t.due T e) (hact : t.session.atomicStep e = some s) :
    Silence T before k (t.act e s) := by
  have harrive : e ≠ .arriveUp := by
    rintro rfl
    exact Bool.false_ne_true (h.cut.symm.trans hdue)
  obtain ⟨hsrv, hpending, -⟩ := atomicStep_server hact
  replace hpending := hpending harrive
  have hsame : e.isSrvUrg = false → s.up.pending = t.session.up.pending := by
    intro hnot
    rw [hpending, hnot, Bool.not_false, Bool.and_true]
  refine ⟨h.cut, ?_⟩
  rcases h.server with ⟨rs, hreported⟩ | ⟨hbefore, m, hm, hk⟩
  · obtain ⟨more, hmore⟩ := srvAfter_reports t.session.srv e
    refine .inl ⟨rs ++ more, ?_⟩
    show s.srv.reports = _
    rw [hsrv, ← hmore, hreported, List.append_assoc, List.cons_append]
  · have hage : t.session.up.pending = true → (t.act e s).upAge = t.upAge ∧ t.upAge ≤ T.delay := by
      intro hpend
      obtain ⟨c, hmark⟩ := Option.isSome_iff_exists.mp (htoken.upMark hpend)
      exact ⟨if_neg (by simp [Urgent.inFlight, hmark]), htimely.age (by simp [moving, hpend])⟩
    cases e with
    | srvUrg junk =>
      have hpend : t.session.up.pending = true := by
        by_contra hnot
        simp [Session.atomicStep, hnot] at hact
      obtain ⟨-, hle⟩ := hage hpend
      refine .inr ⟨?_, 0, ?_, .inr ⟨?_, ?_⟩⟩
      · show s.srv.reports = _
        rw [hsrv]
        exact hbefore
      · show Counting s.srv 0
        exact hsrv ▸ .urg _ rfl
      · show s.up.pending = false
        rw [hpending, hpend]
        rfl
      · rcases hk with ⟨-, hk⟩ | ⟨hnot, -⟩
        · omega
        · rw [hpend] at hnot
          cases hnot
    | srvAlrm =>
      have hclock := htimely.clock
      rcases hm.alrm with ⟨-, hcounts, hquiet⟩ | ⟨-, hreports⟩
      · refine .inr ⟨?_, m + 1, ?_, ?_⟩
        · show s.srv.reports = _
          rw [hsrv, srvAfter, hquiet, hbefore]
        · show Counting s.srv _
          rwa [hsrv]
        · rcases hk with ⟨hpend, hk⟩ | ⟨hnone, hk⟩
          · exact .inl ⟨(hsame rfl).trans hpend, hk.trans_eq (hage hpend).1.symm⟩
          · refine .inr ⟨(hsame rfl).trans hnone, ?_⟩
            simp only [Timed.act, if_true, Nat.add_mul]
            omega
      · refine .inl ⟨[], ?_⟩
        show s.srv.reports = _
        rw [hsrv, srvAfter, hreports, hbefore]
    | arriveUp => exact absurd rfl harrive
    | arriveDown | sigalrm | sigurg =>
      refine .inr ⟨?_, m, ?_, ?_⟩
      · show s.srv.reports = _
        rw [hsrv]
        exact hbefore
      · show Counting s.srv _
        rwa [hsrv]
      · rcases hk with ⟨hpend, hk⟩ | ⟨hnone, hk⟩
        · exact .inl ⟨(hsame rfl).trans hpend, hk.trans_eq (hage hpend).1.symm⟩
        · exact .inr ⟨(hsame rfl).trans hnone, hk⟩

theorem Silence.step {before : List Report} (h : Silence T before k t) (htimely : SrvTimely T t)
    (htoken : TokenInv t.session) {e : TimedEv} (hstep : t.Step T e t') :
    Silence T before (k + if e = .tick then 1 else 0) t' := by
  cases hstep with
  | tick hcan =>
    refine ⟨h.cut, h.server.imp_right ?_⟩
    rintro ⟨hbefore, m, hm, hk⟩
    refine ⟨hbefore, m, hm, hk.imp (fun hk => ⟨hk.1, ?_⟩) fun hk => ⟨hk.1, ?_⟩⟩
    · exact Nat.add_le_add_right hk.2 1
    · show k + 1 ≤ _ + (t.srvClock + 1)
      omega
  | cut => exact ⟨rfl, h.server⟩
  | fin hend => exact absurd (h.cut.symm.trans hend.1) (by decide)
  | act hdue hact => exact h.act htimely htoken hdue hact

/-! ## Time goes on -/

theorem sigAlrm_pending (s : Session) :
    s.sigAlrm.up.pending = s.up.pending ∧ s.sigAlrm.down.pending = s.down.pending := by
  unfold Session.sigAlrm
  (repeat' split) <;> exact ⟨rfl, rfl⟩

theorem sigUrg_pending (s : Session) (junk : Char) :
    (s.sigUrg junk).up = s.up ∧ (s.sigUrg junk).down.pending = false := by
  unfold Session.sigUrg
  split <;> exact ⟨rfl, rfl⟩

section Tick

variable (hsecond : 0 < T.second) (hcut : t.linked = false) (hup : t.session.up.pending = false)
include hsecond hcut hup

/-- Nothing is pending, and the client's alarm is not overdue. -/
theorem tick_srvAlrm (hdown : t.session.down.pending = false) (hcli : t.cliClock < T.cliPeriod + T.latency) :
    ∃ t', (timed T cli srv phase).Takes .tick 1 t t' ∧ t'.linked = false := by
  have hperiod : 0 < T.srvPeriod := Nat.mul_pos (by decide) hsecond
  have htick : ∀ u : Timed, u.session.up.pending = false → u.session.down.pending = false → u.linked = false →
      u.cliClock < T.cliPeriod + T.latency → u.srvClock < T.srvPeriod + T.latency →
      (timed T cli srv phase).Takes .tick 1 u u.tick := by
    intro u hup hdown hcut hcli hsrv
    have hcan : u.canTick T := ⟨hcli, hsrv, by simp [moving, hcut, hup], by simp [moving, hcut, hdown]⟩
    exact .cons (timed_step_iff.mpr (.tick hcan)) (.refl _)
  by_cases hsrv : t.srvClock < T.srvPeriod + T.latency
  · exact ⟨_, htick t hup hdown hcut hcli hsrv, hcut⟩
  · have hdue : t.due T .srvAlrm := by
      show T.srvPeriod ≤ t.srvClock
      omega
    have hserved := htick (t.act .srvAlrm t.session.srvAlrm) hup hdown hcut hcli
      (hperiod.trans_le (Nat.le_add_right _ _))
    exact ⟨_, .skip (by decide) (timed_step_iff.mpr (.act hdue rfl)) hserved, hcut⟩

/-- Nothing is pending. -/
theorem tick_sigalrm (harmed : t.session.cli.armed = true) (hdown : t.session.down.pending = false) :
    ∃ t', (timed T cli srv phase).Takes .tick 1 t t' ∧ t'.linked = false := by
  have hperiod : 0 < T.cliPeriod := Nat.mul_pos (by decide) hsecond
  by_cases hcli : t.cliClock < T.cliPeriod + T.latency
  · exact tick_srvAlrm hsecond hcut hup hdown hcli
  · have hdue : t.due T .sigalrm := by
      show T.cliPeriod ≤ t.cliClock
      omega
    obtain ⟨hup', hdown'⟩ := sigAlrm_pending t.session
    obtain ⟨t', htakes, hcut'⟩ : ∃ t', (timed T cli srv phase).Takes .tick 1 (t.act .sigalrm t.session.sigAlrm) t' ∧
        t'.linked = false :=
      tick_srvAlrm hsecond hcut (hup'.trans hup) (hdown'.trans hdown) (hperiod.trans_le (Nat.le_add_right _ _))
    exact ⟨t', .skip (by decide) (timed_step_iff.mpr (.act hdue (if_pos harmed))) htakes, hcut'⟩

/-- Nothing is pending for the server. -/
theorem tick_sigurg (harmed : t.session.cli.armed = true) :
    ∃ t', (timed T cli srv phase).Takes .tick 1 t t' ∧ t'.linked = false := by
  by_cases hdown : t.session.down.pending = true
  · obtain ⟨hup', hdown'⟩ := sigUrg_pending t.session 'x'
    have hact : t.session.atomicStep (.sigurg 'x') = some (t.session.sigUrg 'x') := if_pos hdown
    have hdue : t.due T (.sigurg 'x') := trivial
    have harmed' : (t.session.sigUrg 'x').cli.armed = true := by
      unfold Session.sigUrg
      split <;> exact harmed
    obtain ⟨t', htakes, hcut'⟩ := tick_sigalrm (t := t.act (.sigurg 'x') (t.session.sigUrg 'x')) hsecond hcut
      ((congrArg Urgent.pending hup').trans hup) harmed' hdown'
    exact ⟨t', .skip (by decide) (timed_step_iff.mpr (.act hdue hact)) htakes, hcut'⟩
  · exact tick_sigalrm hsecond hcut hup harmed (Bool.eq_false_iff.mpr hdown)

end Tick

/-- In an outage the handlers that are due can run, and then a tick can pass. -/
theorem exists_tick (hsecond : 0 < T.second) (ht : (timed T cli srv phase).Reachable t) (hcut : t.linked = false) :
    ∃ t', (timed T cli srv phase).Takes .tick 1 t t' ∧ t'.linked = false := by
  obtain ⟨-, -, harmed⟩ := Timed.token ht
  by_cases hup : t.session.up.pending = true
  · have hact : t.session.atomicStep (.srvUrg 'x') = some (t.session.srvUrg 'x') := if_pos hup
    have hdue : t.due T (.srvUrg 'x') := trivial
    have hcli : (t.session.srvUrg 'x').cli = t.session.cli := by
      unfold Session.srvUrg
      split <;> rfl
    have hup' : (t.session.srvUrg 'x').up.pending = false := by
      rw [(atomicStep_server hact).2.1 (by simp), AtomicEv.isSrvUrg, Bool.not_true, Bool.and_false]
    obtain ⟨t', htakes, hcut'⟩ := tick_sigurg (t := t.act (.srvUrg 'x') (t.session.srvUrg 'x')) hsecond hcut hup'
      ((congrArg Client.armed hcli).trans harmed)
    exact ⟨t', .skip (by decide) (timed_step_iff.mpr (.act hdue hact)) htakes, hcut'⟩
  · exact tick_sigurg hsecond hcut (Bool.eq_false_iff.mpr hup) harmed

/-- The client's clock, and where the token is until it gives up. -/
theorem Fading.start (ht : (timed T cli srv phase).Reachable t) (hcut : t.linked = false) : Fading T 0 t := by
  have hplace : t.cliClock ≤ T.cliPeriod + T.latency ∧ (.close ∈ t.session.log ∨ ∃ p, At t.session p) := by
    refine System.invariant _ (P := fun t => t.cliClock ≤ T.cliPeriod + T.latency ∧
      (.close ∈ t.session.log ∨ ∃ p, At t.session p)) ⟨Nat.zero_le _, .inr ⟨.flag, .start cli srv⟩⟩ ?_ ht
    rintro t e t' - ⟨hclock, hplace⟩ hstep
    cases timed_step_iff.mp hstep with
    | tick hcan => exact ⟨hcan.1, hplace⟩
    | cut => exact ⟨hclock, hplace⟩
    | fin hend => exact ⟨hclock, .inl hend.2.2.1⟩
    | @act e s hdue hact =>
      refine ⟨?_, ?_⟩
      · simp only [Timed.act]
        split_ifs <;> omega
      · rcases hplace with hclose | ⟨p, hat⟩
        · exact .inl ((atomicStep_log hact).mem hclose)
        · exact (hat.step_or_close hact).imp_right fun ⟨p', _, hat'⟩ => ⟨p', hat'⟩
  exact ⟨hcut, hplace.1, hplace.2.imp_right fun ⟨p, hat⟩ => ⟨p, hat, .inl (Nat.zero_le _)⟩⟩

/-- **An outage is noticed.**  Once nothing arrives any more, time can go on for ever; within two of its intervals
the client closes the connection; and a server that has ever answered reports within four of its own, counted
from where it may still have read a heartbeat, if the client had not closed the connection before. -/
theorem outage_noticed (hsecond : 0 < T.second) (hphase : phase ≤ T.srvPeriod + T.latency)
    (ht : (timed T cli srv phase).Reachable t) (hcut : t.linked = false) :
    (∀ n, ∃ t', (timed T cli srv phase).Takes .tick n t t') ∧
      ∀ n t', (timed T cli srv phase).Takes .tick n t t' →
        (2 * (3 * T.second + T.latency) < n → .close ∈ t'.session.log) ∧
        (.close ∉ t.session.log → .answer ∈ t.session.log → T.delay + 4 * (2 * T.second + T.latency) < n →
          ∃ rs, t'.session.srv.reports = t.session.srv.reports ++ .notStartUp :: rs) := by
  have hperiods : T.cliPeriod = 3 * T.second ∧ T.srvPeriod = 2 * T.second := ⟨rfl, rfl⟩
  refine ⟨fun n => ?_, fun n t' htakes => ⟨fun hlong => ?_, fun hopen hanswer hlong => ?_⟩⟩
  · -- one tick after the other
    have hgoes : ∃ t', (timed T cli srv phase).Takes .tick n t t' ∧ t'.linked = false := by
      induction n with
      | zero => exact ⟨t, .refl t, hcut⟩
      | succ n ih =>
        obtain ⟨t₁, htakes, hcut₁⟩ := ih
        obtain ⟨t₂, htick, hcut₂⟩ := exists_tick hsecond (htakes.reachable ht) hcut₁
        exact ⟨t₂, htakes.trans htick, hcut₂⟩
    exact hgoes.imp fun _ h => h.1
  · have h : Fading T (0 + n) t' := htakes.induction (P := Fading T) (Fading.start ht hcut)
      fun k s e s' hs hstep => hs.step (timed_step_iff.mp hstep)
    have hclock := h.clock
    rcases h.client with hclose | ⟨p, -, hsince | ⟨-, hsince⟩⟩
    · exact hclose
    · omega
    · omega
  · have hsilence : Silence T t.session.srv.reports 0 t := by
      have htimely := SrvTimely.reachable hphase ht
      have hended : t.ended = false := Bool.eq_false_iff.mpr fun hended => hopen (htimely.ended hended)
      obtain ⟨m, hm⟩ := htimely.counting hended hanswer
      refine ⟨hcut, .inr ⟨rfl, m, hm, ?_⟩⟩
      cases t.session.up.pending with
      | true => exact .inl ⟨rfl, Nat.zero_le _⟩
      | false => exact .inr ⟨rfl, Nat.zero_le _⟩
    obtain ⟨hreach, h⟩ := htakes.induction
      (P := fun k u => (timed T cli srv phase).Reachable u ∧ Silence T t.session.srv.reports k u) ⟨ht, hsilence⟩
      fun k s e s' hs hstep => ⟨.step e hs.1 hstep, hs.2.step (SrvTimely.reachable hphase hs.1)
        (Timed.token hs.1).1 (timed_step_iff.mp hstep)⟩
    have htimely := SrvTimely.reachable hphase hreach
    have hclock := htimely.clock
    rcases h.server with hreported | ⟨-, m, ⟨-, -, hle⟩, ⟨hpending, hk⟩ | ⟨-, hk⟩⟩
    · exact hreported
    · have := htimely.age (by simp [moving, hpending])
      omega
    · have := Nat.mul_le_mul_right (T.srvPeriod + T.latency) hle
      omega

/-- The first reply is lost: after nine more seconds the client has closed and the server has reported. -/
theorem outage_noticed_lostReply : ∃ t t', (timed ⟨1, 0, 0⟩ Client.start Srv.start 0).Reachable t ∧
    t.linked = false ∧ (timed ⟨1, 0, 0⟩ Client.start Srv.start 0).Takes .tick 9 t t' ∧
    .close ∈ t'.session.log ∧ ∃ rs, t'.session.srv.reports = .notStartUp :: rs := by
  obtain ⟨t, ht, hend⟩ := (timed ⟨1, 0, 0⟩ Client.start Srv.start 0).exists_reachable_of_run
    [.tick, .tick, .act .srvAlrm, .tick, .act .sigalrm, .act .arriveUp, .act (.srvUrg 'x'), .cut]
    (fun t => t.linked == false && decide (.close ∉ t.session.log) && decide (.answer ∈ t.session.log) &&
      t.session.srv.reports == [])
    (by decide +kernel)
  simp only [Bool.and_eq_true, beq_iff_eq, decide_eq_true_eq] at hend
  obtain ⟨⟨⟨hcut, hopen⟩, hanswer⟩, hreports⟩ := hend
  obtain ⟨hgoes, hnoticed⟩ := outage_noticed (by decide) (Nat.zero_le _) ht hcut
  obtain ⟨t', htakes⟩ := hgoes 9
  obtain ⟨hclose, hreport⟩ := hnoticed 9 t' htakes
  refine ⟨t, t', ht, hcut, htakes, hclose (by decide), ?_⟩
  rw [hreports] at hreport
  exact hreport hopen hanswer (by decide)

/-- The client gave up before the outage and its `close` arrived: the server stays quiet. -/
example : ((timed ⟨1, 2, 0⟩ Client.start Srv.start 0).runFrom (Timed.start Client.start Srv.start 0)
    [.tick, .tick, .act .srvAlrm, .tick, .act .sigalrm, .tick, .act .srvAlrm, .tick, .act .arriveUp,
      .act (.srvUrg 'x'), .tick, .act .srvAlrm, .act .sigalrm, .fin, .cut, .tick, .tick, .act .srvAlrm, .tick,
      .act .sigalrm, .tick, .act .srvAlrm, .tick, .tick, .act .srvAlrm, .act .sigalrm]).map
      (fun t => t.session.srv.reports) = some [.shutdown] := by
  decide +kernel

end NetProg.HeartbeatSession
