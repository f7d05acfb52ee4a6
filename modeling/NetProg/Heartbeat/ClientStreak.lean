/-
# NetProg.Heartbeat.ClientStreak -- when the clients report a server that has not started up.

`expire_cnt` is meant to count failed connects in a row.  It is cleared by the report only: a successful
connect leaves it as it is, so failures of different streaks are added up; and the failure at which it equals
`PEER_EXPIRE_CNT` counts on when `already_reset` is set, so the equality is jumped over and never met again.

In the runs that avoid both (`Steady`) the reports are those of the rule; a step that does not avoid them can
always be followed by a failure that is reported wrongly, or wrongly not reported (`failed_connect_rule`).
-/
import NetProg.Base.History
import NetProg.Heartbeat.Client

namespace NetProg.HeartbeatCli

/-- What the main loop came to: a successful connect, or a failed one, with `already_reset` and whether it was
reported. -/
inductive Outcome where
  | connected
  | failed (alreadyReset reported : Bool)
  deriving DecidableEq, Repr

def outcome (v : Variant) (s : Client) : Ev → List Outcome
  | .main _ ok =>
    match s.pc with
    | .connect => if ok then [.connected] else []
    | .countFailed => [.failed s.alreadyReset ((s.countFailed v).log = s.log ++ [.notStartUp])]
    | _ => []
  | _ => []

/-- A streak ends with a successful connect, or a report. -/
def Outcome.ends : Outcome → Bool
  | connected => true
  | failed _ reported => reported

/-- The failed connects since the most recent of the start, the last success and the last report. -/
def streak (l : List Outcome) : ℕ := (since Outcome.ends l).length

/-- A failed connect is reported if and only if `already_reset` is 0 and it is number `PEER_EXPIRE_CNT + 1`. -/
def StreakRule (v : Variant) (before : List Outcome) : Outcome → Prop
  | .failed alreadyReset reported =>
    reported = true ↔ alreadyReset = false ∧ (streak before : ℤ) = v.peerExpireCnt
  | .connected => True

/-- A connect succeeds only when no failure was counted since the last report, and the failure at which the
count equals `PEER_EXPIRE_CNT` finds `already_reset` equal to 0. -/
def Steady (v : Variant) (s : Client) : Ev → Prop
  | .main _ ok =>
    (s.pc = .connect ∧ ok = true → s.expireCnt = 0) ∧
      (s.pc = .countFailed ∧ s.expireCnt = v.peerExpireCnt → s.alreadyReset = false)
  | _ => True

instance (v : Variant) (s : Client) : (e : Ev) → Decidable (Steady v s e)
  | .main _ _ => inferInstanceAs (Decidable (_ ∧ _))
  | .sigalrm => inferInstanceAs (Decidable True)
  | .sigurg => inferInstanceAs (Decidable True)
  | .alrm => inferInstanceAs (Decidable True)
  | .urg _ _ => inferInstanceAs (Decidable True)

section Log

variable (l : List Outcome)

@[simp] theorem streak_connected : streak (l ++ [.connected]) = 0 := by
  rw [streak, since_snoc_of rfl, List.length_nil]

@[simp] theorem streak_reported (f : Bool) : streak (l ++ [.failed f true]) = 0 := by
  rw [streak, since_snoc_of rfl, List.length_nil]

@[simp] theorem streak_failed (f : Bool) : streak (l ++ [.failed f false]) = streak l + 1 := by
  rw [streak, since_snoc_of_not rfl, List.length_append, List.length_singleton]
  rfl

end Log

section Step

variable {v : Variant} {s s' : Client} {l : List Outcome}

/-- Only the main loop's test counts failures. -/
theorem expireCnt_alrmStep (s : Client) (fs : List Frame) (pc : AlrmPc) :
    (s.alrmStep fs pc).expireCnt = s.expireCnt := by
  cases pc with
  | report =>
    simp only [Client.alrmStep]
    split_ifs <;> rfl
  | _ => rfl

theorem expireCnt_urgStep (s : Client) (fs : List Frame) (got : Bool) (c : Char) (pc : UrgPc) :
    (s.urgStep fs got c pc).expireCnt = s.expireCnt := by
  cases pc <;> rfl

/-- The test counts or reports. -/
theorem countFailed_cases (v : Variant) (s : Client) :
    (s.expireCnt = v.peerExpireCnt ∧ s.alreadyReset = false) ∧ (s.countFailed v).expireCnt = 0 ∧
      (s.countFailed v).log = s.log ++ [.notStartUp] ∨
    ¬ (s.expireCnt = v.peerExpireCnt ∧ s.alreadyReset = false) ∧
      (s.countFailed v).expireCnt = wrap32 (s.expireCnt + 1) ∧ (s.countFailed v).log = s.log := by
  by_cases hreport : v.peerExpireCnt = s.expireCnt ∧ s.alreadyReset = false
  · refine .inl ⟨⟨hreport.1.symm, hreport.2⟩, ?_⟩
    rw [Client.countFailed, if_pos hreport]
    exact ⟨rfl, rfl⟩
  · refine .inr ⟨fun h => hreport ⟨h.1.symm, h.2⟩, ?_⟩
    rw [Client.countFailed, if_neg hreport]
    exact ⟨rfl, rfl⟩

/-- What a step does to the count, and what it shows: nothing, a successful connect, or a failed one. -/
theorem outcome_cases {e : Ev} (hstep : s.Step v e s') :
    outcome v s e = [] ∧ s'.expireCnt = s.expireCnt ∨
    outcome v s e = [.connected] ∧ s'.expireCnt = s.expireCnt ∧ (Steady v s e → s.expireCnt = 0) ∨
    (∃ reported, outcome v s e = [.failed s.alreadyReset reported] ∧
      (Steady v s e → s.expireCnt = v.peerExpireCnt → s.alreadyReset = false) ∧
      (reported = true ∧ (s.expireCnt = v.peerExpireCnt ∧ s.alreadyReset = false) ∧ s'.expireCnt = 0 ∨
        reported = false ∧ ¬ (s.expireCnt = v.peerExpireCnt ∧ s.alreadyReset = false) ∧
          s'.expireCnt = wrap32 (s.expireCnt + 1))) := by
  cases hstep with
  | main hframes =>
    rename_i fd ok
    cases hpc : s.pc with
    | connect =>
      cases ok with
      | true =>
        refine .inr (.inl ⟨?_, ?_, fun hsteady => hsteady.1 ⟨hpc, rfl⟩⟩)
        · simp [outcome, hpc]
        · simp [Client.mainStep, hpc]
      | false =>
        refine .inl ⟨?_, ?_⟩
        · simp [outcome, hpc]
        · simp [Client.mainStep, hpc]
    | countFailed =>
      refine .inr (.inr ⟨decide ((s.countFailed v).log = s.log ++ [.notStartUp]), ?_,
        fun hsteady hcount => hsteady.2 ⟨hpc, hcount⟩, ?_⟩)
      · simp [outcome, hpc]
      · have hmain : s.mainStep v fd ok = s.countFailed v := by simp only [Client.mainStep, hpc]
        rw [hmain]
        rcases countFailed_cases v s with ⟨hreport, hzero, hlog⟩ | ⟨hnot, hcount, hlog⟩
        · exact .inl ⟨by simp [hlog], hreport, hzero⟩
        · exact .inr ⟨by simp [hlog], hnot, hcount⟩
    | _ => exact .inl ⟨by simp [outcome, hpc], by simp [Client.mainStep, hpc, Client.logs]⟩
  | sigalrm | sigurg => exact .inl ⟨rfl, rfl⟩
  | alrm hframes => exact .inl ⟨rfl, expireCnt_alrmStep s _ _⟩
  | urg hframes => exact .inl ⟨rfl, expireCnt_urgStep s _ _ _ _⟩

/-- The count is the streak, and at most `PEER_EXPIRE_CNT`. -/
structure InStreak (v : Variant) (s : Client) (l : List Outcome) : Prop where
  count : s.expireCnt = streak l
  le : s.expireCnt ≤ v.peerExpireCnt

/-- **One step that meets the condition keeps the count and obeys the rule.** -/
theorem InStreak.step (h : InStreak v s l) (hv : 0 ≤ v.peerExpireCnt ∧ v.peerExpireCnt < 2 ^ 29)
    (hrule : Each (StreakRule v) l) {e : Ev} (hsteady : Steady v s e) (hstep : s.Step v e s') :
    InStreak v s' (l ++ outcome v s e) ∧ Each (StreakRule v) (l ++ outcome v s e) := by
  have hcount := h.count
  have hle := h.le
  rcases outcome_cases hstep with ⟨hobs, hkeep⟩ | ⟨hobs, hkeep, hzero⟩ | ⟨reported, hobs, hflag, hcases⟩
  · rw [hobs, List.append_nil]
    exact ⟨⟨hkeep.trans hcount, hkeep ▸ hle⟩, hrule⟩
  · rw [hobs]
    refine ⟨⟨?_, hkeep ▸ hle⟩, hrule.snoc trivial⟩
    rw [streak_connected, hkeep, hzero hsteady]
    rfl
  · rw [hobs]
    rcases hcases with ⟨rfl, ⟨hfull, hnotReset⟩, hzero⟩ | ⟨rfl, hnot, hnext⟩
    · refine ⟨⟨by rw [streak_reported, hzero]; rfl, hzero ▸ hv.1⟩, hrule.snoc ?_⟩
      exact iff_of_true rfl ⟨hnotReset, by rw [← hcount, hfull]⟩
    · have hne : s.expireCnt ≠ v.peerExpireCnt := fun heq => hnot ⟨heq, hflag hsteady heq⟩
      have hnonneg : 0 ≤ s.expireCnt := hcount ▸ Int.natCast_nonneg _
      have hwrap : wrap32 (s.expireCnt + 1) = s.expireCnt + 1 := wrap32_eq (by omega) (by omega)
      refine ⟨⟨?_, ?_⟩, hrule.snoc ?_⟩
      · rw [streak_failed, hnext, hwrap, hcount]
        push_cast
        rfl
      · rw [hnext, hwrap]
        omega
      · refine iff_of_false Bool.false_ne_true ?_
        rintro ⟨-, hfull⟩
        exact hne (hcount.trans hfull)

end Step

/-! ## What a step that does not meet the condition leads to -/

section Leads

variable {v : Variant} {s t : Client} {l : List Outcome}

/-- The program, with the outcomes of its connects. -/
abbrev withOutcomes (v : Variant) : System (Client × List Outcome) Ev := (client v).observe (outcome v)

/-- The main loop is about to start over, no handler is active, and `already_reset` is 0. -/
structure Idle (s : Client) : Prop where
  pc : s.pc = .sleep
  frames : s.frames = []
  alreadyReset : s.alreadyReset = false

/-- A SIGURG clears `already_reset`. -/
theorem leads_idle (hpc : s.pc = .sleep) (hframes : s.frames = []) :
    ∃ t, (withOutcomes v).Leads (s, l) (t, l) ∧ Idle t ∧ t.expireCnt = s.expireCnt := by
  obtain ⟨connFd, connected, gotReply, expireCnt, alreadyReset, pc, frames, armed, log⟩ := s
  obtain rfl : pc = .sleep := hpc
  obtain rfl : frames = [] := hframes
  have hrun : ∃ t, (client v).runFrom ⟨connFd, connected, gotReply, expireCnt, alreadyReset, .sleep, [], armed, log⟩
      [.sigurg, .urg false 's', .urg false 's', .urg false 's'] = some t ∧ Idle t ∧ t.expireCnt = expireCnt :=
    ⟨_, rfl, ⟨rfl, rfl, rfl⟩, rfl⟩
  obtain ⟨t, hrun, hidle, hcount⟩ := hrun
  exact ⟨t, System.observe_leads_silent hrun rfl l, hidle, hcount⟩

/-- A session comes and goes, without an alarm. -/
theorem leads_session (hpc : s.pc = .alarm) (hframes : s.frames = []) :
    ∃ t, (withOutcomes v).Leads (s, l) (t, l) ∧ Idle t ∧ t.expireCnt = s.expireCnt := by
  have hend : ∃ t, (withOutcomes v).Leads (s, l) (t, l) ∧ t.pc = .sleep ∧ t.frames = [] ∧
      t.expireCnt = s.expireCnt := by
    obtain ⟨connFd, connected, gotReply, expireCnt, alreadyReset, pc, frames, armed, log⟩ := s
    obtain rfl : pc = .alarm := hpc
    obtain rfl : frames = [] := hframes
    obtain ⟨peerExpireCnt, closesSession⟩ := v
    have hrun : ∃ es t, (client ⟨peerExpireCnt, closesSession⟩).runFrom
        ⟨connFd, connected, gotReply, expireCnt, alreadyReset, .alarm, [], armed, log⟩ es = some t ∧
        (client ⟨peerExpireCnt, closesSession⟩).observed (outcome ⟨peerExpireCnt, closesSession⟩)
          ⟨connFd, connected, gotReply, expireCnt, alreadyReset, .alarm, [], armed, log⟩ es = [] ∧
        t.pc = .sleep ∧ t.frames = [] ∧ t.expireCnt = expireCnt := by
      cases closesSession with
      | true => exact ⟨List.replicate 5 (.main 0 false), _, rfl, rfl, rfl, rfl, rfl⟩
      | false => exact ⟨List.replicate 4 (.main 0 false), _, rfl, rfl, rfl, rfl, rfl⟩
    obtain ⟨es, t, hrun, hobs, hend⟩ := hrun
    exact ⟨t, System.observe_leads_silent hrun hobs l, hend⟩
  obtain ⟨t, ht, hpc, hframes, hcount⟩ := hend
  obtain ⟨u, hu, hidle, hcount'⟩ := leads_idle (v := v) (l := l) hpc hframes
  exact ⟨u, ht.trans hu, hidle, hcount'.trans hcount⟩

/-- One more connect succeeds. -/
theorem leads_connected (h : Idle s) :
    ∃ t, (withOutcomes v).Leads (s, l) (t, l ++ [.connected]) ∧ Idle t ∧ t.expireCnt = s.expireCnt := by
  have hconnect : ∃ t, (withOutcomes v).Leads (s, l) (t, l ++ [.connected]) ∧ t.pc = .alarm ∧ t.frames = [] ∧
      t.expireCnt = s.expireCnt := by
    obtain ⟨connFd, connected, gotReply, expireCnt, alreadyReset, pc, frames, armed, log⟩ := s
    obtain rfl : pc = .sleep := h.pc
    obtain rfl : frames = [] := h.frames
    have hrun : ∃ t, (client v).runFrom ⟨connFd, connected, gotReply, expireCnt, alreadyReset, .sleep, [], armed, log⟩
        [.main 0 false, .main 0 false, .main 0 true] = some t ∧ t.pc = .alarm ∧ t.frames = [] ∧
        t.expireCnt = expireCnt := ⟨_, rfl, rfl, rfl, rfl⟩
    obtain ⟨t, hrun, hend⟩ := hrun
    exact ⟨t, System.observe_leads hrun rfl l, hend⟩
  obtain ⟨t, ht, hpc, hframes, hcount⟩ := hconnect
  obtain ⟨u, hu, hidle, hcount'⟩ := leads_session (v := v) (l := l ++ [.connected]) hpc hframes
  exact ⟨u, ht.trans hu, hidle, hcount'.trans hcount⟩

/-- One more connect fails. -/
theorem leads_failed (h : Idle s) :
    ∃ t, (withOutcomes v).Leads (s, l) (t, l ++ [.failed false (s.expireCnt = v.peerExpireCnt)]) ∧ Idle t ∧
      (s.expireCnt ≠ v.peerExpireCnt → t.expireCnt = wrap32 (s.expireCnt + 1)) := by
  obtain ⟨connFd, connected, gotReply, expireCnt, alreadyReset, pc, frames, armed, log⟩ := s
  obtain rfl : pc = .sleep := h.pc
  obtain rfl : frames = [] := h.frames
  obtain rfl : alreadyReset = false := h.alreadyReset
  obtain ⟨s₁, hs₁⟩ : ∃ s₁ : Client, s₁ = ⟨0, false, gotReply, expireCnt, false, .countFailed, [], armed,
    log ++ [.socket 0] ++ [.mainClosed 0]⟩ := ⟨_, rfl⟩
  have hbefore : (withOutcomes v).Leads (⟨connFd, connected, gotReply, expireCnt, false, .sleep, [], armed, log⟩, l)
      (s₁, l) := by
    have hrun : (client v).runFrom ⟨connFd, connected, gotReply, expireCnt, false, .sleep, [], armed, log⟩
        (List.replicate 4 (.main 0 false)) = some s₁ := by
      rw [hs₁]
      rfl
    exact System.observe_leads_silent hrun rfl l
  have hstep : (withOutcomes v).step (s₁, l) (.main 0 false) =
      some (s₁.countFailed v, l ++ [.failed false ((s₁.countFailed v).log = s₁.log ++ [.notStartUp])]) := by
    rw [hs₁]
    rfl
  have hidle : Idle (s₁.countFailed v) := by
    rw [hs₁]
    unfold Client.countFailed
    split_ifs <;> exact ⟨rfl, rfl, rfl⟩
  have hcount : s₁.expireCnt = expireCnt := by rw [hs₁]
  have hflag : s₁.alreadyReset = false := by rw [hs₁]
  refine ⟨_, hbefore.trans (System.Leads.single (e := .main 0 false) ?_), hidle, ?_⟩
  · rw [hstep]
    rcases countFailed_cases v s₁ with ⟨⟨hfull, -⟩, -, hlog⟩ | ⟨hnot, -, hlog⟩
    · simp [hlog, ← hcount, hfull]
    · have hne : s₁.expireCnt ≠ v.peerExpireCnt := fun hfull => hnot ⟨hfull, hflag⟩
      simp [hlog, ← hcount, hne]
  · intro hne
    rcases countFailed_cases v s₁ with ⟨⟨hfull, -⟩, -⟩ | ⟨-, hnext, -⟩
    · exact absurd (hcount ▸ hfull) hne
    · rw [hnext, hcount]

/-- Failures at which the count does not equal `PEER_EXPIRE_CNT` are not reported. -/
theorem leads_unreported (h : Idle s) (n : ℕ) (hpos : 0 ≤ s.expireCnt) (hsmall : s.expireCnt + n < 2 ^ 31)
    (hne : ∀ i : ℕ, i < n → s.expireCnt + i ≠ v.peerExpireCnt) :
    ∃ t, (withOutcomes v).Leads (s, l) (t, l ++ List.replicate n (.failed false false)) ∧ Idle t ∧
      t.expireCnt = s.expireCnt + n := by
  induction n with
  | zero =>
    refine ⟨s, ?_, h, by simp⟩
    rw [List.replicate_zero, List.append_nil]
    exact .refl (s, l)
  | succ n ih =>
    obtain ⟨t, ht, hidle, hcount⟩ := ih (by push_cast at hsmall; omega) fun i hi => hne i (Nat.lt_succ_of_lt hi)
    have hnot : t.expireCnt ≠ v.peerExpireCnt := hcount ▸ hne n (Nat.lt_succ_self n)
    obtain ⟨u, hu, hidle', hnext⟩ := leads_failed (v := v) (l := l ++ List.replicate n (.failed false false)) hidle
    refine ⟨u, ?_, hidle', ?_⟩
    · rw [List.replicate_succ', ← List.append_assoc]
      rw [decide_eq_false hnot] at hu
      exact ht.trans hu
    · rw [hnext hnot, hcount, wrap32_eq (by omega) (by push_cast at hsmall; omega)]
      push_cast
      omega

theorem streak_unreported (l : List Outcome) (n : ℕ) :
    streak (l ++ List.replicate n (.failed false false)) = streak l + n := by
  induction n with
  | zero => simp
  | succ n ih =>
    rw [List.replicate_succ', ← List.append_assoc, streak_failed, ih]
    rfl

/-- **Failures of two streaks are added up**: after a success with `k` failures counted, the next report is
`k` failures early. -/
theorem early_report (h : Idle s) (hstreak : streak l = 0) (hpos : 0 < s.expireCnt)
    (hle : s.expireCnt ≤ v.peerExpireCnt) (hv : v.peerExpireCnt < 2 ^ 29) :
    ∃ q, (withOutcomes v).Leads (s, l) q ∧ ¬ Each (StreakRule v) q.2 := by
  obtain ⟨n, hn⟩ : ∃ n : ℕ, s.expireCnt + n = v.peerExpireCnt :=
    ⟨(v.peerExpireCnt - s.expireCnt).toNat, by omega⟩
  obtain ⟨t, ht, hidle, hcount⟩ := leads_unreported (v := v) (l := l) h n (by omega) (by omega) (by intros; omega)
  obtain ⟨u, hu, -, -⟩ := leads_failed (v := v) (l := l ++ List.replicate n (.failed false false)) hidle
  refine ⟨_, ht.trans hu, ?_⟩
  intro heach
  have hrule := (Each.append_singleton.mp heach).2
  have hfull := (hrule.mp (decide_eq_true (hcount.trans hn))).2
  rw [streak_unreported, hstreak] at hfull
  omega

/-- **The equality is jumped over**: once the count is above `PEER_EXPIRE_CNT`, no streak is reported. -/
theorem missed_report (h : Idle s) (hlt : v.peerExpireCnt < s.expireCnt)
    (hsmall : s.expireCnt ≤ 2 ^ 30) (hv : 0 ≤ v.peerExpireCnt) (hv' : v.peerExpireCnt < 2 ^ 29) :
    ∃ q, (withOutcomes v).Leads (s, l) q ∧ ¬ Each (StreakRule v) q.2 := by
  obtain ⟨n, hn⟩ : ∃ n : ℕ, (n : ℤ) = v.peerExpireCnt := ⟨v.peerExpireCnt.toNat, by omega⟩
  obtain ⟨t, ht, hidle, hcount⟩ := leads_connected (v := v) (l := l) h
  obtain ⟨u, hu, hidle', hcount'⟩ := leads_unreported (v := v) (l := l ++ [.connected]) hidle (n + 1)
    (by omega) (by push_cast; omega) (by intros; omega)
  refine ⟨_, ht.trans hu, ?_⟩
  intro heach
  rw [List.replicate_succ', ← List.append_assoc] at heach
  have hrule := (Each.append_singleton.mp heach).2
  have hreported : false = true := by
    refine hrule.mpr ⟨rfl, ?_⟩
    rw [streak_unreported, streak_connected, ← hn]
    simp
  cases hreported

end Leads

/-- Runs of the program in which every step meets the condition. -/
abbrev steadyRuns (v : Variant) : System (Client × List Outcome) Ev :=
  (withOutcomes v).restrict fun p e => Steady v p.1 e

theorem inStreak_reachable {v : Variant} (hv : 0 ≤ v.peerExpireCnt ∧ v.peerExpireCnt < 2 ^ 29)
    {p : Client × List Outcome} (h : (steadyRuns v).Reachable p) :
    InStreak v p.1 p.2 ∧ Each (StreakRule v) p.2 := by
  refine System.restrict_observe_invariant
    (P := fun s l => InStreak v s l ∧ Each (StreakRule v) l) ⟨⟨rfl, hv.1⟩, Each.nil⟩ ?_ h
  rintro s l e s' - ⟨hcount, hrule⟩ hsteady hstep
  exact hcount.step hv hrule hsteady (client_step_iff.mp hstep)

/-- **In a run in which a connect succeeds only at count 0, and the count does not come to `PEER_EXPIRE_CNT`
while `already_reset` is set, the reports obey the rule.**  A step that does not meet the condition can be
followed by a failure that breaks it. -/
theorem failed_connect_rule (v : Variant) (hv : v = heartbeatCli ∨ v = heartbeatAndroid) :
    (∀ p, (steadyRuns v).Reachable p → Each (StreakRule v) p.2) ∧
    (∀ p e p', (steadyRuns v).Reachable p → ¬ Steady v p.1 e → (withOutcomes v).step p e = some p' →
      ∃ q, (withOutcomes v).Leads p' q ∧ ¬ Each (StreakRule v) q.2) := by
  have hbounds : 0 ≤ v.peerExpireCnt ∧ v.peerExpireCnt < 2 ^ 29 := by
    rcases hv with rfl | rfl <;> decide
  refine ⟨fun p hp => (inStreak_reachable hbounds hp).2, ?_⟩
  rintro ⟨s, l⟩ e ⟨s', l'⟩ hp hnot hobs
  obtain ⟨hstep, rfl⟩ := System.observe_step.mp hobs
  obtain ⟨⟨hcount, hle⟩, -⟩ := inStreak_reachable hbounds hp
  replace hcount : s.expireCnt = streak l := hcount
  replace hle : s.expireCnt ≤ v.peerExpireCnt := hle
  cases e with
  | main fd ok =>
    cases client_step_iff.mp hstep with
    | main hframes =>
    replace hnot : ¬ ((s.pc = .connect ∧ ok = true → s.expireCnt = 0) ∧
      (s.pc = .countFailed ∧ s.expireCnt = v.peerExpireCnt → s.alreadyReset = false)) := hnot
    rw [not_and_or, Classical.not_imp, Classical.not_imp] at hnot
    rcases hnot with ⟨⟨hpc, rfl⟩, hne⟩ | ⟨⟨hpc, hfull⟩, hflag⟩
    · -- a success after `k` failures
      have hmain : s.mainStep v fd true = { s with connected := true, pc := .alarm } := by
        simp [Client.mainStep, hpc]
      have hout : outcome v s (.main fd true) = [.connected] := by simp [outcome, hpc]
      rw [hmain, hout]
      obtain ⟨t, ht, hidle, hcount'⟩ := leads_session (v := v) (l := l ++ [.connected])
        (s := { s with connected := true, pc := .alarm }) rfl hframes
      replace hcount' : t.expireCnt = s.expireCnt := hcount'
      obtain ⟨q, hq, hbad⟩ := early_report (v := v) hidle (streak_connected l) (by omega) (by omega) hbounds.2
      exact ⟨q, ht.trans hq, hbad⟩
    · -- the equality is met while `already_reset` is set
      have hmain : s.mainStep v fd ok =
          { s with expireCnt := wrap32 (s.expireCnt + 1), pc := .sleep } := by
        simp [Client.mainStep, hpc, Client.countFailed, hflag]
      rw [hmain]
      obtain ⟨t, ht, hidle, hcount'⟩ := leads_idle (v := v) (l := l ++ outcome v s (.main fd ok))
        (s := { s with expireCnt := wrap32 (s.expireCnt + 1), pc := .sleep }) rfl hframes
      replace hcount' : t.expireCnt = wrap32 (s.expireCnt + 1) := hcount'
      rw [wrap32_eq (by omega) (by omega)] at hcount'
      obtain ⟨q, hq, hbad⟩ := missed_report (v := v) (l := l ++ outcome v s (.main fd ok)) hidle
        (by omega) (by omega) hbounds.1 hbounds.2
      exact ⟨q, ht.trans hq, hbad⟩
  | sigalrm | sigurg | alrm | urg _ _ => exact absurd trivial hnot

/-- Rounds of the main loop in which the connect fails. -/
def failures (n : ℕ) : List Ev := (List.replicate n (List.replicate 5 (.main 3 false))).flatten

/-- The first four connects fail, and the fourth is reported. -/
theorem failed_connect_rule_four : ∃ p, (steadyRuns heartbeatCli).Reachable p ∧
    p.2 = [.failed false false, .failed false false, .failed false false, .failed false true] ∧
    Each (StreakRule heartbeatCli) p.2 := by
  obtain ⟨p, hp, hlog⟩ := (steadyRuns heartbeatCli).exists_reachable_of_run (failures 4)
    (fun p => p.2 = [.failed false false, .failed false false, .failed false false, .failed false true])
    (by decide +kernel)
  exact ⟨p, hp, by simpa using hlog, (failed_connect_rule heartbeatCli (.inl rfl)).1 p hp⟩

/-- A failed connect, a session, and three failed connects: the third is reported. -/
theorem reported_after_session : ∃ p, (withOutcomes heartbeatCli).Reachable p ∧
    p.2 = [.failed false false, .connected, .failed false false, .failed false false, .failed false true] ∧
    ¬ Each (StreakRule heartbeatCli) p.2 := by
  obtain ⟨p, hp, hlog⟩ := (withOutcomes heartbeatCli).exists_reachable_of_run
    (failures 1 ++ [.main 3 false, .main 3 true] ++ List.replicate 5 (.main 3 false) ++ failures 3)
    (fun p => p.2 = [.failed false false, .connected, .failed false false, .failed false false,
      .failed false true]) (by decide +kernel)
  rw [decide_eq_true_iff] at hlog
  refine ⟨p, hp, hlog, ?_⟩
  intro heach
  have hrule := heach [.failed false false, .connected, .failed false false, .failed false false]
    (.failed false true) [] hlog
  exact absurd (hrule.mp rfl).2 (by decide)

end NetProg.HeartbeatCli
