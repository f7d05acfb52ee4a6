/-
# NetProg.Heartbeat.RouterCounter -- what the number in the counter file counts.

With whole handlers the file holds the number of SIGALRMs since the last heartbeat.  The test for
`PEER_EXPIRE_CNT` takes it for the number since the last heartbeat or reset: the block of the reset writes 0,
but the handler falls through to `write_expire_cnt (++expire_cnt)`, whose `expire_cnt` was read before.  So
from a reset on, and up to the next heartbeat, the number is `PEER_EXPIRE_CNT` too large (`Tracks`).
-/
import NetProg.Heartbeat.RouterOutage
import NetProg.Heartbeat.RouterRace

namespace NetProg.Heartbeat

/-- The SIGALRMs completed since the most recent of the start, the last heartbeat and the last reset; the one
that issued the reset counts. -/
def sinceRestart (l : List LogEv) : ℕ :=
  (since (fun e => e == .beatDone || e == .reset) l).countP (· == .alrmDone)

/-- A reset was issued since the last completed heartbeat (or the start). -/
def resetSinceBeat (l : List LogEv) : Bool := (since (· == .beatDone) l).contains .reset

/-- Entries that are neither counted nor counted from. -/
def LogEv.passing : LogEv → Bool
  | .alrmDone | .beatDone | .reset => false
  | _ => true

section Log

variable (l : List LogEv) {es : List LogEv}

theorem sinceBeat_eq : sinceBeat l = (since (· == .beatDone) l).countP (· == .alrmDone) := by
  rw [since, List.rtakeWhile, List.countP_reverse]
  rfl

theorem LogEv.passing_iff {e : LogEv} : e.passing = true ↔ e ≠ .alrmDone ∧ e ≠ .beatDone ∧ e ≠ .reset := by
  cases e <;> simp [LogEv.passing]

theorem countP_passing (hes : ∀ e ∈ es, e.passing = true) : es.countP (· == .alrmDone) = 0 := by
  rw [List.countP_eq_zero]
  intro e he
  obtain ⟨hdone, -⟩ := LogEv.passing_iff.mp (hes e he)
  exact fun heq => hdone (eq_of_beq heq)

theorem beatDone_of_passing (hes : ∀ e ∈ es, e.passing = true) : ∀ e ∈ es, (e == .beatDone) = false := by
  intro e he
  obtain ⟨-, hbeat, -⟩ := LogEv.passing_iff.mp (hes e he)
  exact beq_eq_false_iff_ne.mpr hbeat

theorem restart_of_passing (hes : ∀ e ∈ es, e.passing = true) :
    ∀ e ∈ es, (e == .beatDone || e == .reset) = false := by
  intro e he
  obtain ⟨-, hbeat, hreset⟩ := LogEv.passing_iff.mp (hes e he)
  rw [beq_eq_false_iff_ne.mpr hbeat, beq_eq_false_iff_ne.mpr hreset]
  rfl

theorem sinceBeat_passing (hes : ∀ e ∈ es, e.passing = true) : sinceBeat (l ++ es) = sinceBeat l := by
  rw [sinceBeat_eq, sinceBeat_eq, since_append_of_not (beatDone_of_passing hes), List.countP_append,
    countP_passing hes, Nat.add_zero]

theorem sinceRestart_passing (hes : ∀ e ∈ es, e.passing = true) : sinceRestart (l ++ es) = sinceRestart l := by
  rw [sinceRestart, sinceRestart, since_append_of_not (restart_of_passing hes), List.countP_append,
    countP_passing hes, Nat.add_zero]

theorem resetSinceBeat_passing (hes : ∀ e ∈ es, e.passing = true) :
    resetSinceBeat (l ++ es) = resetSinceBeat l := by
  have hnot : LogEv.reset ∉ es := fun hmem => absurd (hes _ hmem) (by decide)
  rw [resetSinceBeat, resetSinceBeat, since_append_of_not (beatDone_of_passing hes)]
  simp [hnot]

@[simp] theorem sinceBeat_beat : sinceBeat (l ++ [.beatDone]) = 0 := by
  rw [sinceBeat_eq, since_snoc_of rfl, List.countP_nil]

@[simp] theorem sinceRestart_beat : sinceRestart (l ++ [.beatDone]) = 0 := by
  rw [sinceRestart, since_snoc_of rfl, List.countP_nil]

@[simp] theorem resetSinceBeat_beat : resetSinceBeat (l ++ [.beatDone]) = false := by
  rw [resetSinceBeat, since_snoc_of rfl]
  rfl

@[simp] theorem sinceRestart_done : sinceRestart (l ++ [.alrmDone]) = sinceRestart l + 1 := by
  rw [sinceRestart, since_snoc_of_not rfl, List.countP_append]
  rfl

@[simp] theorem resetSinceBeat_done : resetSinceBeat (l ++ [.alrmDone]) = resetSinceBeat l := by
  rw [resetSinceBeat, resetSinceBeat, since_snoc_of_not rfl]
  simp

@[simp] theorem sinceBeat_reset : sinceBeat (l ++ [.reset]) = sinceBeat l := by
  rw [sinceBeat_eq, sinceBeat_eq, since_snoc_of_not rfl, List.countP_append]
  rfl

@[simp] theorem sinceRestart_reset : sinceRestart (l ++ [.reset]) = 0 := by
  rw [sinceRestart, since_snoc_of rfl, List.countP_nil]

@[simp] theorem resetSinceBeat_reset : resetSinceBeat (l ++ [.reset]) = true := by
  rw [resetSinceBeat, since_snoc_of_not rfl]
  simp

end Log

/-! ## What one handler logs and writes -/

/-- A handler leaves the file and the flag alone; or it handles a heartbeat; or it is that of SIGALRM, and
counts, or resets and counts. -/
theorem atomic_cases {s s' : Router} {e : AtomicEv} (hstep : s.AtomicStep e s') :
    ∃ es : List LogEv, (∀ x ∈ es, x.passing = true) ∧
      (s'.log = s.log ++ es ∧ s'.file = s.file ∧ s'.parent.alreadyReset = s.parent.alreadyReset ∨
        s'.log = s.log ++ es ++ [.beatDone] ∧ Holds s'.file 0 ∧
          s'.parent.alreadyReset = s.parent.alreadyReset ∨
        ∃ stack, s' = s.sigAlrm stack ∧
          (¬ s.expired (readExpireCnt stack s.file) = true ∧ s'.log = s.log ++ es ++ [.alrmDone] ∨
            s.expired (readExpireCnt stack s.file) = true ∧
              s'.log = s.log ++ es ++ [.reset] ++ [.alrmDone])) := by
  cases hstep with
  | @accept fd pid hfork =>
    unfold Router.accept
    by_cases hfd : 0 < fd
    · rw [if_pos hfd]
      exact ⟨[.closed fd], by simp [LogEv.passing], .inl ⟨rfl, rfl, rfl⟩⟩
    · rw [if_neg hfd]
      exact ⟨[], by simp, .inl ⟨(List.append_nil _).symm, rfl, rfl⟩⟩
  | @eof pid hat => exact ⟨[.childReset pid], by simp [LogEv.passing], .inl ⟨rfl, rfl, rfl⟩⟩
  | @urg pid c hat =>
    have hholds : Holds (s.sigUrg pid c).file 0 := holds_write _ (by decide)
    cases hchild : s.child pid with
    | none => exact ⟨[], by simp, .inr (.inl ⟨by simp [Router.sigUrg, Router.urgEnter, hchild], hholds, rfl⟩)⟩
    | some ch =>
      by_cases hc : c = 'c'
      · refine ⟨[.sent ch.globals.cliFd], by simp [LogEv.passing], .inr (.inl ⟨?_, hholds, rfl⟩)⟩
        simp [Router.sigUrg, Router.urgEnter, hchild, hc]
      · refine ⟨[], by simp, .inr (.inl ⟨?_, hholds, rfl⟩)⟩
        simp [Router.sigUrg, Router.urgEnter, hchild, hc]
  | @alrm stack =>
    by_cases hexpired : s.expired (readExpireCnt stack s.file) = true
    · have hlogged : (s.logs [.alrmRead]).expired (readExpireCnt stack s.file) = true := hexpired
      have hlog : (s.sigAlrm stack).log = s.log ++ [.alrmRead] ++ (s.logs [.alrmRead]).resetEntries ++
          [.alrmDone] := by
        rw [Router.sigAlrm, Router.alrmRest, if_pos hlogged]
        show (s.logs [.alrmRead]).resetPeer.log ++ [.alrmDone] = _
        rw [Router.resetPeer_log, Router.logs_log]
      refine ⟨.alrmRead :: .closed s.parent.cliFd ::
        (if 0 < s.parent.childPid then [.killed s.parent.childPid] else []), ?_,
        .inr (.inr ⟨stack, rfl, .inr ⟨hexpired, ?_⟩⟩)⟩
      · split_ifs <;> simp [LogEv.passing]
      · rw [hlog]
        simp only [Router.resetEntries, List.append_assoc, List.cons_append, List.nil_append]
        rfl
    · have hlogged : ¬ (s.logs [.alrmRead]).expired (readExpireCnt stack s.file) = true := hexpired
      refine ⟨[.alrmRead], by simp [LogEv.passing], .inr (.inr ⟨stack, rfl, .inl ⟨hexpired, ?_⟩⟩)⟩
      rw [Router.sigAlrm, Router.alrmRest, if_neg hlogged]
      simp [Router.countBlock]
  | chld hpending => exact ⟨[], by simp, .inl ⟨(List.append_nil _).symm, rfl, rfl⟩⟩

/-- The file holds the number of SIGALRMs since the last heartbeat. Before the first reset that number is at most
`PEER_EXPIRE_CNT`; from a reset to the next heartbeat it is the number since the reset, and
`PEER_EXPIRE_CNT`. -/
structure Tracks (s : Router) : Prop where
  file : Holds s.file (wrap32 (sinceBeat s.log))
  clear : s.parent.alreadyReset = 0 → (sinceBeat s.log : ℤ) ≤ peerExpireCnt ∧ resetSinceBeat s.log = false
  restart : (sinceBeat s.log : ℤ) = sinceRestart s.log + if resetSinceBeat s.log then peerExpireCnt else 0

theorem Tracks.start : Tracks Router.start where
  file := by
    have hzero : wrap32 (sinceBeat Router.start.log) = 0 := by decide
    rw [hzero]
    exact holds_write _ (by decide)
  clear := by decide
  restart := by decide

theorem wrap32_succ (n : ℤ) : wrap32 (wrap32 n + 1) = wrap32 (n + 1) := Int.bmod_add_bmod

/-- What the SIGALRM handler writes at its end. -/
theorem holds_sigAlrm {s : Router} (stack : List Char) (v : ℤ) (hread : readExpireCnt stack s.file = v) :
    Holds (s.sigAlrm stack).file (wrap32 (v + 1)) := by
  subst hread
  exact holds_write _ (wrap32_natAbs_le _)

theorem Tracks.step {s s' : Router} (h : Tracks s) {e : AtomicEv} (hstep : s.AtomicStep e s') : Tracks s' := by
  obtain ⟨es, hes, hcases⟩ := atomic_cases hstep
  rcases hcases with ⟨hlog, hfile, hflag⟩ | ⟨hlog, hfile, hflag⟩ | ⟨stack, rfl, ⟨hnot, hlog⟩ | ⟨hexpired, hlog⟩⟩
  · refine ⟨?_, ?_, ?_⟩
    · rw [hlog, hfile, sinceBeat_passing _ hes]
      exact h.file
    · rw [hlog, hflag, sinceBeat_passing _ hes, resetSinceBeat_passing _ hes]
      exact h.clear
    · rw [hlog, sinceBeat_passing _ hes, sinceRestart_passing _ hes, resetSinceBeat_passing _ hes]
      exact h.restart
  · refine ⟨?_, ?_, ?_⟩
    · rw [hlog, sinceBeat_beat]
      exact hfile
    · intro _
      rw [hlog, sinceBeat_beat, resetSinceBeat_beat]
      exact ⟨by decide, rfl⟩
    · rw [hlog, sinceBeat_beat, sinceRestart_beat, resetSinceBeat_beat]
      rfl
  · have hread := h.file.read stack
    obtain ⟨hparent, -, -⟩ := sigAlrm_counts stack hnot
    refine ⟨?_, ?_, ?_⟩
    · have hholds := holds_sigAlrm stack _ hread
      rw [wrap32_succ] at hholds
      rw [hlog, sinceBeat_done, sinceBeat_passing _ hes]
      exact_mod_cast hholds
    · rw [hparent]
      intro hclear
      obtain ⟨hle, hreset⟩ := h.clear hclear
      -- the limit is not reached
      have hne : (sinceBeat s.log : ℤ) ≠ peerExpireCnt := by
        intro heq
        apply hnot
        rw [hread, heq]
        simp only [Router.expired, hclear]
        decide
      rw [hlog, sinceBeat_done, sinceBeat_passing _ hes, resetSinceBeat_done, resetSinceBeat_passing _ hes]
      exact ⟨by push_cast; omega, hreset⟩
    · have hrestart := h.restart
      rw [hlog, sinceBeat_done, sinceRestart_done, resetSinceBeat_done, sinceBeat_passing _ hes,
        sinceRestart_passing _ hes, resetSinceBeat_passing _ hes]
      push_cast
      omega
  · have hread := h.file.read stack
    obtain ⟨hset, -⟩ := sigAlrm_expired stack hexpired
    -- the limit is reached with the flag clear, so this is the first reset
    have hlimit : readExpireCnt stack s.file = peerExpireCnt ∧ s.parent.alreadyReset = 0 := by
      simp only [Router.expired, Bool.and_eq_true, decide_eq_true_eq] at hexpired
      exact ⟨hexpired.1.symm, hexpired.2⟩
    obtain ⟨hle, -⟩ := h.clear hlimit.2
    have hfull : (sinceBeat s.log : ℤ) = peerExpireCnt := by
      have hbound : (sinceBeat s.log : ℤ) ≤ 30 := hle
      rw [← hlimit.1, hread, wrap32_eq (by omega) (by omega)]
    refine ⟨?_, ?_, ?_⟩
    · have hholds := holds_sigAlrm stack _ hread
      rw [wrap32_succ] at hholds
      rw [hlog, sinceBeat_done, sinceBeat_reset, sinceBeat_passing _ hes]
      exact_mod_cast hholds
    · intro hclear
      rw [hset] at hclear
      cases hclear
    · rw [hlog, sinceBeat_done, sinceRestart_done, resetSinceBeat_done, sinceBeat_reset, sinceRestart_reset,
        resetSinceBeat_reset, sinceBeat_passing _ hes, if_pos rfl, ← hfull]
      push_cast
      omega

theorem tracks {s : Router} (hs : atomicRouter.Reachable s) : Tracks s := by
  refine atomicRouter.invariant (P := Tracks) Tracks.start ?_ hs
  intro s e s' _ h hstep
  exact h.step (atomicRouter_step_iff.mp hstep)

/-! ## The main result -/

/-- **The number in the file is what the test takes it for if and only if no reset was issued since the last
heartbeat**, and the SIGALRMs since then fit in an `int`. -/
theorem read_eq_sinceRestart_iff {s : Router} (hs : atomicRouter.Reachable s) (stack : List Char) :
    readExpireCnt stack s.file = sinceRestart s.log ↔
      resetSinceBeat s.log = false ∧ sinceBeat s.log < 2 ^ 31 := by
  have h := tracks hs
  have hrestart := h.restart
  rw [h.file.read stack]
  cases hreset : resetSinceBeat s.log with
  | false =>
    rw [hreset] at hrestart
    simp only [Bool.false_eq_true, if_false, add_zero] at hrestart
    rw [← hrestart]
    constructor
    · intro heq
      refine ⟨rfl, ?_⟩
      have hlt : wrap32 (sinceBeat s.log) < 2 ^ 31 := Int.bmod_lt (by decide)
      omega
    · rintro ⟨-, hlt⟩
      exact wrap32_eq (by omega) (by omega)
  | true =>
    rw [hreset] at hrestart
    refine iff_of_false ?_ (by simp)
    intro heq
    -- the two differ by `PEER_EXPIRE_CNT`, which no wrap makes up for
    have hdvd : ((2 ^ 32 : ℕ) : ℤ) ∣ wrap32 (sinceBeat s.log) - sinceBeat s.log := Int.dvd_bmod_sub_self
    rw [heq, hrestart] at hdvd
    simp only [if_true, peerExpireCnt] at hdvd
    omega

/-- A heartbeat and two SIGALRMs. -/
theorem read_eq_sinceRestart_iff_two : ∃ s, atomicRouter.Reachable s ∧ sinceRestart s.log = 2 ∧
    readExpireCnt [] s.file = 2 := by
  obtain ⟨s, hs, hlog⟩ := atomicRouter.exists_reachable_of_run [.accept 4 100, .urg 100 'c', .alrm [], .alrm []]
    (fun s => sinceRestart s.log = 2 ∧ resetSinceBeat s.log = false ∧ sinceBeat s.log < 2 ^ 31)
    (by decide +kernel)
  rw [decide_eq_true_iff] at hlog
  refine ⟨s, hs, hlog.1, ?_⟩
  rw [(read_eq_sinceRestart_iff hs []).mpr hlog.2, hlog.1]
  rfl

/-- The SIGALRM that issues the first reset writes 31. -/
theorem read_after_reset : ∃ s, atomicRouter.Reachable s ∧ resets s = 1 ∧ sinceRestart s.log = 1 ∧
    readExpireCnt [] s.file = 31 := by
  obtain ⟨s, hs, hend⟩ := atomicRouter.exists_reachable_of_run (List.replicate 31 (.alrm []))
    (fun s => resets s = 1 ∧ sinceRestart s.log = 1 ∧ readExpireCnt [] s.file = 31) (by decide +kernel)
  exact ⟨s, hs, by simpa using hend⟩

end NetProg.Heartbeat
