/-
# NetProg.Heartbeat.RouterRace -- when the unlocked counter file causes no false reset.

Parent and child update the file without a lock.  Two schedules go wrong: the child's 0 lands between the
parent's read and its write, and is overwritten by a stale increment; and the parent reads the file while
a child has truncated it and not yet written, and gets what was on its stack.  In the runs whose steps
avoid both (`Undisturbed`), the number in the file is at most the number of SIGALRMs completed since the
last heartbeat, so a reset is never early.
-/
import NetProg.Base.EventLog
import NetProg.Heartbeat.Router

namespace NetProg.Heartbeat

/-! ## Reading the log -/

/-- The SIGALRMs completed since the last completed heartbeat (or the start). -/
def sinceBeat (l : List LogEv) : ℕ :=
  (l.reverse.takeWhile (· != .beatDone)).countP (· == .alrmDone)

/-- A heartbeat was completed since the parent last read the file. -/
def beatSinceRead (l : List LogEv) : Bool :=
  (l.reverse.takeWhile (· != .alrmRead)).contains .beatDone

/-- What is asked of every entry: a reset comes after `PEER_EXPIRE_CNT` SIGALRMs without a
heartbeat, and no completed increment was computed before a heartbeat that came in between. -/
def Honest (pre : List LogEv) : LogEv → Prop
  | .reset => peerExpireCnt ≤ sinceBeat pre
  | .alrmDone => beatSinceRead pre = false
  | _ => True

/-- No reset is early, and no heartbeat is overwritten. -/
def NoFalseReset (l : List LogEv) : Prop := Each Honest l

/-- Entries that neither count nor compare. -/
def LogEv.quiet : LogEv → Bool
  | .alrmRead | .alrmDone | .beatDone => false
  | _ => true

section Log

variable (l : List LogEv) {e : LogEv}

theorem sinceBeat_quiet (he : e.quiet = true) : sinceBeat (l ++ [e]) = sinceBeat l := by
  cases e <;> simp_all [sinceBeat, LogEv.quiet]

theorem beatSinceRead_quiet (he : e.quiet = true) : beatSinceRead (l ++ [e]) = beatSinceRead l := by
  cases e <;> simp_all [beatSinceRead, LogEv.quiet]

@[simp] theorem sinceBeat_read : sinceBeat (l ++ [.alrmRead]) = sinceBeat l := by
  simp [sinceBeat]

@[simp] theorem sinceBeat_done : sinceBeat (l ++ [.alrmDone]) = sinceBeat l + 1 := by
  simp [sinceBeat]

@[simp] theorem beatSinceRead_read : beatSinceRead (l ++ [.alrmRead]) = false := by
  simp [beatSinceRead]

end Log

/-- If the last thing that happened was a reset, enough SIGALRMs came before it. -/
theorem NoFalseReset.of_last {l : List LogEv} (hl : NoFalseReset l)
    (hlast : l.getLast? = some .reset) : peerExpireCnt ≤ sinceBeat l := by
  obtain ⟨pre, rfl⟩ := List.getLast?_eq_some_iff.mp hlast
  rw [sinceBeat_quiet pre rfl]
  exact hl pre .reset [] rfl

/-! ## The condition and the invariant -/

/-- The step does not meet the race: the file is not read while it is empty, and no heartbeat is written
while the parent is between its read and its last write. -/
def Undisturbed (s : Router) : Ev → Prop
  | .alrmRead _ => s.file ≠ []
  | .urgWrite _ => s.alrm = .main ∨ s.alrm = .toRead
  | _ => True

instance (s : Router) : (e : Ev) → Decidable (Undisturbed s e)
  | .alrmRead _ => inferInstanceAs (Decidable (s.file ≠ []))
  | .urgWrite _ => inferInstanceAs (Decidable (s.alrm = .main ∨ s.alrm = .toRead))
  | .accept _ | .fork _ | .store | .eof _ | .urg _ _ | .urgTrunc _ | .alrm | .alrmTest | .alrmSystem _
  | .alrmTrunc | .alrmWrite | .chld | .wait => inferInstanceAs (Decidable True)

/-- The value of `expire_cnt` while the handler still needs it. -/
def AlrmPc.expireCnt : AlrmPc → Option ℤ
  | .main | .toRead => none
  | .toTest e | .toSystem e | .toResetTrunc e | .toResetWrite e | .toTrunc e | .toWrite e => some e

/-- `expire_cnt` was read from the file after the last heartbeat. -/
structure Current (l : List LogEv) (e : ℤ) : Prop where
  le : e ≤ sinceBeat l
  small : e.natAbs ≤ 2 ^ 31
  no_beat : beatSinceRead l = false

/-- The invariant of the undisturbed runs. -/
structure RaceInv (s : Router) : Prop where
  file : s.file = [] ∨ ∃ v, Holds s.file v ∧ v ≤ sinceBeat s.log
  current : ∀ e, s.alrm.expireCnt = some e → Current s.log e
  /-- The test has found the count at the limit. -/
  limit : ∀ e, s.alrm = .toSystem e → peerExpireCnt = e
  law : NoFalseReset s.log

theorem Current.quiet {l : List LogEv} {e : ℤ} (hc : Current l e) {x : LogEv} (hx : x.quiet = true) :
    Current (l ++ [x]) e where
  le := by
    rw [sinceBeat_quiet l hx]
    exact hc.le
  small := hc.small
  no_beat := by
    rw [beatSinceRead_quiet l hx]
    exact hc.no_beat

namespace RaceInv

theorem start : RaceInv Router.start where
  file := Or.inr ⟨0, holds_write _ (by decide), le_refl _⟩
  current := by
    intro e he
    simp [Router.start, AlrmPc.expireCnt] at he
  limit := by
    rintro e ⟨⟩
  law := Each.nil

variable {s s' : Router}

/-- Steps of the other kinds leave file, handler and log alone. -/
theorem congr (hs : RaceInv s) (hfile : s'.file = s.file) (halrm : s'.alrm = s.alrm)
    (hlog : s'.log = s.log) : RaceInv s' where
  file := by
    rw [hfile, hlog]
    exact hs.file
  current := by
    rw [halrm, hlog]
    exact hs.current
  limit := by
    rw [halrm]
    exact hs.limit
  law := by
    rw [hlog]
    exact hs.law

/-- A quiet entry, provided it is not a reset that comes early. -/
theorem entry {x : LogEv} (hs : RaceInv s) (hx : x.quiet = true) (hhonest : Honest s.log x) :
    RaceInv (s.logs [x]) where
  file := by
    rw [Router.logs_file, Router.logs_log, sinceBeat_quiet s.log hx]
    exact hs.file
  current := fun e he => (hs.current e he).quiet hx
  limit := hs.limit
  law := hs.law.snoc hhonest

/-- The handler moves on, and keeps or forgets `expire_cnt`. -/
theorem setAlrm {pc : AlrmPc} (hs : RaceInv s)
    (hpc : pc.expireCnt = none ∨ pc.expireCnt = s.alrm.expireCnt)
    (hlimit : ∀ e, pc = .toSystem e → peerExpireCnt = e) : RaceInv { s with alrm := pc } where
  file := hs.file
  current := by
    intro e he
    rcases hpc with hnone | hsame
    · exact absurd (hnone.symm.trans he) (by simp)
    · exact hs.current e (hsame.symm.trans he)
  limit := hlimit
  law := hs.law

theorem truncate (hs : RaceInv s) : RaceInv { s with file := s.file.truncate } where
  file := Or.inl rfl
  current := hs.current
  limit := hs.limit
  law := hs.law

/-- Writing a number that is not too large keeps the invariant. -/
theorem write {v : ℤ} (hs : RaceInv s) (hsmall : v.natAbs ≤ 2 ^ 31) (hle : v ≤ sinceBeat s.log) :
    RaceInv { s with file := s.file.write v } where
  file := Or.inr ⟨v, holds_write s.file hsmall, hle⟩
  current := hs.current
  limit := hs.limit
  law := hs.law

/-- An `int` read from the file is no larger than the number of SIGALRMs since the last heartbeat. -/
theorem read_le (hs : RaceInv s) (hfile : s.file ≠ []) (stack : List Char) :
    readExpireCnt stack s.file ≤ sinceBeat s.log ∧ (readExpireCnt stack s.file).natAbs ≤ 2 ^ 31 := by
  obtain ⟨v, hholds, hle⟩ := hs.file.resolve_left hfile
  rw [hholds.read]
  exact ⟨hle, hholds.small⟩

theorem dropPeer (hs : RaceInv s) : RaceInv s.dropPeer := by
  have hclosed : RaceInv (s.logs [.closed s.parent.cliFd]) := hs.entry rfl trivial
  unfold Router.dropPeer Router.kill
  split_ifs with hpid
  · exact RaceInv.entry (hclosed.congr rfl rfl rfl) rfl trivial
  · exact hclosed

/-- **One undisturbed step keeps the invariant.** -/
theorem step (hs : RaceInv s) {e : Ev} (hundisturbed : Undisturbed s e) (hstep : s.Step e s') :
    RaceInv s' := by
  cases hstep with
  | accept hin hmain | fork hin hmain hfork => exact hs.congr rfl rfl rfl
  | @store pid hin hmain => exact RaceInv.entry (hs.congr rfl rfl rfl) rfl trivial
  | eof hat => exact RaceInv.entry (hs.congr rfl rfl rfl) rfl trivial
  | @urg pid c hat =>
    have hmap : RaceInv (s.mapChild pid fun ch => { ch with urg := .toTrunc }) :=
      hs.congr rfl rfl rfl
    unfold Router.urgEnter
    cases s.child pid with
    | none => exact hmap.congr rfl rfl (List.append_nil _)
    | some ch =>
      by_cases hc : c = 'c'
      · simp only [hc, if_true]
        exact hmap.entry rfl trivial
      · simp only [hc, if_false]
        exact hmap.congr rfl rfl (List.append_nil _)
  | @urgTrunc pid hat =>
    have hmap : RaceInv (s.mapChild pid fun c => { c with urg := .toWrite }) := hs.congr rfl rfl rfl
    exact hmap.truncate
  | urgWrite hat =>
    -- the count starts again at 0, and no `expire_cnt` from before is still in use
    refine ⟨Or.inr ⟨0, holds_write s.file (by decide), by simp⟩, ?_, hs.limit, hs.law.snoc trivial⟩
    intro e he
    have hpc : s.alrm.expireCnt = some e := he
    rcases hundisturbed with hmain | hread
    · simp [hmain, AlrmPc.expireCnt] at hpc
    · simp [hread, AlrmPc.expireCnt] at hpc
  | alrm hpc => exact hs.setAlrm (Or.inl rfl) (by simp)
  | @alrmRead stack hruns hpc =>
    obtain ⟨hle, hsmall⟩ := hs.read_le hundisturbed stack
    refine ⟨?_, ?_, by simp [Router.alrmRead], hs.law.snoc trivial⟩
    · simpa [Router.alrmRead] using hs.file
    · intro e he
      have hread : readExpireCnt stack s.file = e := by
        simpa [Router.alrmRead, AlrmPc.expireCnt] using he
      subst hread
      exact ⟨by simpa [Router.alrmRead] using hle, hsmall, beatSinceRead_read s.log⟩
  | @alrmTest e hruns hpc =>
    unfold Router.alrmTest
    split_ifs with hexpired
    · have he : peerExpireCnt = e := by
        simp only [Router.expired, Bool.and_eq_true, decide_eq_true_eq] at hexpired
        exact hexpired.1
      refine hs.dropPeer.setAlrm (Or.inr ?_) (by simp [he])
      rw [Router.dropPeer_alrm, hpc]
      rfl
    · exact hs.setAlrm (Or.inr (by rw [hpc]; rfl)) (by simp)
  | @alrmSystem e shell hruns hpc =>
    -- the reset is not early, because `expire_cnt` is `PEER_EXPIRE_CNT`
    have hc : Current s.log e := hs.current e (by rw [hpc]; rfl)
    have hentry : RaceInv (s.logs [.reset]) := by
      apply hs.entry rfl
      show peerExpireCnt ≤ (sinceBeat s.log : ℤ)
      rw [hs.limit e hpc]
      exact hc.le
    have hmove : RaceInv { s.logs [.reset] with alrm := .toResetTrunc e } :=
      hentry.setAlrm (Or.inr (by rw [Router.logs_alrm, hpc]; rfl)) (by simp)
    exact hmove.congr rfl rfl rfl
  | @alrmResetTrunc e hruns hpc =>
    have hmove : RaceInv { s with alrm := .toResetWrite e } := hs.setAlrm (Or.inr (by rw [hpc]; rfl)) (by simp)
    exact hmove.truncate
  | @alrmResetWrite e hruns hpc =>
    have hmove : RaceInv { s with alrm := .toTrunc e } := hs.setAlrm (Or.inr (by rw [hpc]; rfl)) (by simp)
    have hwrite := hmove.write (v := 0) (by decide) (Int.natCast_nonneg _)
    exact hwrite.congr rfl rfl rfl
  | @alrmTrunc e hruns hpc =>
    have hmove : RaceInv { s with alrm := .toWrite e } := hs.setAlrm (Or.inr (by rw [hpc]; rfl)) (by simp)
    exact hmove.truncate
  | @alrmWrite e hruns hpc =>
    have hc : Current s.log e := hs.current e (by rw [hpc]; rfl)
    have hsmall := hc.small
    refine ⟨Or.inr ⟨_, holds_write s.file (wrap32_natAbs_le _), ?_⟩, ?_, by simp [Router.alrmWrite],
      hs.law.snoc hc.no_beat⟩
    · -- `++expire_cnt` and the completed SIGALRM go up together
      have hwrap : wrap32 (e + 1) ≤ e + 1 := wrap32_le (by omega)
      have hle := hc.le
      simp only [Router.alrmWrite, Router.logs_log, sinceBeat_done]
      push_cast
      omega
    · intro e' he'
      simp [Router.alrmWrite, AlrmPc.expireCnt] at he'
  | chld hpending hidle | wait hruns hreturns => exact hs.congr rfl rfl rfl

end RaceInv

/-! ## The main result -/

/-- **Without the race there is no false reset**: in every run whose steps are all undisturbed, every
reset comes after at least `PEER_EXPIRE_CNT` completed SIGALRMs without a completed heartbeat, and no
heartbeat is overwritten by a stale increment. -/
theorem router_noFalseReset {s : Router} (hs : (router.restrict Undisturbed).Reachable s) :
    NoFalseReset s.log := by
  have hinv : RaceInv s := by
    refine router.restrict_invariant RaceInv.start ?_ hs
    intro s e s' _ hI hundisturbed hstep
    exact hI.step hundisturbed (router_step_iff.mp hstep)
  exact hinv.law

/-- One whole SIGALRM, `n` times. -/
def ticks (n : ℕ) : List Ev :=
  (List.replicate n [.alrm, .alrmRead [], .alrmTest, .alrmTrunc, .alrmWrite]).flatten

/-- The parent has read 29; the child truncates and writes 0; the parent writes 30.  The next SIGALRM
resets the peer, one SIGALRM after the heartbeat. -/
theorem router_falseReset :
    ∃ s, router.Reachable s ∧ s.log.getLast? = some .reset ∧ sinceBeat s.log = 1 ∧
      ¬ NoFalseReset s.log := by
  obtain ⟨s, hs, hend⟩ := router.exists_reachable_of_run
    (connect 4 100 ++ ticks 29 ++ [.alrm, .alrmRead [], .alrmTest, .urg 100 'c', .urgTrunc 100,
      .urgWrite 100, .alrmTrunc, .alrmWrite] ++ [.alrm, .alrmRead [], .alrmTest, .alrmSystem true])
    (fun s => s.log.getLast? == some .reset && sinceBeat s.log == 1) (by decide +kernel)
  simp only [Bool.and_eq_true, beq_iff_eq] at hend
  refine ⟨s, hs, hend.1, hend.2, fun hlaw => ?_⟩
  have hearly := hlaw.of_last hend.1
  rw [hend.2] at hearly
  exact absurd hearly (by decide)

/-- Without heartbeats the parent counts to 30 and resets, and that reset is a rightful one. -/
theorem router_noFalseReset_outage :
    ∃ s, (router.restrict Undisturbed).Reachable s ∧ s.log.getLast? = some .reset ∧
      NoFalseReset s.log := by
  obtain ⟨s, hs, hend⟩ := (router.restrict Undisturbed).exists_reachable_of_run
    (connect 4 100 ++ ticks 30 ++ [.alrm, .alrmRead [], .alrmTest, .alrmSystem true])
    (fun s => s.log.getLast? == some .reset) (by decide +kernel)
  exact ⟨s, hs, by simpa using hend, router_noFalseReset hs⟩

end NetProg.Heartbeat
