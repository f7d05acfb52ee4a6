/-
# NetProg.Heartbeat.RouterOutage -- the router detects the first outage of a run, and no later one.

With whole handlers the file counts the SIGALRMs since the last heartbeat, and the 31st without one
resets the peer, provided the parent's `already_reset` is 0.  The parent sets it at its first reset.  The
heartbeats are handled in the children, which clear their own copies, so the parent's stays 1 for good.
-/
import NetProg.Heartbeat.RouterAtomic

namespace NetProg.Heartbeat

/-- The resets that the parent issued. -/
def resets (s : Router) : ℕ := s.log.count .reset

/-- A heartbeat is handled. -/
def AtomicEv.isBeat : AtomicEv → Bool
  | .urg _ _ => true
  | _ => false

/-- A SIGALRM is delivered. -/
def AtomicEv.isAlrm : AtomicEv → Bool
  | .alrm _ => true
  | _ => false

/-! ## What one handler does to the file, the flag and the count of resets -/

/-- Other events than SIGALRM leave the parent's flag and the resets alone, and only a heartbeat touches
the file. -/
theorem keeps_of_not_alrm {s s' : Router} {e : AtomicEv} (hstep : s.AtomicStep e s')
    (he : e.isAlrm = false) :
    s'.parent.alreadyReset = s.parent.alreadyReset ∧ resets s' = resets s ∧
      (e.isBeat = false → s'.file = s.file) := by
  cases hstep with
  | @accept fd pid hfork =>
    unfold Router.accept
    by_cases hfd : 0 < fd
    · rw [if_pos hfd]
      exact ⟨rfl, by simp [resets], fun _ => rfl⟩
    · rw [if_neg hfd]
      exact ⟨rfl, rfl, fun _ => rfl⟩
  | @eof pid hat => exact ⟨rfl, by simp [resets, Router.eof], fun _ => rfl⟩
  | @urg pid c hat =>
    refine ⟨rfl, ?_, fun hbeat => absurd hbeat (by simp [AtomicEv.isBeat])⟩
    unfold resets Router.sigUrg Router.urgEnter
    cases s.child pid with
    | none => simp
    | some ch => by_cases hc : c = 'c' <;> simp [hc]
  | alrm => simp [AtomicEv.isAlrm] at he
  | chld hpending => exact ⟨rfl, rfl, fun _ => rfl⟩

section Alrm

variable {s : Router} (stack : List Char)

/-- The handler that finds the count at the limit and the flag clear resets the peer. -/
theorem sigAlrm_expired (hexpired : s.expired (readExpireCnt stack s.file) = true) :
    (s.sigAlrm stack).parent.alreadyReset = 1 ∧ resets (s.sigAlrm stack) = resets s + 1 := by
  have hlogged : (s.logs [.alrmRead]).expired (readExpireCnt stack s.file) = true := hexpired
  rw [Router.sigAlrm, Router.alrmRest, if_pos hlogged]
  refine ⟨rfl, ?_⟩
  have hentries : (s.logs [.alrmRead]).resetEntries.count .reset = 1 := by
    unfold Router.resetEntries
    split_ifs <;> simp
  have hlog : ((s.logs [.alrmRead]).resetBlock.countBlock (readExpireCnt stack s.file)).log =
      s.log ++ [.alrmRead] ++ (s.logs [.alrmRead]).resetEntries ++ [.alrmDone] := by
    show (s.logs [.alrmRead]).resetPeer.log ++ [.alrmDone] = _
    rw [Router.resetPeer_log, Router.logs_log]
  simp [resets, hlog, List.count_append, hentries]

/-- Otherwise it only writes the next number. -/
theorem sigAlrm_counts (hnot : ¬ s.expired (readExpireCnt stack s.file) = true) :
    (s.sigAlrm stack).parent = s.parent ∧ resets (s.sigAlrm stack) = resets s ∧
      (s.sigAlrm stack).file = writeExpireCnt (wrap32 (readExpireCnt stack s.file + 1)) s.file := by
  have hlogged : ¬ (s.logs [.alrmRead]).expired (readExpireCnt stack s.file) = true := hnot
  rw [Router.sigAlrm, Router.alrmRest, if_neg hlogged]
  exact ⟨rfl, by simp [resets, Router.countBlock], rfl⟩

end Alrm

theorem eq_sigAlrm {s s' : Router} {e : AtomicEv} (hstep : s.AtomicStep e s')
    (he : e.isAlrm = true) : ∃ stack, s' = s.sigAlrm stack := by
  cases hstep with
  | @alrm stack => exact ⟨stack, rfl⟩
  | accept | eof | urg | chld => simp [AtomicEv.isAlrm] at he

/-- A handler never takes back a reset, and once the flag is set it stays set and no reset follows. -/
theorem resets_step {s s' : Router} {e : AtomicEv} (hstep : s.AtomicStep e s') :
    resets s ≤ resets s' ∧
      (s.parent.alreadyReset ≠ 0 → s'.parent.alreadyReset ≠ 0 ∧ resets s' = resets s) := by
  cases halrm : e.isAlrm with
  | false =>
    obtain ⟨hflag, hresets, -⟩ := keeps_of_not_alrm hstep halrm
    exact ⟨le_of_eq hresets.symm, fun hset => ⟨hflag ▸ hset, hresets⟩⟩
  | true =>
    obtain ⟨stack, rfl⟩ := eq_sigAlrm hstep halrm
    by_cases hexpired : s.expired (readExpireCnt stack s.file) = true
    · obtain ⟨-, hresets⟩ := sigAlrm_expired stack hexpired
      refine ⟨by omega, fun hset => ?_⟩
      simp [Router.expired, hset] at hexpired
    · obtain ⟨hparent, hresets, -⟩ := sigAlrm_counts stack hexpired
      exact ⟨le_of_eq hresets.symm, fun hset => ⟨hparent ▸ hset, hresets⟩⟩

/-! ## Runs -/

theorem resets_mono {s s' : Router} {seg : List AtomicEv}
    (hrun : atomicRouter.runFrom s seg = some s') : resets s ≤ resets s' := by
  refine atomicRouter.runFrom_induction (P := fun t => resets s ≤ resets t) seg ?_ le_rfl hrun
  intro t e t' _ hle hstep
  exact hle.trans (resets_step (atomicRouter_step_iff.mp hstep)).1

/-- Once the flag is set, no run resets the peer again. -/
theorem silent_run {s s' : Router} {seg : List AtomicEv} (hset : s.parent.alreadyReset ≠ 0)
    (hrun : atomicRouter.runFrom s seg = some s') : resets s' = resets s := by
  refine (atomicRouter.runFrom_induction
    (P := fun t => t.parent.alreadyReset ≠ 0 ∧ resets t = resets s) seg ?_ ⟨hset, rfl⟩ hrun).2
  rintro t e t' - ⟨hflag, heq⟩ hstep
  obtain ⟨hflag', heq'⟩ := (resets_step (atomicRouter_step_iff.mp hstep)).2 hflag
  exact ⟨hflag', heq'.trans heq⟩

/-- The parent's flag is set exactly when it has reset the peer before. -/
theorem alreadyReset_iff {s : Router} (hs : atomicRouter.Reachable s) :
    s.parent.alreadyReset = 0 ↔ resets s = 0 := by
  refine System.invariant atomicRouter
    (P := fun s => s.parent.alreadyReset = 0 ↔ resets s = 0) (by decide) ?_ hs
  intro s e s' _ hiff hstep
  have hstep := atomicRouter_step_iff.mp hstep
  cases halrm : e.isAlrm with
  | false =>
    obtain ⟨hflag, hresets, -⟩ := keeps_of_not_alrm hstep halrm
    rw [hflag, hresets, hiff]
  | true =>
    obtain ⟨stack, rfl⟩ := eq_sigAlrm hstep halrm
    by_cases hexpired : s.expired (readExpireCnt stack s.file) = true
    · obtain ⟨hflag, hresets⟩ := sigAlrm_expired stack hexpired
      rw [hflag, hresets]
      simp
    · obtain ⟨hparent, hresets, -⟩ := sigAlrm_counts stack hexpired
      rw [hparent, hresets, hiff]

/-- **Counting to the reset.** With the flag clear and `k` in the file, the SIGALRMs that are missing up
to the limit, and one more (or more), lead to a reset. -/
theorem detects {seg : List AtomicEv} {s s' : Router} {k : ℕ}
    (hrun : atomicRouter.runFrom s seg = some s') (hno : ∀ e ∈ seg, e.isBeat = false)
    (hclear : s.parent.alreadyReset = 0) (hholds : Holds s.file k) (hk : k ≤ 30)
    (hcount : 31 - k ≤ seg.countP AtomicEv.isAlrm) : resets s < resets s' := by
  -- on the events: every SIGALRM adds one to the file and takes one off what is missing
  induction seg generalizing s k with
  | nil =>
    simp only [List.countP_nil] at hcount
    omega
  | cons e seg ih =>
    simp only [System.runFrom] at hrun
    cases hse : atomicRouter.step s e with
    | none => simp [hse] at hrun
    | some t =>
      simp only [hse] at hrun
      have hstep := atomicRouter_step_iff.mp hse
      have hno' : ∀ x ∈ seg, x.isBeat = false := by
        intro x hx
        exact hno x (List.mem_cons_of_mem e hx)
      cases halrm : e.isAlrm with
      | false =>
        obtain ⟨hflag, hresets, hfile⟩ := keeps_of_not_alrm hstep halrm
        have hfile : t.file = s.file := hfile (hno e List.mem_cons_self)
        rw [← hresets]
        apply ih hrun hno' (hflag.trans hclear) (hfile ▸ hholds) hk
        simpa [halrm] using hcount
      | true =>
        obtain ⟨stack, rfl⟩ := eq_sigAlrm hstep halrm
        have hread : readExpireCnt stack s.file = k := hholds.read stack
        by_cases hexpired : s.expired (readExpireCnt stack s.file) = true
        · -- this handler resets the peer, and the rest of the run takes nothing back
          obtain ⟨-, hresets⟩ := sigAlrm_expired stack hexpired
          have hmono := resets_mono hrun
          omega
        · -- the limit is not reached: one more is in the file, one less is missing
          have hlt : k < 30 := by
            have : k ≠ 30 := by
              rintro rfl
              simp [Router.expired, hread, hclear, peerExpireCnt] at hexpired
            omega
          obtain ⟨hparent, hresets, hfile⟩ := sigAlrm_counts stack hexpired
          have hnext : wrap32 ((k : ℤ) + 1) = ((k + 1 : ℕ) : ℤ) := by
            rw [wrap32_eq (by omega) (by omega)]
            norm_cast
          rw [hread, hnext] at hfile
          rw [← hresets]
          refine ih hrun hno' (by rw [hparent, hclear]) (k := k + 1) ?_ (by omega) ?_
          · rw [hfile]
            exact holds_write _ (by omega)
          · rw [List.countP_cons_of_pos halrm] at hcount
            omega

/-! ## The main result -/

/-- **Which outages are detected.** After a handled heartbeat, `PEER_EXPIRE_CNT + 1` SIGALRMs without
another one contain a reset if and only if the parent has never issued one before. -/
theorem router_outageDetected_iff {s₀ s₁ s₂ : Router} (hs : atomicRouter.Reachable s₀) {pid : ℤ}
    {c : Char} (hbeat : atomicRouter.step s₀ (.urg pid c) = some s₁) {seg : List AtomicEv}
    (hseg : atomicRouter.runFrom s₁ seg = some s₂) (hno : ∀ e ∈ seg, e.isBeat = false)
    (hcount : seg.countP AtomicEv.isAlrm = peerExpireCnt + 1) :
    resets s₁ < resets s₂ ↔ resets s₀ = 0 := by
  have hstep := atomicRouter_step_iff.mp hbeat
  obtain ⟨hflag, hresets, -⟩ := keeps_of_not_alrm hstep rfl
  have hiff := alreadyReset_iff hs
  constructor
  · intro hlt
    by_contra hbefore
    have hset : s₁.parent.alreadyReset ≠ 0 := by rwa [hflag, ne_eq, hiff]
    have := silent_run hset hseg
    omega
  · intro hnone
    have hzero : Holds s₁.file 0 := by
      cases hstep
      exact holds_write _ (by decide)
    apply detects hseg hno (hflag.trans (hiff.mpr hnone)) (k := 0) (by simpa using hzero) (by omega)
    simp only [peerExpireCnt] at hcount
    omega

/-- A heartbeat, and 31 SIGALRMs without another one. -/
def outage (pid : ℤ) : List AtomicEv := .urg pid 'c' :: List.replicate 31 (.alrm [])

/-- The peer went silent once and was reset; it came back, and its next silence goes unnoticed. -/
theorem router_secondOutage_missed :
    ∃ s₀ s₁ s₂, atomicRouter.Reachable s₀ ∧ atomicRouter.step s₀ (.urg 101 'c') = some s₁ ∧
      atomicRouter.runFrom s₁ (List.replicate 31 (.alrm [])) = some s₂ ∧
      resets s₁ = 1 ∧ ¬ resets s₁ < resets s₂ := by
  obtain ⟨s₀, hs, hend⟩ := atomicRouter.exists_reachable_of_run
    (.accept 4 100 :: outage 100 ++ [.chld, .accept 4 101])
    (fun s₀ => (atomicRouter.step s₀ (.urg 101 'c')).any fun s₁ =>
      (atomicRouter.runFrom s₁ (List.replicate 31 (.alrm []))).any fun s₂ =>
        resets s₁ == 1 && resets s₂ == 1) (by decide +kernel)
  obtain ⟨s₁, hbeat, hend⟩ := (Option.any_eq_true _ _).mp hend
  obtain ⟨s₂, hseg, hend⟩ := (Option.any_eq_true _ _).mp hend
  simp only [Bool.and_eq_true, beq_iff_eq] at hend
  exact ⟨s₀, s₁, s₂, hs, hbeat, hseg, hend.1, by omega⟩

/-- The first silence of a run is noticed. -/
theorem router_outageDetected_iff_first :
    ∃ s₀ s₁ s₂, atomicRouter.Reachable s₀ ∧ atomicRouter.step s₀ (.urg 100 'c') = some s₁ ∧
      atomicRouter.runFrom s₁ (List.replicate 31 (.alrm [])) = some s₂ ∧ resets s₁ < resets s₂ := by
  obtain ⟨s₀, hs, hend⟩ := atomicRouter.exists_reachable_of_run [.accept 4 100]
    (fun s₀ => resets s₀ == 0 && (atomicRouter.step s₀ (.urg 100 'c')).any fun s₁ =>
      (atomicRouter.runFrom s₁ (List.replicate 31 (.alrm []))).isSome) (by decide +kernel)
  rw [Bool.and_eq_true, beq_iff_eq] at hend
  rcases hend with ⟨hnone, hend⟩
  obtain ⟨s₁, hbeat, hend⟩ := (Option.any_eq_true _ _).mp hend
  obtain ⟨s₂, hseg⟩ := Option.isSome_iff_exists.mp hend
  exact ⟨s₀, s₁, s₂, hs, hbeat, hseg,
    (router_outageDetected_iff hs hbeat hseg (by decide) (by decide)).mpr hnone⟩

end NetProg.Heartbeat
