/-
# NetProg.Heartbeat.RouterKill -- whose child the reset kills.

`child_pid` is the pid of the last child whose `fork` the main loop has stored.  Nothing clears it when SIGCHLD's
handler reaps that child, and nothing keeps the main loop from storing the pid of a child that was reaped before
the store: a reset that comes later sends SIGKILL to a pid that the system may have given to another process.
`KeepsOwn` excludes the steps that reap such a child.  Where they are avoided every kill hits a child of the
router that was not reaped yet (`kill_own_child`); where one is taken, the store and SIGALRMs lead to a kill of a
pid that is no child's, even if a race left another number in the counter file.
-/
import Mathlib.Data.List.Nodup
import NetProg.Heartbeat.Router

namespace NetProg.Heartbeat

open Router (reap)

/-! ## The children that were not reaped -/

/-- The pids of the children that the parent has not waited for. -/
def pids (s : Router) : List ℤ := s.children.map Child.pid

/-- The handler is behind the `kill` of its reset, and has not set `already_reset` yet. -/
def AlrmPc.inReset : AlrmPc → Bool
  | toSystem _ | toResetTrunc _ | toResetWrite _ => true
  | _ => false

/-- A reset may still come. -/
def MayReset (s : Router) : Prop := s.parent.alreadyReset = 0 ∧ s.alrm.inReset = false

/-- `wait (0)` takes the child with this pid. -/
def WaitTakes (s : Router) (pid : ℤ) : Prop :=
  (s.children.find? fun c => !c.live).map Child.pid = some pid

/-- `wait (0)` takes the child whose pid the main loop has yet to store. -/
def TakesUnstored (s : Router) : Prop :=
  match s.main with
  | .store pid => WaitTakes s pid
  | .accept | .fork => False

instance (s : Router) : Decidable (MayReset s) := inferInstanceAs (Decidable (_ ∧ _))

instance (s : Router) (pid : ℤ) : Decidable (WaitTakes s pid) := inferInstanceAs (Decidable (_ = _))

instance (s : Router) : Decidable (TakesUnstored s) := by
  unfold TakesUnstored
  split <;> infer_instance

/-- Neither the child `child_pid` nor the one that is to be stored there is reaped while a reset may still
come. -/
def KeepsOwn (s : Router) (e : Ev) : Prop :=
  ¬ (e = .wait ∧ MayReset s ∧ (WaitTakes s s.parent.childPid ∨ TakesUnstored s))

instance (s : Router) (e : Ev) : Decidable (KeepsOwn s e) := inferInstanceAs (Decidable (¬ _))

/-- The step calls `kill (pid, SIGKILL)`. -/
def Kills (s s' : Router) (pid : ℤ) : Prop := ∃ es, s'.log = s.log ++ es ∧ .killed pid ∈ es

section Reap

/-- Nobody is reaped when nobody has exited; else the first that has. -/
theorem reap_cases (cs : List Child) :
    reap cs = cs ∧ cs.find? (fun c => !c.live) = none ∨
    ∃ before d after, cs = before ++ d :: after ∧ reap cs = before ++ after ∧
      cs.find? (fun c => !c.live) = some d := by
  induction cs with
  | nil => exact .inl ⟨rfl, rfl⟩
  | cons c cs ih =>
    cases hlive : c.live with
    | false => exact .inr ⟨[], c, cs, rfl, by simp [reap, hlive], by simp [hlive]⟩
    | true =>
      rcases ih with ⟨hsame, hnone⟩ | ⟨before, d, after, hcs, hreap, hfind⟩
      · exact .inl ⟨by simp [reap, hlive, hsame], by simp [hlive, hnone]⟩
      · refine .inr ⟨c :: before, d, after, by rw [hcs]; rfl, ?_, ?_⟩
        · simp [reap, hlive, hreap]
        · simp [hlive, hfind]

end Reap

@[simp] theorem pids_mapChild (s : Router) (pid : ℤ) {f : Child → Child} (hf : ∀ c, (f c).pid = c.pid) :
    pids (s.mapChild pid f) = pids s := by
  simp only [pids, Router.mapChild, List.map_map]
  apply List.map_congr_left
  intro c _
  by_cases hc : (c.pid = pid && c.live) = true
  · simp only [Function.comp_apply, hc, if_true, hf]
  · simp only [Function.comp_apply, hc, Bool.false_eq_true, if_false]

theorem pids_dropPeer (s : Router) : pids s.dropPeer = pids s := by
  unfold Router.dropPeer Router.kill
  split_ifs
  · exact pids_mapChild _ _ fun _ => rfl
  · rfl

/-- Only the test that finds the count at the limit logs a kill. -/
theorem log_cases {s s' : Router} {e : Ev} (hstep : s.Step e s') :
    ∃ es, s'.log = s.log ++ es ∧
      ∀ pid, .killed pid ∈ es → s.parent.childPid = pid ∧ 0 < pid ∧ MayReset s := by
  have hnone : ∃ es, s.log = s.log ++ es ∧
      ∀ pid, .killed pid ∈ es → s.parent.childPid = pid ∧ 0 < pid ∧ MayReset s :=
    ⟨[], (List.append_nil _).symm, by simp⟩
  cases hstep with
  | store hin hmain => exact ⟨[.closed s.parent.cliFd], rfl, by simp⟩
  | @eof pid hat => exact ⟨[.childReset pid], rfl, by simp⟩
  | @urg pid c hat =>
    refine ⟨_, rfl, ?_⟩
    intro p hp
    exfalso
    revert hp
    split
    · split_ifs <;> simp
    · simp
  | urgWrite hat => exact ⟨[.beatDone], rfl, by simp⟩
  | alrmRead hruns hpc => exact ⟨[.alrmRead], rfl, by simp⟩
  | @alrmTest x hruns hpc =>
    unfold Router.alrmTest
    by_cases hexpired : s.expired x = true
    · rw [if_pos hexpired]
      refine ⟨s.dropEntries, Router.dropPeer_log s, ?_⟩
      intro p hp
      have hflag : s.parent.alreadyReset = 0 := by
        simp only [Router.expired, Bool.and_eq_true, decide_eq_true_eq] at hexpired
        exact hexpired.2
      have hpid : 0 < s.parent.childPid ∧ p = s.parent.childPid := by
        unfold Router.dropEntries at hp
        split_ifs at hp with hpos
        · simp only [List.mem_cons, List.mem_nil_iff, reduceCtorEq, LogEv.killed.injEq, false_or, or_false] at hp
          exact ⟨hpos, hp⟩
        · simp at hp
      rw [hpid.2]
      exact ⟨rfl, hpid.1, hflag, by rw [hpc]; rfl⟩
    · rw [if_neg hexpired]
      exact hnone
  | alrmSystem hruns hpc => exact ⟨[.reset], rfl, by simp⟩
  | alrmWrite hruns hpc => exact ⟨[.alrmDone], rfl, by simp⟩
  | accept hin hmain | fork hin hmain hfork | urgTrunc hat | alrm hpc | alrmResetTrunc hruns hpc
  | alrmResetWrite hruns hpc | alrmTrunc hruns hpc | chld hpending hidle | wait hruns hreturns => exact hnone

theorem kills_cases {s s' : Router} {e : Ev} (hstep : s.Step e s') {pid : ℤ} (hkills : Kills s s' pid) :
    s.parent.childPid = pid ∧ 0 < pid ∧ MayReset s := by
  obtain ⟨es, hlog, hkilled⟩ := log_cases hstep
  obtain ⟨es', hlog', hmem⟩ := hkills
  obtain rfl : es = es' := List.append_cancel_left (hlog.symm.trans hlog')
  exact hkilled pid hmem

/-- A step leaves the children, `child_pid` and what is to be stored there alone; or it is a `fork`; or the
store; or `wait (0)`. -/
theorem pids_cases {s s' : Router} {e : Ev} (hstep : s.Step e s') :
    (pids s' = pids s ∧ s'.parent.childPid = s.parent.childPid ∧
      (∀ pid, s'.main = .store pid → s.main = .store pid) ∧ (MayReset s' → MayReset s)) ∨
    (∃ pid, s.Forks pid ∧ s' = s.forkReturns pid) ∨
    (∃ pid, s.main = .store pid ∧ s' = s.storePid pid) ∨
    (e = .wait ∧ s' = s.waitReturns) := by
  cases hstep with
  | @accept fd hin hmain =>
    refine .inl ⟨rfl, rfl, ?_, fun h => h⟩
    intro pid hpid
    simp only [Router.acceptReturns] at hpid
    split_ifs at hpid
  | @fork pid hin hmain hfork => exact .inr (.inl ⟨pid, hfork, rfl⟩)
  | @store pid hin hmain => exact .inr (.inr (.inl ⟨pid, hmain, rfl⟩))
  | eof hat | urg hat | urgTrunc hat | urgWrite hat =>
    exact .inl ⟨pids_mapChild _ _ fun _ => rfl, rfl, fun _ h => h, fun h => h⟩
  | alrm hpc | alrmRead hruns hpc | alrmTrunc hruns hpc | alrmWrite hruns hpc =>
    exact .inl ⟨rfl, rfl, fun _ h => h, fun h => ⟨h.1, by rw [hpc]; rfl⟩⟩
  | @alrmTest x hruns hpc =>
    refine .inl ?_
    unfold Router.alrmTest
    by_cases hexpired : s.expired x = true
    · rw [if_pos hexpired]
      refine ⟨pids_dropPeer s, congrArg Globals.childPid (Router.dropPeer_parent s), ?_, ?_⟩
      · intro pid hpid
        exact (Router.dropPeer_main s).symm.trans hpid
      · rintro ⟨-, hin⟩
        cases hin
    · rw [if_neg hexpired]
      exact ⟨rfl, rfl, fun _ h => h, fun h => ⟨h.1, by rw [hpc]; rfl⟩⟩
  | alrmSystem hruns hpc | alrmResetTrunc hruns hpc =>
    refine .inl ⟨rfl, rfl, fun _ h => h, ?_⟩
    rintro ⟨-, hin⟩
    cases hin
  | alrmResetWrite hruns hpc =>
    refine .inl ⟨rfl, rfl, fun _ h => h, ?_⟩
    rintro ⟨hflag, -⟩
    cases hflag
  | chld hpending hidle => exact .inl ⟨rfl, rfl, fun _ h => h, fun h => h⟩
  | wait hruns hreturns => exact .inr (.inr (.inr ⟨rfl, rfl⟩))

/-- A `fork` adds a new child, or fails. -/
theorem pids_forkReturns {s : Router} {pid : ℤ} (hfork : s.Forks pid) :
    pid = -1 ∧ pids (s.forkReturns pid) = pids s ∨
      0 < pid ∧ pid ∉ pids s ∧ pids (s.forkReturns pid) = pids s ++ [pid] := by
  rcases hfork with rfl | ⟨hpos, hnew⟩
  · exact .inl ⟨rfl, rfl⟩
  · refine .inr ⟨hpos, ?_, ?_⟩
    · intro hmem
      obtain ⟨c, hc, hcpid⟩ := List.mem_map.mp hmem
      exact hnew c hc hcpid
    · simp [pids, Router.forkReturns, hpos]

/-! ## Runs that keep the own child -/

/-- The pids of the children are different and positive. -/
structure Children (s : Router) : Prop where
  nodup : (pids s).Nodup
  pos : ∀ pid ∈ pids s, 0 < pid

theorem children_reachable {s : Router} (hs : router.Reachable s) : Children s := by
  refine router.invariant (P := Children) ⟨List.nodup_nil, by simp [pids, router, Router.start]⟩ ?_ hs
  intro s e s' _ h hstep
  rcases pids_cases (router_step_iff.mp hstep) with
    ⟨hpids, -, -, -⟩ | ⟨pid, hfork, rfl⟩ | ⟨pid, -, rfl⟩ | ⟨-, rfl⟩
  · exact ⟨hpids ▸ h.nodup, hpids ▸ h.pos⟩
  · rcases pids_forkReturns hfork with ⟨-, hpids⟩ | ⟨hpos, hnew, hpids⟩
    · exact ⟨hpids ▸ h.nodup, hpids ▸ h.pos⟩
    · constructor
      · rw [hpids]
        exact List.nodup_append_comm.mp (List.nodup_cons.mpr ⟨hnew, h.nodup⟩)
      · rw [hpids]
        intro p hp
        rcases List.mem_append.mp hp with hold | hlast
        · exact h.pos p hold
        · exact List.mem_singleton.mp hlast ▸ hpos
  · exact ⟨h.nodup, h.pos⟩
  · have hsub : (pids s.waitReturns).Sublist (pids s) := by
      apply List.Sublist.map
      show (reap s.children).Sublist s.children
      rcases reap_cases s.children with ⟨hsame, -⟩ | ⟨before, d, after, hcs, hreap, -⟩
      · rw [hsame]
      · rw [hreap, hcs]
        exact (List.sublist_cons_self d after).append_left before
    exact ⟨h.nodup.sublist hsub, fun pid hpid => h.pos pid (hsub.subset hpid)⟩

/-- While a reset may still come, a positive `child_pid` is that of a child, and so is what is to be stored
there. -/
structure Owns (s : Router) : Prop where
  stored : MayReset s → 0 < s.parent.childPid → s.parent.childPid ∈ pids s
  unstored : ∀ pid, s.main = .store pid → MayReset s → 0 < pid → pid ∈ pids s

/-- A reaped child is the first that has exited. -/
theorem mem_pids_waitReturns {s : Router} {pid : ℤ} (hnot : ¬ WaitTakes s pid) (hmem : pid ∈ pids s) :
    pid ∈ pids s.waitReturns := by
  show pid ∈ (reap s.children).map Child.pid
  rcases reap_cases s.children with ⟨hsame, -⟩ | ⟨before, d, after, hcs, hreap, hfind⟩
  · rw [hsame]
    exact hmem
  · have hne : pid ≠ d.pid := by
      intro heq
      apply hnot
      rw [WaitTakes, hfind, heq]
      rfl
    rw [pids, hcs, List.map_append, List.map_cons, List.mem_append, List.mem_cons] at hmem
    rw [hreap, List.map_append, List.mem_append]
    rcases hmem with hbefore | heq | hafter
    · exact .inl hbefore
    · exact absurd heq hne
    · exact .inr hafter

/-- The pid of the reaped child is gone, since no other child has it. -/
theorem not_mem_pids_waitReturns {s : Router} {pid : ℤ} (h : Children s) (htakes : WaitTakes s pid) :
    0 < pid ∧ pid ∉ pids s.waitReturns := by
  show _ ∧ pid ∉ (reap s.children).map Child.pid
  rcases reap_cases s.children with ⟨-, hnone⟩ | ⟨before, d, after, hcs, hreap, hfind⟩
  · rw [WaitTakes, hnone] at htakes
    cases htakes
  · rw [WaitTakes, hfind, Option.map_some, Option.some.injEq] at htakes
    have hnodup := h.nodup
    have hpos := h.pos
    simp only [pids, hcs, List.map_append, List.map_cons] at hnodup hpos
    rw [← htakes, hreap, List.map_append, List.mem_append]
    refine ⟨hpos _ (List.mem_append_right _ List.mem_cons_self), ?_⟩
    have hsplit := List.nodup_append.mp hnodup
    rintro (hbefore | hafter)
    · exact hsplit.2.2 _ hbefore _ List.mem_cons_self rfl
    · exact (List.nodup_cons.mp hsplit.2.1).1 hafter

theorem Owns.step {s s' : Router} (h : Owns s) {e : Ev} (hkeeps : KeepsOwn s e) (hstep : s.Step e s') :
    Owns s' := by
  rcases pids_cases hstep with ⟨hpids, hchild, hmain, hback⟩ | ⟨pid, hfork, rfl⟩ | ⟨pid, hmain, rfl⟩ | ⟨rfl, rfl⟩
  · constructor
    · intro hmay hpos
      rw [hpids, hchild]
      exact h.stored (hback hmay) (hchild ▸ hpos)
    · intro pid hstore hmay hpos
      rw [hpids]
      exact h.unstored pid (hmain pid hstore) (hback hmay) hpos
  · rcases pids_forkReturns hfork with ⟨rfl, hpids⟩ | ⟨hpos, -, hpids⟩
    · refine ⟨fun hmay hpos => hpids ▸ h.stored hmay hpos, ?_⟩
      rintro p ⟨⟩ - hpos
      exact absurd hpos (by decide)
    · constructor
      · intro hmay hpos
        rw [hpids]
        exact List.mem_append_left _ (h.stored hmay hpos)
      · rintro p ⟨⟩ - -
        rw [hpids]
        exact List.mem_append_right _ (List.mem_singleton_self _)
  · -- what was to be stored is `child_pid` now
    refine ⟨fun hmay hpos => h.unstored pid hmain hmay hpos, ?_⟩
    rintro p ⟨⟩
  · constructor
    · intro hmay hpos
      exact mem_pids_waitReturns (fun htakes => hkeeps ⟨rfl, hmay, .inl htakes⟩) (h.stored hmay hpos)
    · intro pid hmain hmay hpos
      have hmain : s.main = .store pid := hmain
      refine mem_pids_waitReturns (fun htakes => hkeeps ⟨rfl, hmay, .inr ?_⟩) (h.unstored pid hmain hmay hpos)
      rw [TakesUnstored, hmain]
      exact htakes

theorem owns_reachable {s : Router} (hs : (router.restrict KeepsOwn).Reachable s) : Owns s := by
  refine router.restrict_invariant (P := Owns) ⟨?_, ?_⟩ ?_ hs
  · intro _ hpos
    exact absurd hpos (by decide)
  · rintro pid ⟨⟩
  · intro s e s' _ h hkeeps hstep
    exact h.step hkeeps (router_step_iff.mp hstep)

/-! ## What comes of a step that does not keep it -/

/-- The file is empty, or holds a number. -/
def Readable (file : File) : Prop := file = [] ∨ ∃ v, Holds file v

theorem readable_reachable {s : Router} (hs : router.Reachable s) : Readable s.file := by
  refine router.invariant (P := fun s => Readable s.file) (.inr ⟨0, holds_write _ (by decide)⟩) ?_ hs
  intro s e s' _ h hstep
  cases router_step_iff.mp hstep with
  | accept hin hmain | fork hin hmain hfork | store hin hmain | eof hat | urg hat | alrm hpc | alrmRead hruns hpc
  | alrmSystem hruns hpc | chld hpending hidle | wait hruns hreturns => exact h
  | urgTrunc hat | alrmResetTrunc hruns hpc | alrmTrunc hruns hpc => exact .inl rfl
  | urgWrite hat | alrmResetWrite hruns hpc => exact .inr ⟨0, holds_write _ (by decide)⟩
  | alrmWrite hruns hpc => exact .inr ⟨_, holds_write _ (wrap32_natAbs_le _)⟩
  | @alrmTest x hruns hpc =>
    unfold Router.alrmTest
    split_ifs
    · show Readable s.dropPeer.file
      rw [Router.dropPeer_file]
      exact h
    · exact h

/-- The flag is clear, `child_pid` is a pid that no child has, and SIGCHLD is not being handled. -/
structure Stray (s : Router) : Prop where
  flag : s.parent.alreadyReset = 0
  pos : 0 < s.parent.childPid
  gone : s.parent.childPid ∉ pids s
  idle : s.chld = .idle

/-- Some kill that follows hits no child. -/
def StrayKillFollows (s : Router) : Prop :=
  ∃ t u e, router.Leads s t ∧ router.step t e = some u ∧
    Kills t u t.parent.childPid ∧ t.parent.childPid ∉ pids t

section Follows

variable {s t : Router} {x v : ℤ}

theorem StrayKillFollows.of_leads (h : router.Leads s t) (ht : StrayKillFollows t) : StrayKillFollows s := by
  obtain ⟨t', u, e, hleads, hkill⟩ := ht
  exact ⟨t', u, e, h.trans hleads, hkill⟩

theorem alrmRuns_of_idle (h : s.chld = .idle) : s.AlrmRuns := by
  simp [Router.AlrmRuns, h]

/-- The test finds the count at the limit. -/
theorem Stray.of_test (h : Stray s) (hpc : s.alrm = .toTest peerExpireCnt) : StrayKillFollows s := by
  refine ⟨s, s.alrmTest peerExpireCnt, .alrmTest, .refl s,
    router_step_iff.mpr (.alrmTest (alrmRuns_of_idle h.idle) hpc), ?_, h.gone⟩
  have hexpired : s.expired peerExpireCnt = true := by
    simp [Router.expired, h.flag]
  refine ⟨s.dropEntries, ?_, ?_⟩
  · rw [Router.alrmTest, if_pos hexpired]
    exact Router.dropPeer_log s
  · simp [Router.dropEntries, h.pos]

/-- A SIGALRM comes, and its handler reads the file. -/
theorem leads_of_main (hidle : s.chld = .idle) (hmain : s.alrm = .main) (stack : List Char) :
    router.Leads s (s.alrmEnter.alrmRead stack) :=
  .step (router_step_iff.mpr (.alrm hmain))
    (.single (router_step_iff.mpr (.alrmRead (alrmRuns_of_idle hidle) rfl)))

/-- From the test on, below or above the limit, the handler only writes the next number. -/
theorem leads_of_trunc (hidle : s.chld = .idle) (hpc : s.alrm = .toTrunc x) : ∃ t, router.Leads s t ∧
    t.alrm = .main ∧ t.chld = s.chld ∧ t.parent = s.parent ∧ t.children = s.children ∧
      Holds t.file (wrap32 (x + 1)) := by
  have hruns : s.AlrmRuns := alrmRuns_of_idle hidle
  refine ⟨(s.alrmTrunc x).alrmWrite x, ?_, rfl, rfl, rfl, rfl, holds_write _ (wrap32_natAbs_le _)⟩
  exact .step (router_step_iff.mpr (.alrmTrunc hruns hpc)) (.single (router_step_iff.mpr (.alrmWrite hruns rfl)))

theorem leads_of_test (hidle : s.chld = .idle) (hpc : s.alrm = .toTest x) (hne : x ≠ peerExpireCnt) :
    ∃ t, router.Leads s t ∧ t.alrm = .main ∧ t.chld = s.chld ∧ t.parent = s.parent ∧
      t.children = s.children ∧ Holds t.file (wrap32 (x + 1)) := by
  have hnot : ¬ s.expired x = true := by
    simp only [Router.expired, Bool.and_eq_true, decide_eq_true_eq]
    exact fun h => hne h.1.symm
  have htest : s.alrmTest x = { s with alrm := .toTrunc x } := if_neg hnot
  obtain ⟨t, ht, hrest⟩ := leads_of_trunc (s := { s with alrm := .toTrunc x }) (x := x) hidle rfl
  exact ⟨t, .step (htest ▸ router_step_iff.mpr (.alrmTest (alrmRuns_of_idle hidle) hpc)) ht, hrest⟩

theorem Stray.congr (h : Stray s) (hparent : t.parent = s.parent) (hchildren : t.children = s.children)
    (hchld : t.chld = s.chld) : Stray t := by
  refine ⟨hparent ▸ h.flag, hparent ▸ h.pos, ?_, hchld.trans h.idle⟩
  rw [pids, hparent, hchildren]
  exact h.gone

/-- **The count comes to the limit**: `k` more SIGALRMs from a number that is `k` below it, modulo `2 ^ 32`. -/
theorem Stray.of_holds (h : Stray s) (hmain : s.alrm = .main) (k : ℕ) (hfile : Holds s.file v)
    (hk : v + k = peerExpireCnt ∨ v + k = peerExpireCnt + 2 ^ 32) : StrayKillFollows s := by
  have hread : (s.alrmEnter.alrmRead []).alrm = .toTest v := by
    show AlrmPc.toTest (readExpireCnt [] s.file) = _
    rw [hfile.read]
  have hstray : Stray (s.alrmEnter.alrmRead []) := h.congr rfl rfl rfl
  induction k generalizing s v with
  | zero =>
    have hsmall := hfile.small
    have hlimit : v = peerExpireCnt := by
      simp only [peerExpireCnt] at hk ⊢
      omega
    exact .of_leads (leads_of_main h.idle hmain []) (hstray.of_test (hlimit ▸ hread))
  | succ k ih =>
    refine .of_leads (leads_of_main h.idle hmain []) ?_
    by_cases hlimit : v = peerExpireCnt
    · exact hstray.of_test (hlimit ▸ hread)
    · obtain ⟨t, ht, hpc, hchld, hparent, hchildren, hnext⟩ := leads_of_test hstray.idle hread hlimit
      have hstray' : Stray t := hstray.congr hparent hchildren hchld
      refine .of_leads ht (ih hstray' hpc hnext ?_ ?_ (hstray'.congr rfl rfl rfl))
      · -- one more, or the smallest `int`
        have hsmall := hfile.small
        have hsmall' := wrap32_natAbs_le (v + 1)
        obtain ⟨j, hj⟩ : ((2 ^ 32 : ℕ) : ℤ) ∣ wrap32 (v + 1) - (v + 1) := Int.dvd_bmod_sub_self
        simp only [peerExpireCnt] at hk ⊢
        push_cast at hk hj
        omega
      · show AlrmPc.toTest (readExpireCnt [] t.file) = _
        rw [hnext.read]

theorem Stray.of_main (h : Stray s) (hmain : s.alrm = .main) (hfile : Readable s.file) :
    StrayKillFollows s := by
  rcases hfile with hempty | ⟨v, hv⟩
  · -- what is on the stack is taken for the number
    have hstray : Stray (s.alrmEnter.alrmRead ['3', '0']) := h.congr rfl rfl rfl
    refine .of_leads (leads_of_main h.idle hmain ['3', '0']) (hstray.of_test ?_)
    show AlrmPc.toTest (readExpireCnt ['3', '0'] s.file) = _
    rw [hempty]
    decide
  · have hsmall := hv.small
    refine h.of_holds hmain (peerExpireCnt + 2 ^ 32 - v).toNat hv (.inr ?_)
    simp only [peerExpireCnt]
    omega

/-- Wherever the handler stands. -/
theorem Stray.follows (h : Stray s) (hin : s.alrm.inReset = false) (hfile : Readable s.file) :
    StrayKillFollows s := by
  have htest : ∀ {t x}, Stray t → t.alrm = .toTest x → StrayKillFollows t := by
    intro t x ht hpc
    by_cases hlimit : x = peerExpireCnt
    · exact ht.of_test (hlimit ▸ hpc)
    · obtain ⟨u, hu, hmain, hchld, hparent, hchildren, hnext⟩ := leads_of_test ht.idle hpc hlimit
      exact .of_leads hu ((ht.congr hparent hchildren hchld).of_main hmain (.inr ⟨_, hnext⟩))
  have hruns : s.AlrmRuns := alrmRuns_of_idle h.idle
  cases hpc : s.alrm with
  | main => exact h.of_main hpc hfile
  | toRead =>
    have hread : router.step s (.alrmRead []) = some (s.alrmRead []) := router_step_iff.mpr (.alrmRead hruns hpc)
    refine .of_leads (.single hread) ?_
    exact htest (h.congr rfl rfl rfl) rfl
  | toTest x => exact htest h hpc
  | toSystem x | toResetTrunc x | toResetWrite x =>
    rw [hpc] at hin
    cases hin
  | toTrunc x =>
    obtain ⟨t, ht, hmain, hchld, hparent, hchildren, hnext⟩ := leads_of_trunc h.idle hpc
    exact .of_leads ht ((h.congr hparent hchildren hchld).of_main hmain (.inr ⟨_, hnext⟩))
  | toWrite x =>
    refine .of_leads (.single (router_step_iff.mpr (.alrmWrite hruns hpc))) ?_
    exact Stray.of_main (h.congr rfl rfl rfl) rfl (.inr ⟨_, holds_write _ (wrap32_natAbs_le _)⟩)

/-- The main loop stores a pid that no child has. -/
theorem StrayKillFollows.of_store {pid : ℤ} (hin : s.InMain) (hmain : s.main = .store pid)
    (hflag : s.parent.alreadyReset = 0) (hpos : 0 < pid) (hgone : pid ∉ pids s) (hfile : Readable s.file) :
    StrayKillFollows s := by
  have hstray : Stray (s.storePid pid) := ⟨hflag, hpos, hgone, hin.2⟩
  refine .of_leads (.single (router_step_iff.mpr (.store hin hmain))) (hstray.of_main hin.1 hfile)

end Follows

/-- **In a run in which neither the child `child_pid` nor one that is to be stored there is reaped while a reset
may still come, every kill hits a child of the router that was not reaped.**  A step that reaps such a child (the
one that is to be stored: while no SIGALRM is handled) can be followed by a kill of a pid that is no child's. -/
theorem kill_own_child (s : Router) (e : Ev) (s' : Router) (hstep : router.step s e = some s') :
    ((router.restrict KeepsOwn).Reachable s → ∀ pid, Kills s s' pid → pid ∈ pids s) ∧
    (router.Reachable s → ¬ KeepsOwn s e → (TakesUnstored s → s.alrm = .main) → StrayKillFollows s') := by
  constructor
  · intro hs pid hkills
    obtain ⟨rfl, hpos, hmay⟩ := kills_cases (router_step_iff.mp hstep) hkills
    exact (owns_reachable hs).stored hmay hpos
  · intro hs hnot hunstored
    rw [KeepsOwn, not_not] at hnot
    obtain ⟨rfl, ⟨hflag, hin⟩, htakes⟩ := hnot
    have hreadable := readable_reachable (.step .wait hs hstep)
    have hchildren := children_reachable hs
    cases router_step_iff.mp hstep with
    | wait hruns hreturns =>
      rcases htakes with htakes | htakes
      · obtain ⟨hpos, hgone⟩ := not_mem_pids_waitReturns hchildren htakes
        exact Stray.follows ⟨hflag, hpos, hgone, rfl⟩ hin hreadable
      · have hpc := hunstored htakes
        unfold TakesUnstored at htakes
        split at htakes
        · next pid hmain =>
          obtain ⟨hpos, hgone⟩ := not_mem_pids_waitReturns hchildren htakes
          exact .of_store ⟨hpc, rfl⟩ hmain hflag hpos hgone hreadable
        · exact htakes.elim
        · exact htakes.elim

/-- Thirty SIGALRMs without a heartbeat, and the 31st up to its test. -/
def toTheTest : List Ev :=
  (List.replicate 30 [.alrm, .alrmRead [], .alrmTest, .alrmTrunc, .alrmWrite]).flatten ++ [.alrm, .alrmRead []]

/-- The next step closes descriptor 4 and kills 100. -/
def killsHundred (s : Router) : Bool :=
  (router.step s .alrmTest).any fun s' => s'.log = s.log ++ [.closed 4, .killed 100]

theorem killsHundred_spec {s : Router} (h : killsHundred s = true) :
    ∃ s', router.step s .alrmTest = some s' ∧ Kills s s' 100 := by
  obtain ⟨s', hstep, hlog⟩ := (Option.any_eq_true _ _).mp h
  exact ⟨s', hstep, _, of_decide_eq_true hlog, by simp⟩

/-- The child that is killed runs. -/
theorem kill_own_child_running : ∃ s s', (router.restrict KeepsOwn).Reachable s ∧
    router.step s .alrmTest = some s' ∧ Kills s s' 100 ∧ 100 ∈ pids s := by
  obtain ⟨s, hs, hend⟩ := (router.restrict KeepsOwn).exists_reachable_of_run (connect 4 100 ++ toTheTest)
    killsHundred (by decide +kernel)
  obtain ⟨s', hstep, hkills⟩ := killsHundred_spec hend
  exact ⟨s, s', hs, hstep, hkills, (kill_own_child s .alrmTest s' hstep).1 hs 100 hkills⟩

/-- The child exits and is reaped; the kill comes later. -/
theorem kill_reaped_child : ∃ s s', router.Reachable s ∧ router.step s .alrmTest = some s' ∧
    Kills s s' 100 ∧ 100 ∉ pids s := by
  obtain ⟨s, hs, hend⟩ := router.exists_reachable_of_run
    (connect 4 100 ++ [.eof 100, .chld, .wait] ++ toTheTest)
    (fun s => killsHundred s && decide (100 ∉ pids s)) (by decide +kernel)
  rw [Bool.and_eq_true, decide_eq_true_eq] at hend
  obtain ⟨s', hstep, hkills⟩ := killsHundred_spec hend.1
  exact ⟨s, s', hs, hstep, hkills, hend.2⟩

end NetProg.Heartbeat
