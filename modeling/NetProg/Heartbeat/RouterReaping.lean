/-
# NetProg.Heartbeat.RouterReaping -- which exited children the router waits for.

The handler for SIGCHLD in `C/heartbeat_router.c` calls `wait (0)` once; that in
`C/select_tcp_udp_server.c` calls `waitpid (-1, &stat, WNOHANG)` until it takes no child.  Signals do not queue,
so the second reaps everybody (`quiet_reaped`), and the first leaves a zombie for every child that exits while
a SIGCHLD is pending.  Only the SIGCHLD for the shell of a reset's `system` can make one of them good: that child
is waited for by `system`, and the `wait (0)` takes another one, if there is one to take.

The runs of `router` are runs of a parent with that handler (`reachable_familyOf`); an exit is the end of a
session in a child, or the kill of a child by a reset.
-/
import NetProg.Base.Reaping
import NetProg.Heartbeat.RouterKill

namespace NetProg.Heartbeat

/-- `wait (0)`, in the handler of `heartbeat_router.c`. -/
def sigChldHandler : ChildHandler := ⟨true, fun _ => false⟩

/-- `while ((pid = waitpid (-1, &stat, WNOHANG)) > 0)`, in `sig_child` of `select_tcp_udp_server.c`. -/
def sigChild : ChildHandler := ⟨false, fun took => took⟩

/-! ## The router as a parent of its children -/

/-- The children that run, those that were not waited for, the pending SIGCHLD, and whether its handler runs. -/
def familyOf (s : Router) : Family :=
  ⟨s.children.countP Child.live, s.children.countP fun c => !c.live, s.chldPending, s.chld ≠ .idle⟩

/-- A child exits, at the end of its session or killed by a reset; the shell of `system` does; and `wait (0)`
finds nobody. -/
def marksOf (s : Router) : Ev → List Mark
  | .eof _ => [.exit s.chldPending]
  | .alrmTest =>
    match s.alrm with
    | .toTest e =>
      if s.expired e = true ∧ 0 < s.parent.childPid ∧ (s.child s.parent.childPid).isSome then
        [.exit s.chldPending]
      else []
    | _ => []
  | .alrmSystem shell => if shell then [.signal s.chldPending] else []
  | .wait => if ∃ c ∈ s.children, c.live = false then [] else [.vain]
  | _ => []

section Counts

variable {cs : List Child} {pid : ℤ}

/-- A change that nobody's count depends on. -/
theorem countP_map_of {f : Child → Child} {q : Child → Bool} (hq : ∀ c, q (f c) = q c) :
    (cs.map f).countP q = cs.countP q := by
  rw [List.countP_map]
  apply List.countP_congr
  intro c _
  simp [hq]

/-- The child `pid`, if it runs, ends. -/
def ended (pid : ℤ) (c : Child) : Child := if c.pid = pid && c.live then { c with live := false } else c

theorem map_ended_of_not_mem (h : pid ∉ cs.map Child.pid) : cs.map (ended pid) = cs := by
  rw [List.map_congr_left (g := id), List.map_id]
  intro c hc
  have hne : c.pid ≠ pid := fun heq => h (List.mem_map.mpr ⟨c, hc, heq⟩)
  simp [ended, hne]

/-- One child fewer runs, and one more has exited. -/
theorem countP_ended (hnodup : (cs.map Child.pid).Nodup) (h : ∃ c ∈ cs, c.pid = pid ∧ c.live = true) :
    (cs.map (ended pid)).countP Child.live + 1 = cs.countP Child.live ∧
      ((cs.map (ended pid)).countP fun c => !c.live) = (cs.countP fun c => !c.live) + 1 := by
  induction cs with
  | nil =>
    obtain ⟨c, hc, -⟩ := h
    cases hc
  | cons c cs ih =>
    rw [List.map_cons, List.nodup_cons] at hnodup
    by_cases hpid : c.pid = pid ∧ c.live = true
    · have hrest : cs.map (ended pid) = cs := map_ended_of_not_mem (hpid.1 ▸ hnodup.1)
      have hhead : ended pid c = { c with live := false } := by simp [ended, hpid]
      rw [List.map_cons, hrest, hhead]
      simp [hpid.2]
    · have hhead : ended pid c = c := by
        rw [ended, if_neg (by simpa using hpid)]
      have hin : ∃ d ∈ cs, d.pid = pid ∧ d.live = true := by
        obtain ⟨d, hd, hdpid⟩ := h
        rcases List.mem_cons.mp hd with rfl | hd
        · exact absurd hdpid hpid
        · exact ⟨d, hd, hdpid⟩
      obtain ⟨hlive, hdead⟩ := ih hnodup.2 hin
      rw [List.map_cons, hhead]
      simp only [List.countP_cons]
      omega

end Counts

section Simulation

variable {s s' : Router} {l : List Mark}

theorem familyOf_mapChild (s : Router) (pid : ℤ) {f : Child → Child} (hf : ∀ c, (f c).live = c.live) :
    familyOf (s.mapChild pid f) = familyOf s := by
  have hlive : ∀ c, (if c.pid = pid && c.live then f c else c).live = c.live := by
    intro c
    split_ifs
    · exact hf c
    · rfl
  simp only [familyOf, Router.mapChild]
  rw [countP_map_of hlive, countP_map_of fun c => congrArg not (hlive c)]
  rfl

/-- A child that runs exits. -/
theorem exit_step (hnodup : (pids s).Nodup) {pid : ℤ} (h : ∃ c ∈ s.children, c.pid = pid ∧ c.live = true) :
    (family sigChldHandler).step (familyOf s) .exit =
      some ⟨(s.children.map (ended pid)).countP Child.live,
        (s.children.map (ended pid)).countP fun c => !c.live, true, s.chld ≠ .idle⟩ := by
  obtain ⟨hlive, hdead⟩ := countP_ended hnodup h
  have hpos : 0 < (familyOf s).running := by
    show 0 < s.children.countP Child.live
    omega
  simp only [family, Family.step]
  rw [if_pos hpos]
  simp only [familyOf, Option.some.injEq, Family.mk.injEq, and_true]
  omega

/-- A reset kills the child `child_pid`, if that one runs. -/
theorem kill_leads (hchildren : Children s) {x : ℤ} (hpc : s.alrm = .toTest x) (hexpired : s.expired x = true) :
    ((family sigChldHandler).observe marks).Leads (familyOf s, l)
      (familyOf { s.dropPeer with alrm := .toSystem x }, l ++ marksOf s .alrmTest) := by
  show ((family sigChldHandler).observe marks).Leads (familyOf s, l)
    (familyOf s.dropPeer, l ++ marksOf s .alrmTest)
  have hmarks : marksOf s .alrmTest =
      if 0 < s.parent.childPid ∧ (s.child s.parent.childPid).isSome then [.exit s.chldPending] else [] := by
    simp [marksOf, hpc, hexpired]
  by_cases hpid : 0 < s.parent.childPid
  · have hkilled : familyOf s.dropPeer =
        ⟨(s.children.map (ended s.parent.childPid)).countP Child.live,
          (s.children.map (ended s.parent.childPid)).countP fun c => !c.live,
          s.chldPending || (s.child s.parent.childPid).isSome, s.chld ≠ .idle⟩ := by
      unfold Router.dropPeer Router.kill
      rw [if_pos (show 0 < (s.logs _).parent.childPid from hpid)]
      rfl
    cases hchild : s.child s.parent.childPid with
    | some c =>
      have hc := List.find?_some hchild
      rw [Bool.and_eq_true, decide_eq_true_eq] at hc
      rw [hmarks, hkilled, if_pos ⟨hpid, by rw [hchild]; rfl⟩, hchild, Option.isSome_some, Bool.or_true]
      exact .single (e := .exit) (System.observe_step.mpr
        ⟨exit_step hchildren.nodup ⟨c, List.mem_of_find?_eq_some hchild, hc⟩, rfl⟩)
    | none =>
      -- the child has exited before: nobody is hit
      have hsame : s.children.map (ended s.parent.childPid) = s.children := by
        rw [List.map_congr_left (g := id), List.map_id]
        intro c hc
        rw [ended, if_neg (List.find?_eq_none.mp hchild c hc)]
        rfl
      rw [hmarks, hkilled, hchild, if_neg (by simp), hsame, Option.isSome_none, Bool.or_false, List.append_nil]
      exact .refl _
  · have hsame : familyOf s.dropPeer = familyOf s := by
      unfold Router.dropPeer Router.kill
      rw [if_neg (show ¬ 0 < (s.logs _).parent.childPid from hpid)]
      rfl
    rw [hmarks, hsame, if_neg fun h => hpid h.1, List.append_nil]
    exact .refl _

theorem zombies_pos_iff : 0 < (familyOf s).zombies ↔ ∃ c ∈ s.children, c.live = false := by
  show 0 < (s.children.countP fun c => !c.live) ↔ _
  simp [List.countP_pos_iff]

/-- `wait (0)` takes the first zombie, or finds no child. -/
theorem wait_step (hruns : s.ChldRuns) (hreturns : s.WaitReturns) :
    (family sigChldHandler).step (familyOf s) .wait = some (familyOf s.waitReturns) := by
  have hhandling : (familyOf s).handling = true := by
    rcases hruns with hat | ⟨hat, -⟩ <;> simp [familyOf, hat]
  simp only [family, Family.step]
  rw [if_pos hhandling]
  by_cases hzombies : ∃ c ∈ s.children, c.live = false
  · have hcounts : (Router.reap s.children).countP Child.live = s.children.countP Child.live ∧
        ((Router.reap s.children).countP fun c => !c.live) = (s.children.countP fun c => !c.live) - 1 := by
      rcases reap_cases s.children with ⟨-, hnone⟩ | ⟨before, d, after, hcs, hreap, hfind⟩
      · exfalso
        obtain ⟨c, hc, hdead⟩ := hzombies
        simpa [hdead] using List.find?_eq_none.mp hnone c hc
      · have hdead : d.live = false := by simpa using List.find?_some hfind
        rw [hreap, hcs]
        simp [hdead]
    rw [if_pos (zombies_pos_iff.mpr hzombies)]
    simp only [familyOf, Router.waitReturns, hcounts.1, hcounts.2]
    rfl
  · -- nobody has exited, so there is nobody
    have hempty : s.children = [] := hreturns.resolve_left hzombies
    rw [if_neg (fun h => hzombies (zombies_pos_iff.mp h))]
    simp [familyOf, Router.waitReturns, Router.reap, hempty, sigChldHandler]

/-- **A step of the router is one of the parent, or none.** -/
theorem familyOf_leads (hchildren : Children s) {e : Ev} (hstep : s.Step e s') :
    ((family sigChldHandler).observe marks).Leads (familyOf s, l) (familyOf s', l ++ marksOf s e) := by
  have hsame : ∀ {t : Router}, familyOf t = familyOf s → marksOf s e = [] →
      ((family sigChldHandler).observe marks).Leads (familyOf s, l) (familyOf t, l ++ marksOf s e) := by
    intro t ht hnone
    rw [ht, hnone, List.append_nil]
    exact .refl _
  cases hstep with
  | @fork pid hin hmain hfork =>
    have hhandling : (familyOf s).handling = false := by simp [familyOf, hin.2]
    by_cases hpid : 0 < pid
    · refine .single (e := .fork) (System.observe_step.mpr ⟨?_, rfl⟩)
      simp only [family, Family.step]
      rw [if_pos hhandling]
      simp [familyOf, Router.forkReturns, hpid]
    · refine hsame ?_ rfl
      simp [familyOf, Router.forkReturns, hpid]
  | @eof pid hat =>
    obtain ⟨c, hc, hpid, hlive, -⟩ := hat
    exact .single (e := .exit)
      (System.observe_step.mpr ⟨exit_step hchildren.nodup ⟨c, hc, hpid, hlive⟩, rfl⟩)
  | urg hat => exact hsame (familyOf_mapChild s _ fun _ => rfl) rfl
  | urgTrunc hat => exact hsame (familyOf_mapChild s _ fun _ => rfl) rfl
  | urgWrite hat => exact hsame (familyOf_mapChild s _ fun _ => rfl) rfl
  | @alrmTest x hruns hpc =>
    unfold Router.alrmTest
    by_cases hexpired : s.expired x = true
    · rw [if_pos hexpired]
      exact kill_leads hchildren hpc hexpired
    · rw [if_neg hexpired]
      exact hsame rfl (by simp [marksOf, hpc, hexpired])
  | @alrmSystem x shell hruns hpc =>
    cases shell with
    | false =>
      refine hsame ?_ rfl
      simp [familyOf, Router.alrmSystem, Router.system]
    | true =>
      refine .single (e := .signal) (System.observe_step.mpr ⟨?_, rfl⟩)
      simp [family, Family.step, familyOf, Router.alrmSystem, Router.system]
  | chld hpending hidle =>
    refine .single (e := .deliver) (System.observe_step.mpr ⟨?_, rfl⟩)
    simp [family, Family.step, familyOf, Router.chldEnter, hpending, hidle]
  | wait hruns hreturns =>
    refine .single (e := .wait) (System.observe_step.mpr ⟨wait_step hruns hreturns, ?_⟩)
    simp only [marksOf, marks, zombies_pos_iff]
  | accept hin hmain | store hin hmain | alrm hpc | alrmRead hruns hpc | alrmResetTrunc hruns hpc
  | alrmResetWrite hruns hpc | alrmTrunc hruns hpc | alrmWrite hruns hpc => exact hsame rfl rfl

/-- **The runs of the router are runs of a parent with its handler**, with the same marks. -/
theorem reachable_familyOf {p : Router × List Mark} (hp : (router.observe marksOf).Reachable p) :
    ((family sigChldHandler).observe marks).Reachable (familyOf p.1, p.2) := by
  refine (router.observe marksOf).invariant
    (P := fun p => ((family sigChldHandler).observe marks).Reachable (familyOf p.1, p.2)) .init ?_ hp
  rintro ⟨s, l⟩ e ⟨s', l'⟩ hr ih hobs
  obtain ⟨hstep, rfl⟩ := System.observe_step.mp hobs
  exact System.Leads.reachable ih
    (familyOf_leads (children_reachable (System.reachable_of_observe hr)) (router_step_iff.mp hstep))

/-- Where a shell's SIGCHLD was seen, a reset was issued. -/
theorem reset_of_signal {p : Router × List Mark} (hp : (router.observe marksOf).Reachable p) {merged : Bool}
    (hsignal : .signal merged ∈ p.2) : .reset ∈ p.1.log := by
  revert hsignal
  refine System.observe_invariant (P := fun s l => .signal merged ∈ l → .reset ∈ s.log) ?_ ?_ hp
  · exact fun hmem => absurd hmem List.not_mem_nil
  · intro s l e s' _ ih hstep hmem
    have hstep := router_step_iff.mp hstep
    obtain ⟨es, hlog, -⟩ := log_cases hstep
    rcases List.mem_append.mp hmem with hold | hnew
    · rw [hlog]
      exact List.mem_append_left es (ih hold)
    · cases hstep with
      | alrmSystem hruns hpc => exact List.mem_append_right _ (List.mem_singleton_self _)
      | wait hruns hreturns =>
        simp only [marksOf] at hnew
        split_ifs at hnew <;> simp at hnew
      | @alrmTest x hruns hpc =>
        simp only [marksOf, hpc] at hnew
        split_ifs at hnew <;> simp at hnew
      | _ => simp [marksOf] at hnew

end Simulation

/-! ## One `wait` a signal, or all -/

/-- **Whenever no SIGCHLD is pending and the handler does not run, a parent with the router's handler has no
zombie if and only if every exit that came while a SIGCHLD was pending was made good by the SIGCHLD of a
shell**, and so it is in the router itself; without a reset, if and only if no child exited while a SIGCHLD was
pending.  The loop of `select_tcp_udp_server` never leaves a zombie then. -/
theorem quiet_reaped {p : Family × List Mark} (hp : ((family sigChldHandler).observe marks).Reachable p)
    (hquiet : p.1.Quiet) {q : Router × List Mark} (hq : (router.observe marksOf).Reachable q)
    (hpending : q.1.chldPending = false) (hidle : q.1.chld = .idle) {t : Family}
    (ht : (family sigChild).Reachable t) (hquiet' : t.Quiet) :
    ((p.1.zombies = 0 ↔ MadeGood p.2) ∧ (.signal false ∉ p.2 → (p.1.zombies = 0 ↔ .exit true ∉ p.2))) ∧
      (((∀ c ∈ q.1.children, c.live = true) ↔ MadeGood q.2) ∧
        (.reset ∉ q.1.log → ((∀ c ∈ q.1.children, c.live = true) ↔ .exit true ∉ q.2))) ∧
      t.zombies = 0 := by
  have hsingle : ∀ took, sigChldHandler.again took = false := fun _ => rfl
  have hfamily := no_zombie_iff_of_single hsingle hp hquiet
  have hrouter : (∀ c ∈ q.1.children, c.live = true) ↔ MadeGood q.2 := by
    have hreach := reachable_familyOf hq
    rw [← no_zombie_iff_of_single hsingle hreach ⟨hpending, by simp [familyOf, hidle]⟩]
    simp [familyOf, List.countP_eq_zero]
  refine ⟨⟨hfamily, fun hnone => ?_⟩, ⟨hrouter, fun hnone => ?_⟩, no_zombie_of_drains rfl ht hquiet'⟩
  · rw [hfamily, madeGood_iff hsingle hp hnone]
  · rw [hrouter, madeGood_iff hsingle (reachable_familyOf hq) fun h => hnone (reset_of_signal hq h)]

/-- In the router: a reset kills the only child, which is waited for; the SIGCHLD of its shell finds nobody. -/
def resetsOnce : List Ev :=
  connect 4 100 ++ toTheTest ++ [.alrmTest, .chld, .wait, .alrmSystem true, .chld, .wait]

/-- A child exits, and is waited for; so in the router, where a reset killed it. -/
theorem quiet_reaped_one :
    (∃ p, ((family sigChldHandler).observe marks).Reachable p ∧ p.2 = [.exit false] ∧ p.1.zombies = 0) ∧
      ∃ q, (router.observe marksOf).Reachable q ∧ q.2 = [.exit false, .signal false, .vain] ∧
        ∀ c ∈ q.1.children, c.live = true := by
  obtain ⟨p, hp, hend⟩ := ((family sigChldHandler).observe marks).exists_reachable_of_run
    [.fork, .exit, .deliver, .wait] (fun p => p.1.Quiet ∧ p.2 = [.exit false]) (by decide)
  obtain ⟨q, hq, hend'⟩ := (router.observe marksOf).exists_reachable_of_run resetsOnce
    (fun q => q.1.chldPending = false ∧ q.1.chld = .idle ∧ q.2 = [.exit false, .signal false, .vain])
    (by decide +kernel)
  rw [decide_eq_true_iff] at hend hend'
  obtain ⟨hfamily, hrouter, -⟩ := quiet_reaped hp hend.1 hq hend'.1 hend'.2.1 .init (by decide)
  refine ⟨⟨p, hp, hend.2, hfamily.1.mpr ?_⟩, q, hq, hend'.2.2, hrouter.1.mpr ?_⟩
  · rw [hend.2]
    decide
  · rw [hend'.2.2]
    decide

/-- Two children of the router exit before SIGCHLD is delivered: one of them stays a zombie. -/
theorem zombie_stays : ∃ s, router.Reachable s ∧ s.chldPending = false ∧ s.chld = .idle ∧
    ∃ c ∈ s.children, c.live = false := by
  obtain ⟨s, hs, hend⟩ := router.exists_reachable_of_run
    (connect 4 100 ++ connect 4 101 ++ [.eof 100, .eof 101, .chld, .wait])
    (fun s => s.chldPending = false ∧ s.chld = .idle ∧ ∃ c ∈ s.children, c.live = false) (by decide)
  exact ⟨s, hs, of_decide_eq_true hend⟩

end NetProg.Heartbeat
