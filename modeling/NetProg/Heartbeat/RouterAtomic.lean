/-
# NetProg.Heartbeat.RouterAtomic -- a handler in one piece is its single steps in a row.

`sigAlrm`, `sigUrg` and `sigChld` are written after the source's `sig_handler`, and `accept` after its main
loop; here they are shown to be what the single steps of `router` lead to when nothing comes in between, so that
every run of `atomicRouter` is a run of `router`.
-/
import NetProg.Heartbeat.Router

namespace NetProg.Heartbeat

namespace Router

/-- A second change of a child can make the first one unseen. -/
theorem mapChild_absorb (s : Router) (pid : ℤ) {f g : Child → Child}
    (hf : ∀ c, (f c).pid = c.pid ∧ (f c).live = c.live) (hg : ∀ c, g (f c) = g c) :
    (s.mapChild pid f).mapChild pid g = s.mapChild pid g := by
  have hmap : (s.children.map fun c => if c.pid = pid && c.live then f c else c).map
        (fun c => if c.pid = pid && c.live then g c else c) =
      s.children.map fun c => if c.pid = pid && c.live then g c else c := by
    rw [List.map_map]
    apply List.map_congr_left
    intro c _
    by_cases hc : (c.pid = pid && c.live) = true
    · simp only [Function.comp_apply, hc, if_true, (hf c).1, (hf c).2, hg]
    · simp only [Function.comp_apply, hc, Bool.false_eq_true, if_false]
  simp only [mapChild, hmap]

/-- The handler of a child moves on. -/
theorem urgAt_mapChild {s : Router} {pid : ℤ} {pc pc' : UrgPc} (hat : s.urgAt pid pc)
    {f : Child → Child} (hf : ∀ c, (f c).pid = c.pid ∧ (f c).live = c.live ∧ (f c).urg = pc') :
    (s.mapChild pid f).urgAt pid pc' := by
  rcases hat with ⟨c, hmem, hpid, hlive, -⟩
  refine ⟨f c, ?_, (hf c).1.trans hpid, (hf c).2.1.trans hlive, (hf c).2.2⟩
  exact List.mem_map.mpr ⟨c, hmem, by simp [hpid, hlive]⟩

/-- SIGURG: enter, truncate, write. -/
theorem sigUrg_steps (s : Router) {pid : ℤ} (c : Char) (hat : s.urgAt pid .recv) :
    router.runFrom s [.urg pid c, .urgTrunc pid, .urgWrite pid] = some (s.sigUrg pid c) := by
  have hentered : (s.urgEnter pid c).urgAt pid .toTrunc :=
    urgAt_mapChild hat (f := fun ch => { ch with urg := .toTrunc }) fun _ => ⟨rfl, rfl, rfl⟩
  have htruncated : ((s.urgEnter pid c).urgTrunc pid).urgAt pid .toWrite :=
    urgAt_mapChild hentered (f := fun ch => { ch with urg := .toWrite }) fun _ => ⟨rfl, rfl, rfl⟩
  have hlast : ((s.urgEnter pid c).urgTrunc pid).urgWrite pid = s.sigUrg pid c := by
    have habsorb := (s.urgEnter pid c).mapChild_absorb pid (f := fun ch => { ch with urg := .toWrite })
      (g := fun ch => { ch with urg := .recv, globals := { ch.globals with alreadyReset := 0 } })
      (fun _ => ⟨rfl, rfl⟩) (fun _ => rfl)
    have hchildren := congrArg Router.children habsorb
    simp only [urgWrite, urgTrunc, sigUrg, writeExpireCnt, mapChild, logs] at hchildren ⊢
    rw [hchildren]
    rfl
  simp only [System.runFrom, router, Router.step, if_pos hat, if_pos hentered, if_pos htruncated,
    hlast]

/-- The main loop: `accept`, and for a positive descriptor `fork` and the store of the pid. -/
theorem accept_steps (s : Router) (fd : ℤ) {pid : ℤ} (hin : s.InMain) (hmain : s.main = .accept)
    (hfork : s.Forks pid) : ∃ es, router.runFrom s es = some (s.accept fd pid) := by
  have haccept : router.step s (.accept fd) = some (s.acceptReturns fd) :=
    router_step_iff.mpr (.accept hin hmain)
  by_cases hfd : 0 < fd
  · have hat : (s.acceptReturns fd).main = .fork := by simp [acceptReturns, hfd]
    have hforked : router.step (s.acceptReturns fd) (.fork pid) = some ((s.acceptReturns fd).forkReturns pid) :=
      router_step_iff.mpr (.fork hin hat hfork)
    have hstored : router.step ((s.acceptReturns fd).forkReturns pid) .store =
        some (((s.acceptReturns fd).forkReturns pid).storePid pid) := router_step_iff.mpr (.store hin rfl)
    refine ⟨connect fd pid, ?_⟩
    simp only [connect, System.runFrom, haccept, hforked, hstored]
    rw [accept, if_pos hfd, hmain]
    rfl
  · refine ⟨[.accept fd], ?_⟩
    simp only [System.runFrom, haccept]
    rw [accept, if_neg hfd, acceptReturns, if_neg hfd, ← hmain]

/-- SIGCHLD: enter and wait. -/
theorem sigChld_steps (s : Router) (hin : s.InMain) (hpending : s.chldPending = true) (hreturns : s.WaitReturns) :
    router.runFrom s [.chld, .wait] = some s.sigChld := by
  have henter : router.step s .chld = some s.chldEnter := router_step_iff.mpr (.chld hpending hin.2)
  have hruns : s.chldEnter.ChldRuns := .inr ⟨by simp [chldEnter, hin.1], hin.1⟩
  have hwait : router.step s.chldEnter .wait = some s.chldEnter.waitReturns :=
    router_step_iff.mpr (.wait hruns hreturns)
  simp only [System.runFrom, henter, hwait]
  rw [sigChld, hin.2]
  rfl

/-- Dropping the peer does not look at where the handler stands. -/
theorem dropPeer_setAlrm (s : Router) (pc : AlrmPc) :
    ({ s with alrm := pc } : Router).dropPeer = { s.dropPeer with alrm := pc } := by
  unfold dropPeer kill
  by_cases hpid : 0 < s.parent.childPid
  · rw [if_pos (show 0 < (({ s with alrm := pc } : Router).logs _).parent.childPid from hpid),
      if_pos (show 0 < (s.logs _).parent.childPid from hpid)]
    rfl
  · rw [if_neg (show ¬ 0 < (({ s with alrm := pc } : Router).logs _).parent.childPid from hpid),
      if_neg (show ¬ 0 < (s.logs _).parent.childPid from hpid)]
    rfl

/-- After the read: test, perhaps reset, truncate and write 0, then truncate and write the next number. -/
theorem alrmRest_steps (s : Router) (e : ℤ) (hidle : s.chld = .idle) :
    ∃ es, router.runFrom { s with alrm := .toTest e } es = some { s.alrmRest e with alrm := .main } := by
  have hruns : s.AlrmRuns := by simp [AlrmRuns, hidle]
  have htested : router.step { s with alrm := .toTest e } .alrmTest =
      some (({ s with alrm := .toTest e } : Router).alrmTest e) := router_step_iff.mpr (.alrmTest hruns rfl)
  by_cases hexpired : s.expired e = true
  · have htest : ({ s with alrm := .toTest e } : Router).alrmTest e =
        { s.dropPeer with alrm := .toSystem e } := by
      unfold alrmTest
      rw [if_pos (show ({ s with alrm := .toTest e } : Router).expired e = true from hexpired),
        dropPeer_setAlrm]
    have hrest : s.alrmRest e = s.resetBlock.countBlock e := by rw [alrmRest, if_pos hexpired]
    have hdropped : s.dropPeer.AlrmRuns := by rwa [AlrmRuns, dropPeer_chld]
    rw [htest] at htested
    rw [hrest]
    refine ⟨[.alrmTest, .alrmSystem true, .alrmTrunc, .alrmWrite, .alrmTrunc, .alrmWrite], ?_⟩
    refine router.runFrom_cons htested ?_
    refine router.runFrom_cons (router_step_iff.mpr (.alrmSystem hdropped rfl)) ?_
    refine router.runFrom_cons (router_step_iff.mpr (.alrmResetTrunc hdropped rfl)) ?_
    refine router.runFrom_cons (router_step_iff.mpr (.alrmResetWrite hdropped rfl)) ?_
    refine router.runFrom_cons (router_step_iff.mpr (.alrmTrunc hdropped rfl)) ?_
    exact router.runFrom_cons (router_step_iff.mpr (.alrmWrite hdropped rfl)) rfl
  · have htest : ({ s with alrm := .toTest e } : Router).alrmTest e = { s with alrm := .toTrunc e } := by
      unfold alrmTest
      rw [if_neg (show ¬ ({ s with alrm := .toTest e } : Router).expired e = true from hexpired)]
    have hrest : s.alrmRest e = s.countBlock e := by rw [alrmRest, if_neg hexpired]
    rw [htest] at htested
    rw [hrest]
    refine ⟨[.alrmTest, .alrmTrunc, .alrmWrite], ?_⟩
    refine router.runFrom_cons htested ?_
    refine router.runFrom_cons (router_step_iff.mpr (.alrmTrunc hruns rfl)) ?_
    exact router.runFrom_cons (router_step_iff.mpr (.alrmWrite hruns rfl)) rfl

/-- SIGALRM: enter and read, then the rest. -/
theorem sigAlrm_steps (s : Router) (stack : List Char) (hin : s.InMain) :
    ∃ es, router.runFrom s es = some { s.sigAlrm stack with alrm := .main } := by
  obtain ⟨es, hes⟩ := (s.logs [.alrmRead]).alrmRest_steps (readExpireCnt stack s.file) hin.2
  refine ⟨.alrm :: .alrmRead stack :: es, ?_⟩
  have henter : router.step s .alrm = some s.alrmEnter := router_step_iff.mpr (.alrm hin.1)
  have hruns : s.alrmEnter.AlrmRuns := by simp [AlrmRuns, alrmEnter, hin.2]
  have hread : router.step s.alrmEnter (.alrmRead stack) = some (s.alrmEnter.alrmRead stack) :=
    router_step_iff.mpr (.alrmRead hruns rfl)
  simp only [System.runFrom, henter, hread]
  exact hes

@[simp] theorem sigAlrm_alrm (s : Router) (stack : List Char) : (s.sigAlrm stack).alrm = s.alrm := by
  unfold sigAlrm alrmRest
  split_ifs
  · exact resetPeer_alrm (s.logs [.alrmRead])
  · rfl

@[simp] theorem sigAlrm_main (s : Router) (stack : List Char) : (s.sigAlrm stack).main = s.main := by
  unfold sigAlrm alrmRest
  split_ifs
  · exact dropPeer_main (s.logs [.alrmRead])
  · rfl

@[simp] theorem sigAlrm_chld (s : Router) (stack : List Char) : (s.sigAlrm stack).chld = s.chld := by
  unfold sigAlrm alrmRest
  split_ifs
  · exact dropPeer_chld (s.logs [.alrmRead])
  · rfl

end Router

/-- **Every run of whole handlers is a run of single steps**, seen between the handlers. -/
theorem atomic_reachable {s : Router} (hs : atomicRouter.Reachable s) :
    router.Reachable s ∧ s.InMain ∧ s.main = .accept := by
  refine System.invariant atomicRouter (P := fun s => router.Reachable s ∧ s.InMain ∧ s.main = .accept)
    ⟨.init, ⟨rfl, rfl⟩, rfl⟩ ?_ hs
  rintro s e s' - ⟨hreach, hin, hmain⟩ hstep
  cases atomicRouter_step_iff.mp hstep with
  | @accept fd pid hfork =>
    obtain ⟨es, hes⟩ := s.accept_steps fd hin hmain hfork
    refine ⟨router.reachable_of_runFrom hreach es hes, ?_⟩
    unfold Router.accept
    split_ifs <;> exact ⟨hin, hmain⟩
  | @eof pid hat => exact ⟨.step (.eof pid) hreach (router_step_iff.mpr (.eof hat)), hin, hmain⟩
  | @urg pid c hat => exact ⟨router.reachable_of_runFrom hreach _ (s.sigUrg_steps c hat), hin, hmain⟩
  | @alrm stack =>
    obtain ⟨es, hes⟩ := s.sigAlrm_steps stack hin
    have heta : { s.sigAlrm stack with alrm := .main } = s.sigAlrm stack := by
      rw [← hin.1, ← s.sigAlrm_alrm stack]
    rw [heta] at hes
    refine ⟨router.reachable_of_runFrom hreach es hes, ⟨?_, ?_⟩, ?_⟩
    · rw [s.sigAlrm_alrm stack, hin.1]
    · rw [s.sigAlrm_chld stack, hin.2]
    · rw [s.sigAlrm_main stack, hmain]
  | chld hpending hreturns =>
    exact ⟨router.reachable_of_runFrom hreach _ (s.sigChld_steps hin hpending hreturns), hin, hmain⟩

end NetProg.Heartbeat
