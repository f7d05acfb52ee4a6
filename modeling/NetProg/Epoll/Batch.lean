/-
# NetProg.Epoll.Batch -- what the events in hand stand for while a batch is handled.

Descriptors are closed and issued again in the middle of a batch, while the events that are left carry
bare numbers.  `Sound` is why that does no harm: the numbers of a batch are distinct and open, so `accept`
cannot return one of them, and only the event in hand closes its own.  With it go the facts that the other
results need: no connection has the number of the listening socket, the loops of `accept` and `read` are
entered with the right descriptors, and the only connection that epoll does not watch is the one that was
just accepted.
-/
import NetProg.Epoll.Server

namespace NetProg.EpollServer

/-! ## Reading the program counter -/

namespace Pc

/-- The event in hand and the rest of the batch. -/
def events : Pc → List Event
  | register | wait => []
  | event e rest | accept e rest | nonBlocking e _ rest | add e _ rest | read e rest
  | write e _ _ rest | close e rest => e :: rest

/-- The descriptor that was accepted and not yet registered. -/
def fresh : Pc → Option Fd
  | nonBlocking _ infd _ | add _ infd _ => some infd
  | _ => none

/-- The branch that was taken is the right one for the descriptor. -/
def Branch (sfd : Fd) : Pc → Prop
  | accept e _ | nonBlocking e _ _ | add e _ _ => e.fd = sfd
  | read e _ | write e _ _ _ => e.fd ≠ sfd
  | register | wait | event _ _ | close _ _ => True

@[simp] theorem events_next (es : List Event) : (next es).events = es := by cases es <;> rfl

@[simp] theorem fresh_next (es : List Event) : (next es).fresh = none := by cases es <;> rfl

theorem branch_next (sfd : Fd) (es : List Event) : (next es).Branch sfd := by
  cases es <;> trivial

end Pc

namespace Srv

@[simp] theorem goto_pc (s : Srv) (pc : Pc) : (s.goto pc).pc = pc := rfl
@[simp] theorem goto_conns (s : Srv) (pc : Pc) : (s.goto pc).conns = s.conns := rfl
@[simp] theorem logs_pc (s : Srv) (es : List LogEv) : (s.logs es).pc = s.pc := rfl
@[simp] theorem logs_conns (s : Srv) (es : List LogEv) : (s.logs es).conns = s.conns := rfl
@[simp] theorem setConn_pc (s : Srv) (fd : Fd) (c : Option Conn) : (s.setConn fd c).pc = s.pc := rfl
@[simp] theorem setConn_self (s : Srv) (fd : Fd) (c : Option Conn) :
    (s.setConn fd c).conns fd = c := by
  simp [setConn]

theorem setConn_of_ne (s : Srv) {fd fd' : Fd} (c : Option Conn) (hne : fd' ≠ fd) :
    (s.setConn fd c).conns fd' = s.conns fd' := by
  simp [setConn, Function.update_of_ne hne]

/-- `owner` reads only whether the listening socket is open, and the entry of the descriptor. -/
theorem owner_congr {sfd fd : Fd} {s s' : Srv} (hopen : s'.listening = s.listening)
    (hconn : s'.conns fd = s.conns fd) : s'.owner sfd fd = s.owner sfd fd := by
  simp only [owner, hopen, hconn]

/-- A connection that stays itself keeps its descriptor. -/
theorem owner_setConn {sfd fd : Fd} {s : Srv} {c c' : Conn} (hc : s.conns fd = some c)
    (hid : c'.sock.id = c.sock.id) (fd' : Fd) :
    (s.setConn fd (some c')).owner sfd fd' = s.owner sfd fd' := by
  by_cases hfd : fd' = fd
  · subst hfd
    simp [owner, setConn, hc, hid]
  · exact owner_congr rfl (setConn_of_ne s _ hfd)

/-- What `epoll_wait` reports stays what it is. -/
theorem owner_report (sfd : Fd) (s : Srv) (rs : List (Fd × Mask)) (fd : Fd) :
    (s.report sfd rs).owner sfd fd = s.owner sfd fd := by
  by_cases hfd : fd ∈ rs.map Prod.fst
  · simp only [owner, report, if_pos hfd, Option.map_map]
    rfl
  · simp only [owner, report, if_neg hfd]

/-- What is flagged is open. -/
theorem owner_of_flagged {sfd fd : Fd} {s : Srv} (h : s.flagged sfd fd = true) :
    s.owner sfd fd ≠ none := by
  intro hnone
  by_cases hl : s.listening = true ∧ fd = sfd
  · simp [owner, hl] at hnone
  · cases hconn : s.conns fd <;> simp [owner, flagged, hl, hconn] at hnone h

end Srv

/-! ## The invariant -/

/-- What holds at every point of a batch. -/
structure Sound (sfd : Fd) (s : Srv) : Prop where
  sfd_free : s.conns sfd = none
  nodup : (s.pc.events.map Event.fd).Nodup
  owned : ∀ e ∈ s.pc.events, s.owner sfd e.fd = e.src ∧ e.src ≠ none
  branch : s.pc.Branch sfd
  unadded : ∀ fd c, s.conns fd = some c → c.added = false → s.pc.fresh = some fd

variable {sfd : Fd} {s s' : Srv}

namespace Sound

theorem start (sfd : Fd) : Sound sfd Srv.start where
  sfd_free := rfl
  nodup := List.nodup_nil
  owned := by simp [Srv.start, Pc.events]
  branch := trivial
  unadded := by simp [Srv.start]

/-- The invariant looks at the descriptors and the program counter only. -/
theorem congr (h : Sound sfd s) (hopen : s'.listening = s.listening) (hconns : s'.conns = s.conns)
    (hpc : s'.pc = s.pc) : Sound sfd s' where
  sfd_free := by rw [hconns]; exact h.sfd_free
  nodup := by rw [hpc]; exact h.nodup
  owned := by
    intro e he
    rw [hpc] at he
    rw [Srv.owner_congr hopen (by rw [hconns])]
    exact h.owned e he
  branch := by rw [hpc]; exact h.branch
  unadded := by rw [hconns, hpc]; exact h.unadded

theorem logs (h : Sound sfd s) (es : List LogEv) : Sound sfd (s.logs es) := h.congr rfl rfl rfl

/-- To go on with some of the events in hand. -/
theorem goto (h : Sound sfd s) {pc : Pc} (hevents : pc.events.Sublist s.pc.events)
    (hbranch : pc.Branch sfd) (hfresh : ∀ fd, s.pc.fresh = some fd → pc.fresh = some fd) :
    Sound sfd (s.goto pc) where
  sfd_free := h.sfd_free
  nodup := (hevents.map Event.fd).nodup h.nodup
  owned := fun e he => h.owned e (hevents.subset he)
  branch := hbranch
  unadded := fun fd c hc hadded => hfresh fd (h.unadded fd c hc hadded)

/-- To go on with the next event. -/
theorem next (h : Sound sfd s) {e : Event} {rest : List Event} (hevents : s.pc.events = e :: rest)
    (hfresh : s.pc.fresh = none) : Sound sfd (s.goto (.next rest)) := by
  refine h.goto ?_ (Pc.branch_next sfd rest) ?_
  · rw [hevents, Pc.events_next]
    exact List.sublist_cons_self e rest
  · rw [hfresh]
    rintro fd ⟨⟩

/-- A connection stays itself and stays registered. -/
theorem setConn (h : Sound sfd s) {fd : Fd} {c c' : Conn} (hc : s.conns fd = some c)
    (hid : c'.sock.id = c.sock.id) (hadded : c'.added = c.added) :
    Sound sfd (s.setConn fd (some c')) where
  sfd_free := by
    have hne : sfd ≠ fd := by
      rintro rfl
      rw [h.sfd_free] at hc
      cases hc
    rw [Srv.setConn_of_ne s _ hne]
    exact h.sfd_free
  nodup := h.nodup
  owned := by
    intro e he
    rw [Srv.owner_setConn hc hid]
    exact h.owned e he
  branch := h.branch
  unadded := by
    intro fd' c'' hc'' hadded''
    by_cases hfd : fd' = fd
    · subst hfd
      rw [Srv.setConn_self] at hc''
      cases hc''
      exact h.unadded fd' c hc (hadded ▸ hadded'')
    · rw [Srv.setConn_of_ne s _ hfd] at hc''
      exact h.unadded fd' c'' hc'' hadded''

/-- The listening socket is open while an event on it is in hand. -/
theorem listening (h : Sound sfd s) {e : Event} (he : e ∈ s.pc.events) (hfd : e.fd = sfd) :
    s.listening = true := by
  obtain ⟨howner, hsrc⟩ := h.owned e he
  by_contra hclosed
  refine hsrc (howner.symm.trans ?_)
  rw [hfd]
  simp [Srv.owner, hclosed, h.sfd_free]

/-- The accept loop runs on the listening socket. -/
theorem accept_fd (h : Sound sfd s) {e : Event} {rest : List Event} (hpc : s.pc = .accept e rest) :
    e.fd = sfd := by
  have hbranch := h.branch
  rwa [hpc] at hbranch

/-- The read loop does not. -/
theorem read_fd (h : Sound sfd s) {e : Event} {rest : List Event} (hpc : s.pc = .read e rest) :
    e.fd ≠ sfd := by
  have hbranch := h.branch
  rwa [hpc] at hbranch

/-! ## The calls -/

/-- A batch of distinct open descriptors is sound. -/
theorem report (h : Sound sfd s) (hpc : s.pc = .wait) {rs : List (Fd × Mask)}
    (hdistinct : (rs.map Prod.fst).Nodup) (hopen : ∀ r ∈ rs, s.owner sfd r.1 ≠ none) :
    Sound sfd (s.report sfd rs) where
  sfd_free := by simp [Srv.report, h.sfd_free]
  nodup := by
    have hfds : (rs.map fun r => (⟨r.1, r.2, s.owner sfd r.1⟩ : Event)).map Event.fd
        = rs.map Prod.fst := by
      rw [List.map_map]
      rfl
    simpa only [Srv.report, Pc.events_next, hfds] using hdistinct
  owned := by
    intro e he
    rw [Srv.owner_report]
    simp only [Srv.report, Pc.events_next, List.mem_map] at he
    obtain ⟨r, hr, rfl⟩ := he
    exact ⟨rfl, hopen r hr⟩
  branch := Pc.branch_next sfd _
  unadded := by
    intro fd c hc hadded
    have hfresh : s.pc.fresh = some fd := by
      by_cases hfd : fd ∈ rs.map Prod.fst
      · simp only [Srv.report, if_pos hfd, Option.map_eq_some_iff] at hc
        obtain ⟨c₀, hc₀, rfl⟩ := hc
        exact h.unadded fd c₀ hc₀ hadded
      · simp only [Srv.report, if_neg hfd] at hc
        exact h.unadded fd c hc hadded
    rw [hpc] at hfresh
    cases hfresh

/-- `accept` returns a number that no event in hand carries. -/
theorem accepted (h : Sound sfd s) {e : Event} {rest : List Event} {k : Sock} {fd : Fd}
    {backlog : List Sock} (hpc : s.pc = .accept e rest) (hfree : s.Free sfd fd) :
    Sound sfd (s.accepted e fd k backlog rest) := by
  have hevents : s.pc.events = e :: rest := by rw [hpc]; rfl
  have hsfd : e.fd = sfd := h.accept_fd hpc
  have hlistening : s.listening = true := h.listening (by simp [hevents]) hsfd
  have hne : fd ≠ sfd := fun hfd => hfree.1 ⟨hlistening, hfd⟩
  exact {
    sfd_free := by
      show (s.setConn fd _).conns sfd = none
      rw [Srv.setConn_of_ne s _ hne.symm]
      exact h.sfd_free
    nodup := by
      have := h.nodup
      rwa [hevents] at this
    owned := by
      intro e' he'
      obtain ⟨howner, hsrc⟩ := h.owned e' (by rw [hevents]; exact he')
      refine ⟨?_, hsrc⟩
      have hfd : e'.fd ≠ fd := by
        rintro rfl
        refine hsrc (howner.symm.trans ?_)
        rw [Srv.owner, if_neg hfree.1, hfree.2]
        rfl
      rw [← howner]
      exact Srv.owner_congr rfl (Srv.setConn_of_ne s _ hfd)
    branch := hsfd
    unadded := by
      intro fd' c hc hadded
      by_cases hfd : fd' = fd
      · rw [hfd]
        rfl
      · have hc : (s.setConn fd _).conns fd' = some c := hc
        rw [Srv.setConn_of_ne s _ hfd] at hc
        have hfresh := h.unadded fd' c hc hadded
        rw [hpc] at hfresh
        cases hfresh }

/-- Registering the accepted connection. -/
theorem watch (h : Sound sfd s) {e : Event} {infd : Fd} {rest : List Event}
    (hpc : s.pc = .add e infd rest) : Sound sfd ((s.watch infd).goto (.accept e rest)) where
  sfd_free := by
    by_cases hfd : sfd = infd
    · subst hfd
      simp [Srv.watch, h.sfd_free]
    · rw [Srv.goto_conns, Srv.watch, Srv.setConn_of_ne s _ hfd]
      exact h.sfd_free
  nodup := by simpa [hpc, Pc.events] using h.nodup
  owned := by
    intro e' he'
    have howner : (s.watch infd).owner sfd e'.fd = s.owner sfd e'.fd := by
      cases hc : s.conns infd with
      | none =>
        refine Srv.owner_congr rfl ?_
        by_cases hfd : e'.fd = infd
        · simp [Srv.watch, hfd, hc]
        · exact Srv.setConn_of_ne s _ hfd
      | some c =>
        have hwatch : s.watch infd = s.setConn infd (some c.watch) := by simp [Srv.watch, hc]
        rw [hwatch]
        exact Srv.owner_setConn hc (by simp) _
    obtain ⟨hown, hsrc⟩ := h.owned e' (by simpa [hpc, Pc.events] using he')
    exact ⟨howner.trans hown, hsrc⟩
  branch := by simpa [hpc, Pc.Branch] using h.branch
  unadded := by
    intro fd c hc hadded
    by_cases hfd : fd = infd
    · subst hfd
      simp only [Srv.goto_conns, Srv.watch, Srv.setConn_self, Option.map_eq_some_iff] at hc
      obtain ⟨c₀, -, rfl⟩ := hc
      cases hadded
    · rw [Srv.goto_conns, Srv.watch, Srv.setConn_of_ne s _ hfd] at hc
      have hfresh := h.unadded fd c hc hadded
      rw [hpc] at hfresh
      exact absurd (Option.some.inj hfresh).symm hfd

/-- Closing the descriptor of the event in hand leaves the others alone. -/
theorem close (h : Sound sfd s) {e : Event} {rest : List Event} (hpc : s.pc = .close e rest) :
    Sound sfd ((s.closeFd sfd e.fd).goto (.next rest)) := by
  have hevents : s.pc.events = e :: rest := by rw [hpc]; rfl
  have hnodup := h.nodup
  rw [hevents, List.map_cons, List.nodup_cons] at hnodup
  have hne : ∀ e' ∈ rest, e'.fd ≠ e.fd := by
    intro e' he' hfd
    exact hnodup.1 (hfd ▸ List.mem_map_of_mem he')
  have hadded : ∀ fd c, s.conns fd = some c → c.added = false → False := by
    intro fd c hc hc'
    have hfresh := h.unadded fd c hc hc'
    rw [hpc] at hfresh
    cases hfresh
  have hkept : ∀ e' ∈ rest, (s.closeFd sfd e.fd).owner sfd e'.fd = s.owner sfd e'.fd := by
    intro e' he'
    by_cases hl : s.listening = true ∧ e.fd = sfd
    · have hfd : e'.fd ≠ sfd := hl.2 ▸ hne e' he'
      simp [Srv.closeFd, if_pos hl, Srv.owner, hfd]
    · rw [Srv.closeFd, if_neg hl]
      exact Srv.owner_congr rfl (Srv.setConn_of_ne s _ (hne e' he'))
  have hsub : ∀ fd c, (s.closeFd sfd e.fd).conns fd = some c → s.conns fd = some c := by
    intro fd c hc
    by_cases hl : s.listening = true ∧ e.fd = sfd
    · rwa [Srv.closeFd, if_pos hl] at hc
    · rw [Srv.closeFd, if_neg hl] at hc
      by_cases hfd : fd = e.fd
      · subst hfd
        simp at hc
      · rwa [Srv.setConn_of_ne s _ hfd] at hc
  exact {
    sfd_free := by
      rw [Option.eq_none_iff_forall_not_mem]
      intro c hc
      have := hsub sfd c hc
      rw [h.sfd_free] at this
      cases this
    nodup := by simpa using hnodup.2
    owned := by
      intro e' he'
      rw [Srv.goto_pc, Pc.events_next] at he'
      obtain ⟨howner, hsrc⟩ := h.owned e' (by rw [hevents]; exact List.mem_cons_of_mem e he')
      exact ⟨(hkept e' he').trans howner, hsrc⟩
    branch := Pc.branch_next sfd rest
    unadded := fun fd c hc hc' => (hadded fd c (hsub fd c hc) hc').elim }

/-! ## Every step -/

/-- **One step keeps the invariant.** -/
theorem step (h : Sound sfd s) {ev : Ev} (hstep : s.Step sfd ev s') : Sound sfd s' := by
  cases hstep with
  | connect hopen => exact h.congr rfl rfl rfl
  | abandon hi => exact h.congr rfl rfl rfl
  | queued hk hmay => exact h.congr rfl rfl rfl
  | input hc hmay => exact (h.setConn hc (by simp) (by simp)).logs _
  | hangup hc => exact h.setConn hc (by simp) (by simp)
  | register halive hpc =>
    have hwait : Sound sfd (s.goto .wait) := by
      refine h.goto (List.nil_sublist _) trivial ?_
      simp [hpc, Pc.fresh]
    exact hwait.congr rfl rfl rfl
  | abort halive hpc => exact h.congr rfl rfl rfl
  | report halive hpc hmay =>
    exact h.report hpc hmay.1 fun r hr => Srv.owner_of_flagged (hmay.2.2 r hr)
  | @dispatch e rest halive hpc =>
    have hgoto : ∀ pc : Pc, pc.events = e :: rest → pc.Branch sfd → Sound sfd (s.goto pc) := by
      intro pc hevents hbranch
      refine h.goto ?_ hbranch ?_
      · rw [hevents, hpc]
        exact List.Sublist.refl _
      · simp [hpc, Pc.fresh]
    unfold Srv.dispatch
    split_ifs with herr hfd
    · exact (hgoto (.close e rest) rfl trivial).logs _
    · exact hgoto (.accept e rest) rfl hfd.symm
    · exact hgoto (.read e rest) rfl (Ne.symm hfd)
  | accepted halive hpc hqueue hfree => exact h.accepted hpc hfree
  | @acceptFailed e rest n halive hpc hn =>
    have hnext : Sound sfd (s.goto (.next rest)) := h.next (by rw [hpc]; rfl) (by rw [hpc]; rfl)
    unfold Srv.acceptFailed
    split_ifs with hagain
    · exact hnext
    · exact hnext.logs _
  | nonBlocking halive hpc =>
    refine h.goto ?_ ?_ ?_
    · simp [hpc, Pc.events]
    · simpa [hpc, Pc.Branch] using h.branch
    · simp [hpc, Pc.fresh]
  | watch halive hpc => exact h.watch hpc
  | @readCount e rest c n halive hpc hc hn =>
    have hread : e.fd ≠ sfd := h.read_fd hpc
    unfold Srv.readCount
    split_ifs with hzero
    · refine h.goto ?_ trivial ?_
      · simp [hpc, Pc.events]
      · simp [hpc, Pc.fresh]
    · refine (h.setConn hc (by simp) (by simp)).goto ?_ hread ?_
      · simp [hpc, Pc.events]
      · simp [hpc, Pc.fresh]
  | @readFailed e rest n halive hpc hn =>
    unfold Srv.readFailed
    split_ifs with hagain
    · exact h.next (by rw [hpc]; rfl) (by rw [hpc]; rfl)
    · have hclose : Sound sfd (s.goto (.close e rest)) := by
        refine h.goto ?_ trivial ?_
        · simp [hpc, Pc.events]
        · simp [hpc, Pc.fresh]
      exact hclose.logs _
  | write halive hpc hn =>
    refine (h.goto ?_ ?_ ?_).logs _
    · simp [hpc, Pc.events]
    · simpa [hpc, Pc.Branch] using h.branch
    · simp [hpc, Pc.fresh]
  | writeFailed halive hpc => exact h.congr rfl rfl rfl
  | close halive hpc => exact (h.close hpc).logs _

/-- **Every run keeps the invariant.** -/
theorem reachable (h : (server sfd).Reachable s) : Sound sfd s := by
  refine (server sfd).invariant (P := Sound sfd) (Sound.start sfd) ?_ h
  intro s e s' _ hsound hstep
  exact hsound.step (Srv.step_cases hstep)

end Sound

/-! ## The program after `abort` -/

namespace Srv

@[simp] theorem dispatch_aborted (s : Srv) (e : Event) (rest : List Event) :
    (s.dispatch sfd e rest).aborted = s.aborted := by
  unfold dispatch
  split_ifs <;> rfl

@[simp] theorem acceptFailed_aborted (s : Srv) (n : Errno) (rest : List Event) :
    (s.acceptFailed n rest).aborted = s.aborted := by
  unfold acceptFailed
  split_ifs <;> rfl

@[simp] theorem readCount_aborted (s : Srv) (e : Event) (c : Conn) (n : ℕ) (rest : List Event) :
    (s.readCount e c n rest).aborted = s.aborted := by
  unfold readCount
  split_ifs <;> rfl

@[simp] theorem readFailed_aborted (s : Srv) (e : Event) (n : Errno) (rest : List Event) :
    (s.readFailed sfd e n rest).aborted = s.aborted := by
  unfold readFailed
  split_ifs <;> rfl

@[simp] theorem closeFd_aborted (s : Srv) (fd : Fd) : (s.closeFd sfd fd).aborted = s.aborted := by
  unfold closeFd
  split_ifs <;> rfl

end Srv

/-- A program that was aborted is not in `epoll_wait`. -/
theorem Srv.Step.alive {ev : Ev} (h : s.pc = .wait → s.aborted = false) (hstep : s.Step sfd ev s') :
    s'.pc = .wait → s'.aborted = false := by
  cases hstep with
  | connect hopen => exact h
  | abandon hi => exact h
  | queued hk hmay => exact h
  | input hc hmay => exact h
  | hangup hc => exact h
  | abort halive hpc =>
    intro hwait
    have hwait : s.pc = .wait := hwait
    simp [hwait, Pc.setsUp] at hpc
  | writeFailed halive hpc =>
    intro hwait
    have hwait : s.pc = .wait := hwait
    simp [hwait] at hpc
  | register halive hpc => exact fun _ => halive
  | report halive hpc hmay => exact fun _ => halive
  | dispatch halive hpc => exact fun _ => (dispatch_aborted s _ _).trans halive
  | accepted halive hpc hqueue hfree => exact fun _ => halive
  | acceptFailed halive hpc hn => exact fun _ => (acceptFailed_aborted s _ _).trans halive
  | nonBlocking halive hpc => exact fun _ => halive
  | watch halive hpc => exact fun _ => halive
  | readCount halive hpc hc hn => exact fun _ => (readCount_aborted s _ _ _ _).trans halive
  | readFailed halive hpc hn => exact fun _ => (readFailed_aborted s _ _ _).trans halive
  | write halive hpc hn => exact fun _ => halive
  | close halive hpc => exact fun _ => (closeFd_aborted s _).trans halive

theorem alive_atWait (h : (server sfd).Reachable s) (hpc : s.pc = .wait) : s.aborted = false := by
  refine (server sfd).invariant (P := fun s => s.pc = .wait → s.aborted = false) (fun _ => rfl) ?_ h hpc
  intro s e s' _ halive hstep
  exact Srv.Step.alive halive (Srv.step_cases hstep)

end NetProg.EpollServer
