/-
# NetProg.Epoll.ConnWakeups -- no wake-up is lost at an accepted connection.

`Srv.connSource` looks at the server as at one source of input: what is queued at a descriptor, its edge,
and whether the server has it in hand, which is while an event on it waits in the batch or is handled, and
between `accept` and EPOLL_CTL_ADD.  Every step moves that source by the discipline of `Source.Move`: the
read loop is left only on EAGAIN, when nothing is unread, or towards `close`.

So in every run, each open connection with unread input has its edge set when `epoll_wait` is called, and
`epoll_wait` may return it at once.
-/
import NetProg.Base.EdgeTriggered
import NetProg.Epoll.Batch

namespace NetProg.EpollServer

/-- The descriptor is in the server's hand. -/
def Pc.holds (pc : Pc) (fd : Fd) : Bool := pc.fresh == some fd || (pc.events.map Event.fd).contains fd

namespace Pc

variable {pc : Pc} {e : Event} {rest : List Event} {fd : Fd}

theorem holds_of_fresh (h : pc.fresh = some fd) : pc.holds fd = true := by
  simp [holds, h]

theorem holds_of_events (h : pc.events = e :: rest) : pc.holds e.fd = true := by
  simp [holds, h]

/-- To go on changes only whether the event in hand is held. -/
theorem holds_next (hevents : pc.events = e :: rest) (hfresh : pc.fresh = none) (hne : fd ≠ e.fd) :
    (next rest).holds fd = pc.holds fd := by
  simp [holds, hevents, hfresh, hne]

/-- A batch that was just returned is in hand. -/
theorem holds_batch (es : List Event) (fd : Fd) :
    (next es).holds fd = (es.map Event.fd).contains fd := by
  simp [holds]

@[simp] theorem holds_wait (fd : Fd) : wait.holds fd = false := rfl

end Pc

namespace Srv

/-- The connection at `fd`, as a source of input. -/
def connSource (s : Srv) (fd : Fd) : Source where
  unread := (s.conns fd).any fun c => c.sock.unread
  edge := (s.conns fd).any Conn.edge
  held := s.pc.holds fd

variable {sfd fd : Fd} {s s' : Srv}

theorem connSource_congr (hconn : s'.conns fd = s.conns fd) (hheld : s'.pc.holds fd = s.pc.holds fd) :
    s'.connSource fd = s.connSource fd := by
  simp only [connSource, hconn, hheld]

/-- The source stays as it is. -/
theorem move_same (hconn : s'.conns fd = s.conns fd) (hheld : s'.pc.holds fd = s.pc.holds fd) :
    (s.connSource fd).Move (s'.connSource fd) :=
  .of_eq (connSource_congr hconn hheld)

/-- The server goes on to the next event when the one in hand is drained. -/
theorem move_next {e : Event} {rest : List Event} (hevents : s.pc.events = e :: rest)
    (hfresh : s.pc.fresh = none)
    (hdrained : (s.conns e.fd).any (fun c => c.sock.unread) = false) :
    (s.connSource fd).Move ((s.goto (.next rest)).connSource fd) := by
  by_cases hfd : fd = e.fd
  · subst hfd
    refine .leave (Pc.holds_of_events hevents) ?_ rfl rfl
    intro hunread
    exact absurd hunread (by simp [connSource, hdrained])
  · exact move_same rfl (Pc.holds_next hevents hfresh hfd)

/-- The kernel flags a connection that epoll watches; another one is in the server's hand. -/
theorem move_setConn (h : Sound sfd s) {fd' : Fd} {c c' : Conn} (hc : s.conns fd' = some c)
    (hedge : c'.edge = c.hangup.edge) :
    (s.connSource fd).Move ((s.setConn fd' (some c')).connSource fd) := by
  by_cases hfd : fd = fd'
  · subst hfd
    cases hadded : c.added with
    | true =>
      refine .flag ?_ rfl
      show ((s.setConn fd (some c')).conns fd).any Conn.edge = true
      simp [hedge, Conn.hangup, hadded]
    | false =>
      have hheld : s.pc.holds fd = true := Pc.holds_of_fresh (h.unadded fd c hc hadded)
      refine .take hheld ?_ hheld
      show ((s.setConn fd (some c')).conns fd).any Conn.edge = (s.conns fd).any Conn.edge
      simp [hc, hedge, Conn.hangup, hadded]
  · exact move_same (setConn_of_ne s _ hfd) rfl

/-- `epoll_wait` reports what is flagged. -/
theorem move_report (h : Sound sfd s) (hpc : s.pc = .wait) {rs : List (Fd × Mask)}
    (hmay : s.MayReport sfd rs) : (s.connSource fd).Move ((s.report sfd rs).connSource fd) := by
  have hheld : (s.report sfd rs).pc.holds fd = (rs.map Prod.fst).contains fd := by
    simp only [report, Pc.holds_batch, List.map_map]
    rfl
  by_cases hfd : fd ∈ rs.map Prod.fst
  · have hin : (s.report sfd rs).pc.holds fd = true := by
      rw [hheld]
      exact List.contains_iff_mem.mpr hfd
    have hconn : (s.report sfd rs).conns fd = (s.conns fd).map Conn.reported := if_pos hfd
    obtain ⟨r, hr, rfl⟩ := List.mem_map.mp hfd
    have hflag := hmay.2.2 r hr
    cases hc : s.conns r.1 with
    | none => exact .appear (by simp [connSource, hc]) hin
    | some c =>
      have hsfd : r.1 ≠ sfd := by
        intro hsfd
        rw [hsfd, h.sfd_free] at hc
        cases hc
      have hset : c.added = true ∧ c.edge = true := by simpa [flagged, hsfd, hc] using hflag
      refine .report ?_ ?_ hin
      · show (s.conns r.1).any Conn.edge = true
        simpa [hc] using hset.2
      · show ((s.report sfd rs).conns r.1).any (fun c => c.sock.unread) =
          (s.conns r.1).any fun c => c.sock.unread
        simp [hconn, hc]
  · refine move_same (if_neg hfd) ?_
    rw [hheld, hpc, Pc.holds_wait]
    simpa using hfd

/-- EPOLL_CTL_ADD sets the edge if input is queued. -/
theorem move_watch {e : Event} {infd : Fd} {rest : List Event} (hpc : s.pc = .add e infd rest) :
    (s.connSource fd).Move (((s.watch infd).goto (.accept e rest)).connSource fd) := by
  by_cases hfd : fd = infd
  · subst hfd
    refine .watch (Pc.holds_of_fresh (by rw [hpc]; rfl)) ?_ ?_
    · cases hc : s.conns fd <;> simp [connSource, watch, hc]
    · cases hc : s.conns fd <;> simp [connSource, watch, hc]
  · refine move_same (setConn_of_ne s _ hfd) ?_
    have hne : ¬ infd = fd := fun h => hfd h.symm
    simp [hpc, Pc.holds, Pc.fresh, Pc.events, hne]

/-- `close` takes the connection away, and no other one. -/
theorem move_close (h : Sound sfd s) {e : Event} {rest : List Event} (hpc : s.pc = .close e rest) :
    (s.connSource fd).Move (((s.closeFd sfd e.fd).goto (.next rest)).connSource fd) := by
  have hevents : s.pc.events = e :: rest := by rw [hpc]; rfl
  by_cases hfd : fd = e.fd
  · subst hfd
    refine .gone (Pc.holds_of_events hevents) ?_
    by_cases hl : s.listening = true ∧ e.fd = sfd
    · rw [closeFd, if_pos hl]
      simp [connSource, hl.2, h.sfd_free]
    · simp [connSource, closeFd, if_neg hl]
  · refine move_same ?_ (Pc.holds_next hevents (by rw [hpc]; rfl) hfd)
    by_cases hl : s.listening = true ∧ e.fd = sfd
    · rw [goto_conns, closeFd, if_pos hl]
    · rw [goto_conns, closeFd, if_neg hl, setConn_of_ne s _ hfd]

/-- **Every step keeps the discipline at every connection.** -/
theorem Step.conn_move (h : Sound sfd s) {ev : Ev} (hstep : s.Step sfd ev s') (fd : Fd) :
    (s.connSource fd).Move (s'.connSource fd) := by
  cases hstep with
  | connect hopen => exact .refl _
  | abandon hi => exact .refl _
  | queued hk hmay => exact .refl _
  | input hc hmay => exact move_setConn h hc (by simp)
  | hangup hc => exact move_setConn h hc rfl
  | register halive hpc => exact move_same rfl (by rw [hpc]; rfl)
  | abort halive hpc => exact .refl _
  | report halive hpc hmay => exact move_report h hpc hmay
  | @dispatch e rest halive hpc =>
    unfold Srv.dispatch
    split_ifs
    all_goals exact move_same rfl (by rw [hpc]; rfl)
  | @accepted e rest fd' k queue halive hpc hqueue hfree =>
    by_cases hfd : fd = fd'
    · subst hfd
      refine .appear ?_ (Pc.holds_of_fresh rfl)
      simp [connSource, hfree.2]
    · refine move_same (setConn_of_ne _ _ hfd) ?_
      have hne : ¬ fd' = fd := fun h => hfd h.symm
      simp [hpc, Srv.accepted, Pc.holds, Pc.fresh, Pc.events, hne]
  | @acceptFailed e rest n halive hpc hn =>
    -- no connection has the number of the listening socket
    have hsfd : e.fd = sfd := h.accept_fd hpc
    have hnext : (s.connSource fd).Move ((s.goto (.next rest)).connSource fd) := by
      refine move_next (e := e) (by rw [hpc]; rfl) (by rw [hpc]; rfl) ?_
      simp [hsfd, h.sfd_free]
    unfold Srv.acceptFailed
    split_ifs
    · exact hnext
    · exact hnext
  | nonBlocking halive hpc => exact move_same rfl (by rw [hpc]; rfl)
  | watch halive hpc => exact move_watch hpc
  | @readCount e rest c n halive hpc hc hn =>
    unfold Srv.readCount
    split_ifs
    · exact move_same rfl (by rw [hpc]; rfl)
    · by_cases hfd : fd = e.fd
      · subst hfd
        have hbefore : s.pc.holds e.fd = true := Pc.holds_of_events (by rw [hpc]; rfl)
        have hafter : (Pc.write e c.sock.id (c.sock.input.take n) rest).holds e.fd = true :=
          Pc.holds_of_events rfl
        refine .take hbefore ?_ hafter
        show ((s.setConn e.fd (some (c.drop n))).conns e.fd).any Conn.edge =
          (s.conns e.fd).any Conn.edge
        simp [hc]
      · exact move_same (setConn_of_ne s _ hfd) (by rw [hpc]; rfl)
  | @readFailed e rest n halive hpc hn =>
    unfold Srv.readFailed
    split_ifs with hagain
    · -- EAGAIN: nothing is unread
      refine move_next (e := e) (by rw [hpc]; rfl) (by rw [hpc]; rfl) ?_
      have hdry := hn hagain
      cases hc : s.conns e.fd with
      | none => rfl
      | some c => simpa [hc] using hdry
    · exact move_same rfl (by rw [hpc]; rfl)
  | write halive hpc hn => exact move_same rfl (by rw [hpc]; rfl)
  | writeFailed halive hpc => exact .refl _
  | close halive hpc => exact move_close h hpc

end Srv

/-! ## Runs -/

section Runs

variable {sfd : Fd} {s : Srv}

/-- **No run loses a wake-up at a connection.** -/
theorem conn_awake (h : (server sfd).Reachable s) (fd : Fd) : (s.connSource fd).Awake := by
  refine System.awake (server sfd) (fun s => s.connSource fd) ?_ ?_ h
  · rintro ⟨⟩
  · intro s e s' hreach hstep
    exact (Srv.step_cases hstep).conn_move (Sound.reachable hreach) fd

/-- At `epoll_wait` every connection is registered. -/
theorem conn_added (h : (server sfd).Reachable s) (hpc : s.pc = .wait) {fd : Fd} {c : Conn}
    (hc : s.conns fd = some c) : c.added = true := by
  by_contra hadded
  have hfresh := (Sound.reachable h).unadded fd c hc (by simpa using hadded)
  rw [hpc] at hfresh
  cases hfresh

/-- What is flagged may be the only descriptor that `epoll_wait` returns. -/
theorem report_one (halive : s.aborted = false) (hpc : s.pc = .wait) {fd : Fd}
    (hflag : s.flagged sfd fd = true) (m : Mask) :
    ∃ s', (server sfd).step s (.runs (.ready [(fd, m)])) = some s' ∧
      s'.pc = .event ⟨fd, m, s.owner sfd fd⟩ [] := by
  have hmay : s.MayReport sfd [(fd, m)] := by
    refine ⟨List.nodup_singleton fd, by simp [maxEvents], ?_⟩
    simpa using hflag
  refine ⟨s.report sfd [(fd, m)], ?_, rfl⟩
  simp [server, Srv.step, Srv.runs, halive, hpc, hmay]

/-- **At every call of `epoll_wait`, each open connection with unread input or an unread end of file has
its edge set**, so that `epoll_wait` may return it at once, whatever the event bits. -/
theorem conn_flaggedAtWait (h : (server sfd).Reachable s) (hpc : s.pc = .wait) {fd : Fd} {c : Conn}
    (hc : s.conns fd = some c) (hunread : c.sock.input ≠ [] ∨ c.sock.eof = true) :
    c.added = true ∧ c.edge = true ∧
      ∀ m, ∃ s', (server sfd).step s (.runs (.ready [(fd, m)])) = some s' ∧
        s'.pc = .event ⟨fd, m, some (.conn c.sock.id)⟩ [] := by
  have hadded : c.added = true := conn_added h hpc hc
  have hedge : c.edge = true := by
    have hbytes : c.sock.unread = true := by simpa [Sock.unread] using hunread
    have hset := (conn_awake h fd).edge (by simp [Srv.connSource, hc, hbytes])
      (by simp [Srv.connSource, hpc])
    simpa [Srv.connSource, hc] using hset
  refine ⟨hadded, hedge, ?_⟩
  intro m
  have hsfd : fd ≠ sfd := by
    rintro rfl
    rw [(Sound.reachable h).sfd_free] at hc
    cases hc
  have hflag : s.flagged sfd fd = true := by simp [Srv.flagged, hsfd, hc, hadded, hedge]
  have howner : s.owner sfd fd = some (.conn c.sock.id) := by simp [Srv.owner, hsfd, hc]
  rw [← howner]
  exact report_one (alive_atWait h hpc) hpc hflag m

/-- A byte arrives between `accept` and EPOLL_CTL_ADD; the connection is flagged when the server waits. -/
theorem conn_flaggedAtWait_early : ∃ s c, (server 3).Reachable s ∧ s.pc = .wait ∧
    s.conns 5 = some c ∧ c.sock.input = [104] ∧ c.added = true ∧ c.edge = true := by
  obtain ⟨s, hreach, hs⟩ := (server 3).exists_reachable_of_run
    [.runs .ok, .arrives .connect, .runs (.ready [(3, ⟨false, false, true⟩)]), .runs .ok,
      .runs (.accepted 5), .arrives (.input 5 (.data [104])), .runs .ok, .runs .ok,
      .runs (.errno .again)]
    (fun s => s.pc == .wait && s.conns 5 == some ⟨⟨0, [104], false⟩, true, true⟩) (by decide +kernel)
  simp only [Bool.and_eq_true, beq_iff_eq] at hs
  obtain ⟨hpc, hc⟩ := hs
  obtain ⟨hadded, hedge, -⟩ := conn_flaggedAtWait hreach hpc hc (.inl (List.cons_ne_nil 104 []))
  exact ⟨s, _, hreach, hpc, hc, rfl, hadded, hedge⟩

end Runs

end NetProg.EpollServer
