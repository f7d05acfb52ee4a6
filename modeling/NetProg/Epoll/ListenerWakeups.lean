/-
# NetProg.Epoll.ListenerWakeups -- the wake-ups of the listening socket, and how one is lost.

The listening socket is a source of input too: its input is the backlog.  The accept loop is left on every
error of `accept`, but only EAGAIN means that the backlog is empty.  After EINTR, ECONNABORTED or EMFILE
connections may be queued while the edge is clear, and then the server waits for an edge that only another
client will set.

`AcceptDrains` is the condition on a step that rules this out: an `accept` that fails does so with an empty
backlog, or when the edge has been set again.  In runs that meet it no wake-up is lost.  A step that breaks
it strands the backlog: as long as no client connects and none gives up, every later `epoll_wait` is called
with connections queued and the edge clear.
-/
import NetProg.Epoll.ConnWakeups

namespace NetProg.EpollServer

/-- A client connects, or gives up while it is queued. -/
def Ev.atBacklog : Ev → Bool
  | .arrives .connect | .arrives (.abandon _) => true
  | _ => false

namespace Srv

/-- The listening socket, as a source of input; it is in hand before it is registered. -/
def listenerSource (sfd : Fd) (s : Srv) : Source where
  unread := !s.backlog.isEmpty
  edge := s.edge
  held := !s.pc.registered || (s.pc.events.map Event.fd).contains sfd

/-- An `accept` that fails leaves nothing behind that will not be reported. -/
def AcceptDrains (s : Srv) (ev : Ev) : Prop :=
  match s.pc, ev with
  | .accept _ _, .runs (.errno _) => s.backlog = [] ∨ s.edge = true
  | _, _ => True

instance (s : Srv) (ev : Ev) : Decidable (s.AcceptDrains ev) := by
  unfold AcceptDrains
  split <;> infer_instance

variable {sfd : Fd} {s s' : Srv}

theorem listenerSource_held {e : Event} {rest : List Event} (hevents : s.pc.events = e :: rest)
    (hfd : e.fd = sfd) : (s.listenerSource sfd).held = true := by
  simp [listenerSource, hevents, hfd]

/-- The source stays as it is. -/
theorem listener_same (hbacklog : s'.backlog = s.backlog) (hedge : s'.edge = s.edge)
    (hevents : s'.pc.events = s.pc.events) (hreg : s'.pc.registered = s.pc.registered) :
    (s.listenerSource sfd).Move (s'.listenerSource sfd) := by
  apply Source.Move.of_eq
  simp only [listenerSource, hbacklog, hedge, hevents, hreg]

/-- What a queued connection receives does not change how many are queued. -/
theorem queued_isEmpty (s : Srv) (i : ℕ) (k : Sock) :
    (s.backlog.set i k).isEmpty = s.backlog.isEmpty := by
  rw [Bool.eq_iff_iff, List.isEmpty_iff, List.isEmpty_iff, List.set_eq_nil_iff]

/-- The server goes on from an event on another descriptor. -/
theorem listener_next {e : Event} {rest : List Event} (hevents : s.pc.events = e :: rest)
    (hreg : s.pc.registered = true) (hfd : e.fd ≠ sfd) (hbacklog : s'.backlog = s.backlog)
    (hedge : s'.edge = s.edge) (hpc : s'.pc = .next rest) :
    (s.listenerSource sfd).Move (s'.listenerSource sfd) := by
  apply Source.Move.of_eq
  have hnext : (Pc.next rest).registered = true := by cases rest <;> rfl
  have hne : ¬ sfd = e.fd := fun h => hfd h.symm
  simp [listenerSource, hbacklog, hedge, hpc, hevents, hreg, hnext, hne]

theorem listener_report (h : Sound sfd s) (hpc : s.pc = .wait) {rs : List (Fd × Mask)}
    (hmay : s.MayReport sfd rs) :
    (s.listenerSource sfd).Move ((s.report sfd rs).listenerSource sfd) := by
  have hreg : (s.report sfd rs).pc.registered = true := by
    simp only [report]
    cases rs <;> rfl
  have hheld : (s.report sfd rs).listenerSource sfd =
      ⟨!s.backlog.isEmpty, s.edge && !(rs.map Prod.fst).contains sfd, (rs.map Prod.fst).contains sfd⟩ := by
    rw [listenerSource, hreg]
    simp only [report, Pc.events_next, List.map_map, Bool.not_true, Bool.false_or]
    rfl
  rw [hheld]
  by_cases hfd : sfd ∈ rs.map Prod.fst
  · obtain ⟨r, hr, hr'⟩ := List.mem_map.mp hfd
    have hflag := hmay.2.2 r hr
    rw [hr'] at hflag
    refine .report ?_ rfl (List.contains_iff_mem.mpr hfd)
    by_cases hl : s.listening = true
    · simpa [flagged, listenerSource, hl] using hflag
    · simp [flagged, hl, h.sfd_free] at hflag
  · apply Source.Move.of_eq
    simp [listenerSource, hpc, Pc.registered, Pc.events, hfd]

theorem listener_close (h : Sound sfd s) {e : Event} {rest : List Event} (hpc : s.pc = .close e rest) :
    (s.listenerSource sfd).Move (((s.closeFd sfd e.fd).goto (.next rest)).listenerSource sfd) := by
  have hevents : s.pc.events = e :: rest := by rw [hpc]; rfl
  by_cases hfd : e.fd = sfd
  · have hl : s.listening = true := h.listening (e := e) (by simp [hevents]) hfd
    refine .gone (listenerSource_held hevents hfd) ?_
    simp [listenerSource, closeFd, hl, hfd, goto]
  · have hclose : s.closeFd sfd e.fd = s.setConn e.fd none := if_neg (fun hl => hfd hl.2)
    rw [hclose]
    exact listener_next hevents (by rw [hpc]; rfl) hfd rfl rfl rfl

/-- **Every step that meets the condition keeps the discipline at the listening socket.** -/
theorem Step.listener_move (h : Sound sfd s) {ev : Ev} (hdrains : s.AcceptDrains ev)
    (hstep : s.Step sfd ev s') : (s.listenerSource sfd).Move (s'.listenerSource sfd) := by
  cases hstep with
  | connect hopen =>
    cases hreg : s.pc.registered with
    | true =>
      refine .flag ?_ rfl
      show (s.edge || s.pc.registered) = true
      rw [hreg, Bool.or_true]
    | false =>
      have hheld : (s.listenerSource sfd).held = true := by simp [listenerSource, hreg]
      refine .take hheld ?_ hheld
      show (s.edge || s.pc.registered) = s.edge
      rw [hreg, Bool.or_false]
  | @abandon i hi =>
    refine .lose ?_ rfl rfl
    intro hunread
    cases hqueue : s.backlog with
    | nil => simp [hqueue] at hi
    | cons k queue => simp [listenerSource, hqueue]
  | @queued i inp k hk hmay =>
    refine .lose ?_ rfl rfl
    intro hunread
    have hunread : (!(s.backlog.set i (k.receive inp)).isEmpty) = true := hunread
    rwa [queued_isEmpty] at hunread
  | input hc hmay => exact .refl _
  | hangup hc => exact .refl _
  | register halive hpc => exact .watch (by simp [listenerSource, hpc, Pc.registered]) rfl rfl
  | abort halive hpc => exact .refl _
  | report halive hpc hmay => exact listener_report h hpc hmay
  | @dispatch e rest halive hpc =>
    unfold Srv.dispatch
    split_ifs
    all_goals exact listener_same rfl rfl (by rw [hpc]; rfl) (by rw [hpc]; rfl)
  | @accepted e rest fd k queue halive hpc hqueue hfree =>
    have hsfd : e.fd = sfd := h.accept_fd hpc
    have hheld : (s.listenerSource sfd).held = true :=
      listenerSource_held (by rw [hpc]; rfl) hsfd
    refine .take hheld rfl ?_
    exact listenerSource_held rfl hsfd
  | @acceptFailed e rest n halive hpc hn =>
    have hsfd : e.fd = sfd := h.accept_fd hpc
    have hheld : (s.listenerSource sfd).held = true :=
      listenerSource_held (e := e) (by rw [hpc]; rfl) hsfd
    have hleft : (s.listenerSource sfd).unread = true → (s.listenerSource sfd).edge = true := by
      intro hunread
      simp only [AcceptDrains, hpc] at hdrains
      rcases hdrains with hempty | hedge
      · simp [listenerSource, hempty] at hunread
      · exact hedge
    unfold Srv.acceptFailed
    split_ifs
    · exact .leave hheld hleft rfl rfl
    · exact .leave hheld hleft rfl rfl
  | nonBlocking halive hpc => exact listener_same rfl rfl (by rw [hpc]; rfl) (by rw [hpc]; rfl)
  | watch halive hpc => exact listener_same rfl rfl (by rw [hpc]; rfl) (by rw [hpc]; rfl)
  | @readCount e rest c n halive hpc hc hn =>
    unfold Srv.readCount
    split_ifs
    all_goals exact listener_same rfl rfl (by rw [hpc]; rfl) (by rw [hpc]; rfl)
  | @readFailed e rest n halive hpc hn =>
    have hsfd : e.fd ≠ sfd := h.read_fd hpc
    unfold Srv.readFailed
    split_ifs
    · exact listener_next (e := e) (by rw [hpc]; rfl) (by rw [hpc]; rfl) hsfd rfl rfl rfl
    · exact listener_same rfl rfl (by rw [hpc]; rfl) (by rw [hpc]; rfl)
  | write halive hpc hn => exact listener_same rfl rfl (by rw [hpc]; rfl) (by rw [hpc]; rfl)
  | writeFailed halive hpc => exact .refl _
  | close halive hpc => exact listener_close h hpc

/-- Between arrivals, the server touches the backlog and the edge only with the socket in hand. -/
theorem Step.listener_kept (h : Sound sfd s) {ev : Ev} (hquiet : ev.atBacklog = false)
    (hheld : (s.listenerSource sfd).held = false) (hstep : s.Step sfd ev s') :
    s'.backlog.isEmpty = s.backlog.isEmpty ∧ (s'.edge = true → s.edge = true) := by
  obtain ⟨hreg, hevents⟩ : s.pc.registered = true ∧ sfd ∉ s.pc.events.map Event.fd := by
    simpa [listenerSource] using hheld
  have hother : ∀ {e : Event} {rest : List Event}, s.pc.events = e :: rest → e.fd ≠ sfd := by
    intro e rest he hfd
    exact hevents (by simp [he, hfd])
  cases hstep with
  | connect hopen => cases hquiet
  | abandon hi => cases hquiet
  | queued hk hmay => exact ⟨queued_isEmpty s _ _, id⟩
  | input hc hmay => exact ⟨rfl, id⟩
  | hangup hc => exact ⟨rfl, id⟩
  | register halive hpc => exact absurd hreg (by simp [hpc, Pc.registered])
  | abort halive hpc => exact ⟨rfl, id⟩
  | report halive hpc hmay =>
    refine ⟨rfl, ?_⟩
    intro hedge
    have hboth : (s.edge && !(_ : Bool)) = true := hedge
    exact (Bool.and_eq_true_iff.mp hboth).1
  | dispatch halive hpc =>
    unfold Srv.dispatch
    split_ifs
    all_goals exact ⟨rfl, id⟩
  | @accepted e rest fd k queue halive hpc hqueue hfree =>
    have hsfd : e.fd = sfd := h.accept_fd hpc
    exact absurd hsfd (hother (by rw [hpc]; rfl))
  | acceptFailed halive hpc hn =>
    unfold Srv.acceptFailed
    split_ifs
    all_goals exact ⟨rfl, id⟩
  | nonBlocking halive hpc => exact ⟨rfl, id⟩
  | watch halive hpc => exact ⟨rfl, id⟩
  | readCount halive hpc hc hn =>
    unfold Srv.readCount
    split_ifs
    all_goals exact ⟨rfl, id⟩
  | readFailed halive hpc hn =>
    unfold Srv.readFailed
    split_ifs
    all_goals exact ⟨rfl, id⟩
  | write halive hpc hn => exact ⟨rfl, id⟩
  | writeFailed halive hpc => exact ⟨rfl, id⟩
  | @close e rest halive hpc =>
    have hfd : e.fd ≠ sfd := hother (by rw [hpc]; rfl)
    have hclose : s.closeFd sfd e.fd = s.setConn e.fd none := if_neg (fun hl => hfd hl.2)
    rw [hclose]
    exact ⟨rfl, id⟩

/-- **Only a client can help a stranded backlog.** -/
theorem Step.stranded (h : Sound sfd s) {ev : Ev} (hquiet : ev.atBacklog = false)
    (hs : (s.listenerSource sfd).Stranded) (hstep : s.Step sfd ev s') :
    (s'.listenerSource sfd).Stranded := by
  obtain ⟨hempty, hedge⟩ := hstep.listener_kept h hquiet hs.2.2
  have hdrains : s.AcceptDrains ev := by
    unfold AcceptDrains
    split
    · rename_i e rest n hpc
      -- the accept loop has the socket in hand
      have hsfd : e.fd = sfd := h.accept_fd hpc
      have hheld : (s.listenerSource sfd).held = true :=
        listenerSource_held (e := e) (by rw [hpc]; rfl) hsfd
      exact absurd hheld (by simp [hs.2.2])
    · trivial
  rcases (hstep.listener_move h hdrains).stranded hs with hstays | hset | hgone
  · exact hstays
  · have hwas : (s.listenerSource sfd).edge = true := hedge hset
    exact absurd hwas (by simp [hs.2.1])
  · have hwas : (s.listenerSource sfd).unread = false := by
      rw [← hgone]
      simp only [listenerSource, hempty]
    exact absurd hs.1 (by simp [hwas])

/-- What a failing `accept` that breaks the condition leaves behind. -/
theorem acceptFailed_breaks (h : Sound sfd s) {n : Errno} (hs : ¬ s.AcceptDrains (.runs (.errno n)))
    (hstep : s.Step sfd (.runs (.errno n)) s') :
    ∃ rest, (∀ e ∈ rest, e.fd ≠ sfd) ∧ s'.pc = .next rest ∧ s'.aborted = false ∧
      s'.backlog ≠ [] ∧ s'.edge = false := by
  cases hstep with
  | @acceptFailed e rest _ halive hpc hn =>
    have hsfd : e.fd = sfd := h.accept_fd hpc
    have hleft : s.backlog ≠ [] ∧ s.edge = false := by simpa [AcceptDrains, hpc] using hs
    have hnodup := h.nodup
    rw [hpc] at hnodup
    have hnotin : e.fd ∉ rest.map Event.fd := (List.nodup_cons.mp hnodup).1
    have hrest : ∀ e' ∈ rest, e'.fd ≠ sfd := by
      intro e' he' hfd
      exact hnotin (hsfd ▸ hfd ▸ List.mem_map_of_mem he')
    refine ⟨rest, hrest, ?_⟩
    unfold Srv.acceptFailed
    split_ifs
    · exact ⟨rfl, halive, hleft⟩
    · exact ⟨rfl, halive, hleft⟩
  | readFailed halive hpc hn => simp [AcceptDrains, hpc] at hs
  | writeFailed halive hpc => simp [AcceptDrains, hpc] at hs

/-- A backlog is stranded when the edge is clear and no event in the batch is on the socket. -/
theorem stranded_of_next {rest : List Event} (hrest : ∀ e ∈ rest, e.fd ≠ sfd) (hpc : s.pc = .next rest)
    (hbacklog : s.backlog ≠ []) (hedge : s.edge = false) : (s.listenerSource sfd).Stranded := by
  refine ⟨by simpa [listenerSource] using hbacklog, hedge, ?_⟩
  have hreg : (Pc.next rest).registered = true := by cases rest <;> rfl
  simpa [listenerSource, hpc, hreg] using hrest

end Srv

/-! ## Runs -/

section Runs

variable {sfd : Fd} {s s' t : Srv}

/-- **No run that meets the condition loses a wake-up at the listening socket.** -/
theorem listener_awake (h : ((server sfd).restrict Srv.AcceptDrains).Reachable s) :
    (s.listenerSource sfd).Awake := by
  refine System.awake _ (Srv.listenerSource sfd) ?_ ?_ h
  · rintro ⟨⟩
  · intro s e s' hreach hstep
    obtain ⟨hdrains, hstep⟩ := (server sfd).restrict_step.mp hstep
    have hsound : Sound sfd s := Sound.reachable ((server sfd).reachable_of_restrict hreach)
    exact (Srv.step_cases hstep).listener_move hsound hdrains

/-- Until a client comes or goes, a stranded backlog stays stranded. -/
theorem stranded_run (h : (server sfd).Reachable s) (hs : (s.listenerSource sfd).Stranded)
    {es : List Ev} (hquiet : ∀ e ∈ es, e.atBacklog = false)
    (hrun : (server sfd).runFrom s es = some t) : (t.listenerSource sfd).Stranded := by
  have hkept := (server sfd).runFrom_induction
    (P := fun s => (server sfd).Reachable s ∧ (s.listenerSource sfd).Stranded) es ?_ ⟨h, hs⟩ hrun
  · exact hkept.2
  · rintro s e s' he ⟨hreach, hstranded⟩ hstep
    have hsound : Sound sfd s := Sound.reachable hreach
    exact ⟨.step e hreach hstep, (Srv.step_cases hstep).stranded hsound (hquiet e he) hstranded⟩

/-- Without a client that comes or goes, the server may call `epoll_wait` again. -/
def CanWait (sfd : Fd) (s : Srv) : Prop :=
  ∃ es t, (∀ e ∈ es, e.atBacklog = false) ∧ (server sfd).runFrom s es = some t ∧ t.pc = .wait

theorem CanWait.runs (h : CanWait sfd s') {a : Answer}
    (hstep : (server sfd).step s (.runs a) = some s') : CanWait sfd s := by
  obtain ⟨es, t, hes, hrun, ht⟩ := h
  refine ⟨.runs a :: es, t, ?_, (server sfd).runFrom_cons hstep hrun, ht⟩
  simpa [Ev.atBacklog] using hes

/-- The server can close the descriptor of the event in hand and go on. -/
theorem canWait_close (e : Event) (rest : List Event) (halive : s.aborted = false)
    (hpc : s.pc = .close e rest)
    (hnext : ∀ u : Srv, u.aborted = false → u.pc = .next rest → CanWait sfd u) : CanWait sfd s := by
  have hstep : (server sfd).step s (.runs .ok) =
      some (((s.closeFd sfd e.fd).goto (.next rest)).logs [.closed (s.owner sfd e.fd)]) := by
    simp [server, Srv.step, Srv.runs, halive, hpc]
  refine CanWait.runs (hnext _ ?_ rfl) hstep
  show (s.closeFd sfd e.fd).aborted = false
  rw [Srv.closeFd_aborted, halive]

/-- What is left of a batch does not keep the server from `epoll_wait`: each read may fail. -/
theorem canWait_batch (rest : List Event) (hrest : ∀ e ∈ rest, e.fd ≠ sfd) (s : Srv)
    (halive : s.aborted = false) (hpc : s.pc = .next rest) : CanWait sfd s := by
  induction rest generalizing s with
  | nil => exact ⟨[], s, by simp, rfl, hpc⟩
  | cons e rest ih =>
    have hne : sfd ≠ e.fd := (hrest e List.mem_cons_self).symm
    have hnext : ∀ u : Srv, u.aborted = false → u.pc = .next rest → CanWait sfd u :=
      fun u hu hupc => ih (fun e' he' => hrest e' (List.mem_cons_of_mem e he')) u hu hupc
    have hdispatch : (server sfd).step s (.runs .ok) = some (s.dispatch sfd e rest) := by
      simp [server, Srv.step, Srv.runs, halive, hpc, Pc.next]
    refine CanWait.runs ?_ hdispatch
    cases herr : e.events.isError with
    | true =>
      rw [Srv.dispatch, if_pos herr]
      exact canWait_close e rest halive rfl hnext
    | false =>
      have hread : (server sfd).step (s.goto (.read e rest)) (.runs (.errno .other)) =
          some ((s.goto (.read e rest)).readFailed sfd e .other rest) := by
        simp [server, Srv.step, Srv.runs, Srv.goto, halive]
      rw [Srv.dispatch, if_neg (by simp [herr]), if_neg hne]
      refine CanWait.runs ?_ hread
      exact canWait_close e rest halive rfl hnext

/-- **The listening socket loses no wake-up in the runs that meet the condition, and any `accept` that
breaks it loses one.** In the first half the edge is set at every `epoll_wait` with a non-empty backlog.
In the second, connections stay queued and the edge stays clear until a client comes or goes, and meanwhile
the server may call `epoll_wait`. -/
theorem listener_edgeAtWait (sfd : Fd) :
    (∀ s, ((server sfd).restrict Srv.AcceptDrains).Reachable s → s.pc = .wait → s.backlog ≠ [] →
      s.edge = true) ∧
    ∀ s n s', (server sfd).Reachable s → ¬ s.AcceptDrains (.runs (.errno n)) →
      (server sfd).step s (.runs (.errno n)) = some s' →
      (∀ es t, (∀ e ∈ es, e.atBacklog = false) → (server sfd).runFrom s' es = some t →
        t.backlog ≠ [] ∧ t.edge = false) ∧
      CanWait sfd s' := by
  constructor
  · intro s hreach hpc hbacklog
    have hawake := listener_awake hreach
    exact hawake.edge (by simpa [Srv.listenerSource] using hbacklog)
      (by simp [Srv.listenerSource, hpc, Pc.registered, Pc.events])
  · intro s n s' hreach hbroken hstep
    obtain ⟨rest, hrest, hpc, halive, hbacklog, hedge⟩ :=
      Srv.acceptFailed_breaks (Sound.reachable hreach) hbroken (Srv.step_cases hstep)
    have hstranded : (s'.listenerSource sfd).Stranded :=
      Srv.stranded_of_next hrest hpc hbacklog hedge
    refine ⟨?_, canWait_batch rest hrest s' halive hpc⟩
    intro es t hquiet hrun
    obtain ⟨hunread, hclear, -⟩ := stranded_run (.step _ hreach hstep) hstranded hquiet hrun
    exact ⟨by simpa [Srv.listenerSource] using hunread, hclear⟩

/-- Two clients connect, and the server accepts one of them. -/
def oneAccepted : List Ev :=
  [.runs .ok, .arrives .connect, .arrives .connect, .runs (.ready [(3, ⟨false, false, true⟩)]),
    .runs .ok, .runs (.accepted 5), .runs .ok, .runs .ok]

/-- First half: a third client connects before `accept` fails with EMFILE.  Second half: none does. -/
theorem listener_edgeAtWait_mfile :
    (∃ s, ((server 3).restrict Srv.AcceptDrains).Reachable s ∧ s.pc = .wait ∧ s.backlog ≠ [] ∧
      s.edge = true) ∧
    ∃ s, (server 3).Reachable s ∧ CanWait 3 s ∧ ∀ es t, (∀ e ∈ es, e.atBacklog = false) →
      (server 3).runFrom s es = some t → t.backlog ≠ [] ∧ t.edge = false := by
  constructor
  · obtain ⟨s, hreach, hs⟩ := ((server 3).restrict Srv.AcceptDrains).exists_reachable_of_run
      (oneAccepted ++ [.arrives .connect, .runs (.errno .mfile)])
      (fun s => s.pc == .wait && !s.backlog.isEmpty) (by decide +kernel)
    simp only [Bool.and_eq_true, beq_iff_eq, Bool.not_eq_true', List.isEmpty_eq_false_iff] at hs
    exact ⟨s, hreach, hs.1, hs.2, (listener_edgeAtWait 3).1 s hreach hs.1 hs.2⟩
  · obtain ⟨s, hreach, hs⟩ := (server 3).exists_reachable_of_run oneAccepted
      (fun s => !decide (s.AcceptDrains (.runs (.errno .mfile))) &&
        ((server 3).step s (.runs (.errno .mfile))).isSome) (by decide +kernel)
    simp only [Bool.and_eq_true, Bool.not_eq_true', decide_eq_false_iff_not] at hs
    obtain ⟨hbroken, hfails⟩ := hs
    obtain ⟨s', hstep⟩ := Option.isSome_iff_exists.mp hfails
    obtain ⟨hstays, hwait⟩ := (listener_edgeAtWait 3).2 s .mfile s' hreach hbroken hstep
    exact ⟨s', .step _ hreach hstep, hwait, hstays⟩

/-- **The second client is left waiting**: `accept` fails with EMFILE, and the server calls `epoll_wait`
with a connection in the backlog and the edge clear. -/
theorem listener_losesWakeup :
    ∃ s, (server 3).Reachable s ∧ s.pc = .wait ∧ s.backlog ≠ [] ∧ s.edge = false := by
  obtain ⟨s, hreach, hs⟩ := (server 3).exists_reachable_of_run
    (oneAccepted ++ [.runs (.errno .mfile)])
    (fun s => s.pc == .wait && !s.backlog.isEmpty && !s.edge) (by decide +kernel)
  simp only [Bool.and_eq_true, beq_iff_eq, Bool.not_eq_true', List.isEmpty_eq_false_iff] at hs
  obtain ⟨⟨hpc, hbacklog⟩, hedge⟩ := hs
  exact ⟨s, hreach, hpc, hbacklog, hedge⟩

end Runs

end NetProg.EpollServer
