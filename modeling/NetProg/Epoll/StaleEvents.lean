/-
# NetProg.Epoll.StaleEvents -- no event is applied to anything but what it was reported for.

A batch carries bare descriptor numbers, and while it is handled connections are closed and accepted.  An
event is stale when its number stands for something else by the time its turn comes.  Here `epoll_wait`
may return any batch of distinct open descriptors (`anyBatch`), not only flagged ones, and `accept` any
number that is not open, so that the one closed last may come back at once.

`Identified` says that an `id` belongs to one connection: no two queued or open connections share it, and
it is never given again.  With it, `Sound` says that no event goes stale.
-/
import NetProg.Epoll.Batch

namespace NetProg.EpollServer

/-! ## Any batch -/

namespace Srv

/-- The descriptors of the batch are pairwise distinct and open. -/
def OpenBatch (sfd : Fd) (s : Srv) (rs : List (Fd × Mask)) : Prop :=
  (rs.map Prod.fst).Nodup ∧ ∀ r ∈ rs, s.owner sfd r.1 ≠ none

instance (sfd : Fd) (s : Srv) (rs : List (Fd × Mask)) : Decidable (s.OpenBatch sfd rs) :=
  inferInstanceAs (Decidable (_ ∧ _))

/-- A step, where `epoll_wait` may return any open batch. -/
def stepAny (sfd : Fd) (s : Srv) : Ev → Option Srv
  | .runs (.ready rs) =>
    if s.aborted = false ∧ s.pc = .wait ∧ s.OpenBatch sfd rs then some (s.report sfd rs) else none
  | e => s.step sfd e

end Srv

/-- The server over a kernel that reports any open descriptors. -/
def anyBatch (sfd : Fd) : System Srv Ev := ⟨Srv.start, Srv.stepAny sfd⟩

variable {sfd : Fd} {s s' : Srv}

namespace Srv

/-- What one step can do: what the server's own steps do, or to report an open batch. -/
theorem stepAny_cases {ev : Ev} (h : (anyBatch sfd).step s ev = some s') :
    s.Step sfd ev s' ∨ ∃ rs, s.pc = .wait ∧ s.OpenBatch sfd rs ∧ s' = s.report sfd rs := by
  have h : s.stepAny sfd ev = some s' := h
  unfold stepAny at h
  split at h
  · split at h
    · next hmay =>
      cases h
      exact .inr ⟨_, hmay.2.1, hmay.2.2, rfl⟩
    · cases h
  · exact .inl (step_cases h)

/-- What `epoll_wait` may report is open. -/
theorem MayReport.openBatch {rs : List (Fd × Mask)} (h : s.MayReport sfd rs) : s.OpenBatch sfd rs :=
  ⟨h.1, fun r hr => owner_of_flagged (h.2.2 r hr)⟩

/-- The steps of the server are among them. -/
theorem stepAny_of_step {ev : Ev} (h : (server sfd).step s ev = some s') :
    s.stepAny sfd ev = some s' := by
  unfold stepAny
  split
  · next rs =>
    cases step_cases h with
    | report halive hpc hmay => exact if_pos ⟨halive, hpc, hmay.openBatch⟩
  · exact h

end Srv

/-- Every run of the server is one of `anyBatch`. -/
theorem anyBatch_of_server (h : (server sfd).Reachable s) : (anyBatch sfd).Reachable s := by
  induction h with
  | init => exact .init
  | step e _ hstep ih => exact .step e ih (Srv.stepAny_of_step hstep)

theorem Sound.anyBatch (h : (anyBatch sfd).Reachable s) : Sound sfd s := by
  refine (EpollServer.anyBatch sfd).invariant (P := Sound sfd) (Sound.start sfd) ?_ h
  intro s ev s' _ hsound hstep
  rcases Srv.stepAny_cases hstep with hstep | ⟨rs, hpc, hbatch, rfl⟩
  · exact hsound.step hstep
  · exact hsound.report hpc hbatch.1 hbatch.2

/-! ## Identities -/

namespace Srv

/-- The connections of the backlog. -/
def queuedIds (s : Srv) : List ℕ := s.backlog.map Sock.id

/-- The connection at `fd`. -/
def connId (s : Srv) (fd : Fd) : Option ℕ := (s.conns fd).map fun c => c.sock.id

/-- The receiving side of the connection at `fd`. -/
def sockAt (s : Srv) (fd : Fd) : Option Sock := (s.conns fd).map Conn.sock

theorem connId_eq (s : Srv) (fd : Fd) : s.connId fd = (s.sockAt fd).map Sock.id := by
  simp only [connId, sockAt, Option.map_map]
  rfl

theorem sockAt_setConn_of_ne (s : Srv) {fd fd' : Fd} (c : Option Conn) (hne : fd' ≠ fd) :
    (s.setConn fd c).sockAt fd' = s.sockAt fd' := by
  rw [sockAt, setConn_of_ne s c hne, sockAt]

theorem sockAt_setConn_self (s : Srv) (fd : Fd) (c : Option Conn) :
    (s.setConn fd c).sockAt fd = c.map Conn.sock := by
  rw [sockAt, setConn_self]

theorem sockAt_report (sfd : Fd) (s : Srv) (rs : List (Fd × Mask)) :
    (s.report sfd rs).sockAt = s.sockAt := by
  funext fd
  by_cases hfd : fd ∈ rs.map Prod.fst
  · simp only [sockAt, report, if_pos hfd, Option.map_map]
    rfl
  · simp only [sockAt, report, if_neg hfd]

theorem sockAt_watch (s : Srv) (infd : Fd) : (s.watch infd).sockAt = s.sockAt := by
  funext fd
  by_cases hfd : fd = infd
  · subst hfd
    simp only [sockAt, watch, setConn_self, Option.map_map]
    rfl
  · exact sockAt_setConn_of_ne s _ hfd

theorem connId_setConn_self (s : Srv) (fd : Fd) (c : Option Conn) :
    (s.setConn fd c).connId fd = c.map fun c => c.sock.id := by
  rw [connId, setConn_self]

theorem connId_setConn_of_ne (s : Srv) {fd fd' : Fd} (c : Option Conn) (hne : fd' ≠ fd) :
    (s.setConn fd c).connId fd' = s.connId fd' := by
  rw [connId_eq, sockAt_setConn_of_ne s c hne, connId_eq]

/-- A connection that changes stays itself. -/
theorem connId_setConn {fd : Fd} {c c' : Conn} (hc : s.conns fd = some c)
    (hid : c'.sock.id = c.sock.id) (fd' : Fd) :
    (s.setConn fd (some c')).connId fd' = s.connId fd' := by
  by_cases hfd : fd' = fd
  · subst hfd
    simp [connId, hc, hid]
  · exact connId_setConn_of_ne s _ hfd

theorem connId_report (sfd : Fd) (s : Srv) (rs : List (Fd × Mask)) (fd : Fd) :
    (s.report sfd rs).connId fd = s.connId fd := by
  rw [connId_eq, sockAt_report, connId_eq]

theorem connId_watch (s : Srv) (infd fd : Fd) : (s.watch infd).connId fd = s.connId fd := by
  rw [connId_eq, sockAt_watch, connId_eq]

/-- `close` takes a connection away at most. -/
theorem connId_closeFd {fd fd' : Fd} {i : ℕ} (h : (s.closeFd sfd fd).connId fd' = some i) :
    s.connId fd' = some i := by
  unfold closeFd at h
  split_ifs at h
  · exact h
  · by_cases hfd : fd' = fd
    · subst hfd
      rw [connId_setConn_self] at h
      cases h
    · rwa [connId_setConn_of_ne s _ hfd] at h

theorem queuedIds_closeFd (s : Srv) (fd : Fd) :
    (s.closeFd sfd fd).queuedIds.Sublist s.queuedIds := by
  unfold closeFd
  split_ifs
  · exact List.nil_sublist _
  · exact List.Sublist.refl _

/-- What a queued connection receives does not change which ones are queued. -/
theorem queuedIds_set {i : ℕ} {k k' : Sock} (hk : s.backlog[i]? = some k) (hid : k'.id = k.id) :
    (s.backlog.set i k').map Sock.id = s.queuedIds := by
  have hsame : s.queuedIds[i]? = some k'.id := by simp [queuedIds, hk, hid]
  obtain ⟨hi, hget⟩ := List.getElem?_eq_some_iff.mp hsame
  rw [List.map_set, ← hget]
  apply List.set_getElem_self

/-- No connection comes, and none changes its place. -/
structure Goes (s s' : Srv) : Prop where
  queued : s'.queuedIds.Sublist s.queuedIds
  conn : ∀ fd i, s'.connId fd = some i → s.connId fd = some i
  made : s'.made = s.made

/-- The same connections. -/
theorem Goes.same (hqueued : s'.queuedIds = s.queuedIds) (hconn : ∀ fd, s'.connId fd = s.connId fd)
    (hmade : s'.made = s.made) : s.Goes s' where
  queued := hqueued ▸ List.Sublist.refl _
  conn := fun fd _ hi => hconn fd ▸ hi
  made := hmade

/-- Nothing that identifies a connection is touched. -/
theorem Goes.of_eq (hbacklog : s'.backlog = s.backlog) (hconns : s'.conns = s.conns)
    (hmade : s'.made = s.made) : s.Goes s' :=
  .same (by rw [queuedIds, hbacklog, queuedIds]) (fun fd => by rw [connId, hconns, connId]) hmade

theorem Goes.closeFd (s : Srv) (fd : Fd) (rest : List Event) (es : List LogEv) :
    s.Goes (((s.closeFd sfd fd).goto (.next rest)).logs es) where
  queued := queuedIds_closeFd s fd
  conn := fun fd' i hi => connId_closeFd hi
  made := by
    show (s.closeFd sfd fd).made = s.made
    unfold Srv.closeFd
    split_ifs <;> rfl

/-- What one step does to the identities: connections go, a client comes, or the oldest queued one moves
to a free descriptor. -/
theorem Step.identities {ev : Ev} (hstep : s.Step sfd ev s') :
    s.Goes s' ∨ s' = s.connect ∨ ∃ e fd k queue rest, s.backlog = k :: queue ∧ s.conns fd = none ∧
      s' = s.accepted e fd k queue rest := by
  cases hstep with
  | connect hopen => exact .inr (.inl rfl)
  | @abandon i hi =>
    refine .inl ⟨?_, fun _ _ h => h, rfl⟩
    exact (List.eraseIdx_sublist s.backlog i).map Sock.id
  | queued hk hmay => exact .inl (.same (queuedIds_set hk (by simp)) (fun _ => rfl) rfl)
  | input hc hmay => exact .inl (.same rfl (connId_setConn hc (by simp)) rfl)
  | hangup hc => exact .inl (.same rfl (connId_setConn hc rfl) rfl)
  | register halive hpc => exact .inl (.of_eq rfl rfl rfl)
  | abort halive hpc => exact .inl (.of_eq rfl rfl rfl)
  | report halive hpc hmay => exact .inl (.same rfl (connId_report sfd s _) rfl)
  | dispatch halive hpc =>
    unfold Srv.dispatch
    split_ifs
    all_goals exact .inl (.of_eq rfl rfl rfl)
  | accepted halive hpc hqueue hfree => exact .inr (.inr ⟨_, _, _, _, _, hqueue, hfree.2, rfl⟩)
  | acceptFailed halive hpc hn =>
    unfold Srv.acceptFailed
    split_ifs
    all_goals exact .inl (.of_eq rfl rfl rfl)
  | nonBlocking halive hpc => exact .inl (.of_eq rfl rfl rfl)
  | watch halive hpc => exact .inl (.same rfl (connId_watch s _) rfl)
  | readCount halive hpc hc hn =>
    unfold Srv.readCount
    split_ifs
    · exact .inl (.of_eq rfl rfl rfl)
    · exact .inl (.same rfl (connId_setConn hc rfl) rfl)
  | readFailed halive hpc hn =>
    unfold Srv.readFailed
    split_ifs
    all_goals exact .inl (.of_eq rfl rfl rfl)
  | write halive hpc hn => exact .inl (.of_eq rfl rfl rfl)
  | writeFailed halive hpc => exact .inl (.of_eq rfl rfl rfl)
  | @close e rest halive hpc => exact .inl (.closeFd s e.fd rest _)

end Srv

/-- An identity belongs to one connection, and new ones come from the counter. -/
structure Identified (s : Srv) : Prop where
  nodup : s.queuedIds.Nodup
  queued : ∀ i ∈ s.queuedIds, i < s.made
  conn : ∀ fd i, s.connId fd = some i → i < s.made ∧ i ∉ s.queuedIds
  inj : ∀ fd fd' i, s.connId fd = some i → s.connId fd' = some i → fd = fd'

namespace Identified

theorem start : Identified Srv.start where
  nodup := List.nodup_nil
  queued := by simp [Srv.start, Srv.queuedIds]
  conn := by simp [Srv.start, Srv.connId]
  inj := by simp [Srv.start, Srv.connId]

/-- Connections may go. -/
theorem goes (h : Identified s) (hgoes : s.Goes s') : Identified s' where
  nodup := hgoes.queued.nodup h.nodup
  queued := by
    intro i hi
    rw [hgoes.made]
    exact h.queued i (hgoes.queued.subset hi)
  conn := by
    intro fd i hi
    obtain ⟨hlt, hnot⟩ := h.conn fd i (hgoes.conn fd i hi)
    rw [hgoes.made]
    exact ⟨hlt, fun hin => hnot (hgoes.queued.subset hin)⟩
  inj := fun fd fd' i hi hi' => h.inj fd fd' i (hgoes.conn fd i hi) (hgoes.conn fd' i hi')

/-- A client gets an identity that nobody has. -/
theorem connect (h : Identified s) : Identified s.connect := by
  have hids : s.connect.queuedIds = s.queuedIds ++ [s.made] := by simp [Srv.queuedIds, Srv.connect]
  have hmade : s.connect.made = s.made + 1 := rfl
  have hfresh : s.made ∉ s.queuedIds := fun hin => absurd (h.queued _ hin) (Nat.lt_irrefl _)
  exact {
    nodup := by
      rw [hids]
      exact List.Nodup.append h.nodup (List.nodup_singleton _) (by simpa using hfresh)
    queued := by
      intro i hi
      rw [hids, List.mem_append, List.mem_singleton] at hi
      rcases hi with hi | rfl
      · exact Nat.lt_succ_of_lt (h.queued i hi)
      · exact Nat.lt_succ_self _
    conn := by
      intro fd i hi
      obtain ⟨hlt, hnot⟩ := h.conn fd i hi
      refine ⟨Nat.lt_succ_of_lt hlt, ?_⟩
      rw [hids, List.mem_append, List.mem_singleton]
      rintro (hin | rfl)
      · exact hnot hin
      · exact Nat.lt_irrefl _ hlt
    inj := h.inj }

/-- The oldest queued connection moves to a free descriptor. -/
theorem accepted (h : Identified s) {e : Event} {rest : List Event} {fd : Fd} {k : Sock}
    {queue : List Sock} (hqueue : s.backlog = k :: queue) :
    Identified (s.accepted e fd k queue rest) := by
  have hids : s.queuedIds = k.id :: queue.map Sock.id := by simp [Srv.queuedIds, hqueue]
  have hnodup := h.nodup
  rw [hids, List.nodup_cons] at hnodup
  have hself : (s.accepted e fd k queue rest).connId fd = some k.id := by
    simp [Srv.connId, Srv.accepted]
  have hother : ∀ fd', fd' ≠ fd → (s.accepted e fd k queue rest).connId fd' = s.connId fd' := by
    intro fd' hne
    exact Srv.connId_setConn_of_ne _ _ hne
  have hhead : ∀ fd', s.connId fd' ≠ some k.id := by
    intro fd' hid
    exact (h.conn fd' _ hid).2 (by simp [hids])
  exact {
    nodup := hnodup.2
    queued := by
      intro i hi
      refine h.queued i ?_
      rw [hids]
      exact List.mem_cons_of_mem _ hi
    conn := by
      intro fd' i hi
      by_cases hfd : fd' = fd
      · rw [hfd, hself, Option.some.injEq] at hi
        subst hi
        exact ⟨h.queued _ (by simp [hids]), hnodup.1⟩
      · rw [hother fd' hfd] at hi
        obtain ⟨hlt, hnot⟩ := h.conn fd' i hi
        refine ⟨hlt, fun hin => hnot ?_⟩
        rw [hids]
        exact List.mem_cons_of_mem _ hin
    inj := by
      intro fd₁ fd₂ i h₁ h₂
      by_cases hfd₁ : fd₁ = fd <;> by_cases hfd₂ : fd₂ = fd
      · rw [hfd₁, hfd₂]
      · rw [hfd₁, hself] at h₁
        rw [hother fd₂ hfd₂, ← h₁] at h₂
        exact absurd h₂ (hhead fd₂)
      · rw [hfd₂, hself] at h₂
        rw [hother fd₁ hfd₁, ← h₂] at h₁
        exact absurd h₁ (hhead fd₁)
      · rw [hother fd₁ hfd₁] at h₁
        rw [hother fd₂ hfd₂] at h₂
        exact h.inj fd₁ fd₂ i h₁ h₂ }

theorem report (h : Identified s) (rs : List (Fd × Mask)) : Identified (s.report sfd rs) :=
  h.goes (.same rfl (Srv.connId_report sfd s rs) rfl)

/-- **One step keeps the identities apart.** -/
theorem step (h : Identified s) {ev : Ev} (hstep : s.Step sfd ev s') : Identified s' := by
  rcases hstep.identities with hgoes | rfl | ⟨e, fd, k, queue, rest, hqueue, -, rfl⟩
  · exact h.goes hgoes
  · exact h.connect
  · exact h.accepted hqueue

theorem anyBatch (h : (anyBatch sfd).Reachable s) : Identified s := by
  refine (EpollServer.anyBatch sfd).invariant (P := Identified) start ?_ h
  intro s ev s' _ hs hstep
  rcases Srv.stepAny_cases hstep with hstep | ⟨rs, -, -, rfl⟩
  · exact hs.step hstep
  · exact hs.report rs

end Identified

/-! ## No stale event -/

/-- What was read is written for the connection of the event in hand. -/
def Pc.Written : Pc → Prop
  | .write e id _ _ => e.src = some (.conn id)
  | _ => True

theorem Pc.written_next (es : List Event) : (Pc.next es).Written := by cases es <;> trivial

/-- The connection that is read is the one of the event. -/
theorem Sound.read_src (h : Sound sfd s) {e : Event} {rest : List Event} (hpc : s.pc = .read e rest)
    {c : Conn} (hc : s.conns e.fd = some c) : e.src = some (.conn c.sock.id) := by
  have hne : e.fd ≠ sfd := h.read_fd hpc
  have howner := (h.owned e (by simp [hpc, Pc.events])).1
  rw [← howner]
  simp [Srv.owner, hne, hc]

theorem Srv.Step.written (h : Sound sfd s) (hw : s.pc.Written) {ev : Ev} (hstep : s.Step sfd ev s') :
    s'.pc.Written := by
  cases hstep with
  | connect hopen => exact hw
  | abandon hi => exact hw
  | queued hk hmay => exact hw
  | input hc hmay => exact hw
  | hangup hc => exact hw
  | register halive hpc => trivial
  | abort halive hpc => exact hw
  | report halive hpc hmay => exact Pc.written_next _
  | dispatch halive hpc =>
    unfold Srv.dispatch
    split_ifs <;> trivial
  | accepted halive hpc hqueue hfree => trivial
  | acceptFailed halive hpc hn =>
    unfold Srv.acceptFailed
    split_ifs
    all_goals exact Pc.written_next _
  | nonBlocking halive hpc => trivial
  | watch halive hpc => trivial
  | readCount halive hpc hc hn =>
    unfold Srv.readCount
    split_ifs
    · trivial
    · exact h.read_src hpc hc
  | readFailed halive hpc hn =>
    unfold Srv.readFailed
    split_ifs
    · exact Pc.written_next _
    · trivial
  | write halive hpc hn => trivial
  | writeFailed halive hpc => exact hw
  | close halive hpc => exact Pc.written_next _

theorem Pc.written_anyBatch (h : (anyBatch sfd).Reachable s) : s.pc.Written := by
  refine (anyBatch sfd).invariant (P := fun s => s.pc.Written) trivial ?_ h
  intro s ev s' hreach hw hstep
  rcases Srv.stepAny_cases hstep with hstep | ⟨rs, -, -, rfl⟩
  · exact hstep.written (Sound.anyBatch hreach) hw
  · exact Pc.written_next _

/-- No event in hand is stale: each of the batch still stands for what it was reported for, which is open,
and the calls of its branch act on just that.  An identity stands for one connection: no two descriptors
share it, and every new connection is given the next one, `made`. -/
structure NoStale (sfd : Fd) (s : Srv) : Prop where
  same : ∀ e ∈ s.pc.events, s.owner sfd e.fd = e.src
  isOpen : ∀ e ∈ s.pc.events, e.src ≠ none
  accepts : ∀ e rest infd, s.pc = .accept e rest ∨ s.pc = .nonBlocking e infd rest ∨
    s.pc = .add e infd rest → e.fd = sfd ∧ e.src = some .listener
  reads : ∀ e rest, s.pc = .read e rest →
    ∃ c, s.conns e.fd = some c ∧ e.src = some (.conn c.sock.id)
  writes : ∀ e id buf rest, s.pc = .write e id buf rest → e.src = some (.conn id)
  notListener : ∀ fd c, s.conns fd = some c → fd ≠ sfd
  one : ∀ fd fd' c c', s.conns fd = some c → s.conns fd' = some c' → c.sock.id = c'.sock.id → fd = fd'
  old : ∀ fd c, s.conns fd = some c → c.sock.id < s.made

/-- **No event is stale**, in any run in which `epoll_wait` returns distinct open descriptors, whatever
`read`, `close` and `accept` do while the batch is handled. -/
theorem no_staleEvent (h : (anyBatch sfd).Reachable s) : NoStale sfd s where
  same := fun e he => ((Sound.anyBatch h).owned e he).1
  isOpen := fun e he => ((Sound.anyBatch h).owned e he).2
  accepts := by
    intro e rest infd hpc
    have hsound := Sound.anyBatch h
    have hmem : e ∈ s.pc.events := by
      rcases hpc with hpc | hpc | hpc <;> simp [hpc, Pc.events]
    have hsfd : e.fd = sfd := by
      have hbranch := hsound.branch
      rcases hpc with hpc | hpc | hpc
      all_goals rwa [hpc] at hbranch
    refine ⟨hsfd, ?_⟩
    have hlistening : s.listening = true := hsound.listening hmem hsfd
    rw [← (hsound.owned e hmem).1]
    simp [Srv.owner, hlistening, hsfd]
  reads := by
    intro e rest hpc
    have hsound := Sound.anyBatch h
    have hmem : e ∈ s.pc.events := by simp [hpc, Pc.events]
    obtain ⟨howner, hsrc⟩ := hsound.owned e hmem
    have hne : e.fd ≠ sfd := hsound.read_fd hpc
    cases hc : s.conns e.fd with
    | none =>
      refine absurd ?_ hsrc
      rw [← howner]
      simp [Srv.owner, hne, hc]
    | some c => exact ⟨c, rfl, hsound.read_src hpc hc⟩
  writes := by
    intro e id buf rest hpc
    have hw := Pc.written_anyBatch h
    rwa [hpc] at hw
  notListener := by
    rintro fd c hc rfl
    rw [(Sound.anyBatch h).sfd_free] at hc
    cases hc
  one := by
    intro fd fd' c c' hc hc' hid
    apply (Identified.anyBatch h).inj fd fd' c.sock.id
    · simp [Srv.connId, hc]
    · simp [Srv.connId, hc', hid]
  old := by
    intro fd c hc
    apply ((Identified.anyBatch h).conn fd c.sock.id ?_).1
    simp [Srv.connId, hc]

/-- Connections 0 and 1 are at 5 and 6 when a third client connects and 5, 3 and 6 are reported; 5 is
closed, `accept` returns 5 for the third one, and the last event is still read from connection 1. -/
theorem no_staleEvent_reissued : ∃ s, (anyBatch 3).Reachable s ∧ NoStale 3 s ∧
    s.pc = .read ⟨6, ⟨false, false, true⟩, some (.conn 1)⟩ [] ∧ s.connId 5 = some 2 := by
  obtain ⟨s, hreach, hs⟩ := (anyBatch 3).exists_reachable_of_run
    [.runs .ok, .arrives .connect, .arrives .connect, .runs (.ready [(3, ⟨false, false, true⟩)]),
      .runs .ok, .runs (.accepted 5), .runs .ok, .runs .ok, .runs (.accepted 6), .runs .ok, .runs .ok,
      .runs (.errno .again), .arrives .connect,
      .runs (.ready [(5, ⟨true, false, true⟩), (3, ⟨false, false, true⟩), (6, ⟨false, false, true⟩)]),
      .runs .ok, .runs .ok, .runs .ok, .runs (.accepted 5), .runs .ok, .runs .ok,
      .runs (.errno .again), .runs .ok]
    (fun s => s.pc == .read ⟨6, ⟨false, false, true⟩, some (.conn 1)⟩ [] && s.connId 5 == some 2)
    (by decide +kernel)
  simp only [Bool.and_eq_true, beq_iff_eq] at hs
  exact ⟨s, hreach, no_staleEvent hreach, hs⟩

end NetProg.EpollServer
