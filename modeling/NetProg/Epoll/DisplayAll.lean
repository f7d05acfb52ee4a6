/-
# NetProg.Epoll.DisplayAll -- when everything that was received has been displayed.

An accepted connection loses bytes in three ways: a write takes a part of the buffer only; `close` follows
an event with EPOLLERR or EPOLLHUP while input is unread; `close` follows a `read` that failed with EINTR,
which the code takes for the end of the connection.  `Drains` is the condition on a step that rules these
out.  In runs that meet it, what a closed connection received was displayed, unless `read` failed with
another error.  A step that breaks it leaves the connection short for good.
-/
import NetProg.Epoll.Display

namespace NetProg.EpollServer

namespace Srv

/-- A write takes the whole buffer, and nothing is unread when a connection is closed that was reported
with an error or whose `read` was interrupted. -/
def Drains (s : Srv) (ev : Ev) : Prop :=
  match s.pc, ev with
  | .write _ _ buf _, .runs (.count n) => n = buf.length
  | .close e _, .runs .ok =>
    e.events.isError = true ∨ LogEv.readFailed e.src .intr ∈ s.log →
      ((s.conns e.fd).all fun c => c.sock.input.isEmpty) = true
  | _, _ => True

instance (s : Srv) (ev : Ev) : Decidable (s.Drains ev) := by
  cases s
  dsimp only [Drains]
  split <;> infer_instance

variable {sfd : Fd} {s s' : Srv} {ev : Ev} {i : ℕ}

/-! ## Connections that are gone -/

/-- Who is gone does not come back. -/
theorem Step.gone (hgone : s.Gone i) (hlt : i < s.made) (hstep : s.Step sfd ev s') :
    s'.Gone i ∧ i < s'.made := by
  rcases hstep.identities with hgoes | rfl | ⟨e, fd, k, queue, rest, hqueue, hfree, rfl⟩
  · refine ⟨⟨fun hin => hgone.1 (hgoes.queued.subset hin), fun fd hfd => ?_⟩, ?_⟩
    · exact hgone.2 fd (hgoes.conn fd i hfd)
    · rw [hgoes.made]
      exact hlt
  · refine ⟨⟨?_, hgone.2⟩, Nat.lt_succ_of_lt hlt⟩
    intro hin
    rw [queuedIds, Srv.connect, List.map_append, List.mem_append] at hin
    rcases hin with hin | hin
    · exact hgone.1 hin
    · have hi : i = s.made := by simpa using hin
      exact absurd hlt (by simp [hi])
  · have hids : s.queuedIds = k.id :: queue.map Sock.id := by simp [queuedIds, hqueue]
    rw [Gone, hids] at hgone
    refine ⟨⟨fun hin => hgone.1 (List.mem_cons_of_mem _ hin), ?_⟩, hlt⟩
    intro fd' hfd'
    by_cases hfd : fd' = fd
    · subst hfd
      have hk : k.id = i := by simpa [connId, Srv.accepted] using hfd'
      exact hgone.1 (by simp [hk])
    · apply hgone.2 fd'
      rw [← hfd']
      exact (connId_setConn_of_ne _ _ hfd).symm

theorem Step.made_le (hstep : s.Step sfd ev s') : s.made ≤ s'.made := by
  rcases hstep.identities with hgoes | rfl | ⟨e, fd, k, queue, rest, -, -, rfl⟩
  · exact Nat.le_of_eq hgoes.made.symm
  · exact Nat.le_succ s.made
  · exact Nat.le_refl _

/-- A connection holds nothing once it is gone. -/
theorem Gone.holds (hgone : s.Gone i) {h : List UInt8} (hholds : s.Holds i h) : h = [] := by
  cases hholds with
  | queued hk hid => exact absurd (hid ▸ mem_queuedIds hk) hgone.1
  | reading hk hid => exact absurd (hid ▸ connId_of_sockAt hk) (hgone.2 _)
  | gone hqueued hconn => rfl

/-- The log grows by one entry at most, and a connection is closed by `close` only. -/
theorem Step.log (hstep : s.Step sfd ev s') :
    s'.log = s.log ∨ ∃ x, s'.log = s.log ++ [x] ∧ ∀ t, x = .closed t →
      ∃ e rest, s.pc = .close e rest ∧ t = s.owner sfd e.fd ∧ s.Goes s' ∧
        (t ≠ some .listener → s'.connId e.fd = none) := by
  cases hstep with
  | connect hopen => exact .inl rfl
  | abandon hi => exact .inl rfl
  | queued hk hmay => exact .inr ⟨_, rfl, by simp⟩
  | input hc hmay => exact .inr ⟨_, rfl, by simp⟩
  | hangup hc => exact .inl rfl
  | register halive hpc => exact .inl rfl
  | abort halive hpc => exact .inl rfl
  | report halive hpc hmay => exact .inl rfl
  | dispatch halive hpc =>
    unfold Srv.dispatch
    split_ifs
    · exact .inr ⟨_, rfl, by simp⟩
    all_goals exact .inl rfl
  | accepted halive hpc hqueue hfree => exact .inl rfl
  | acceptFailed halive hpc hn =>
    unfold Srv.acceptFailed
    split_ifs
    · exact .inl rfl
    · exact .inr ⟨_, rfl, by simp⟩
  | nonBlocking halive hpc => exact .inl rfl
  | watch halive hpc => exact .inl rfl
  | readCount halive hpc hc hn =>
    unfold Srv.readCount
    split_ifs <;> exact .inl rfl
  | readFailed halive hpc hn =>
    unfold Srv.readFailed
    split_ifs
    · exact .inl rfl
    · exact .inr ⟨_, rfl, by simp⟩
  | write halive hpc hn => exact .inr ⟨_, rfl, by simp⟩
  | writeFailed halive hpc => exact .inl rfl
  | @close e rest halive hpc =>
    refine .inr ⟨.closed (s.owner sfd e.fd), ?_, ?_⟩
    · show (s.closeFd sfd e.fd).log ++ _ = s.log ++ _
      unfold closeFd
      split_ifs <;> rfl
    · intro t ht
      have ht : t = s.owner sfd e.fd := by simpa using ht.symm
      refine ⟨e, rest, hpc, ht, .closeFd s e.fd rest _, fun hconn => ?_⟩
      have hl : ¬ (s.listening = true ∧ e.fd = sfd) := fun hl => hconn (by simp [ht, owner, hl])
      show (s.closeFd sfd e.fd).connId e.fd = none
      rw [closeFd, if_neg hl, connId_setConn_self]
      rfl

theorem Step.log_subset (hstep : s.Step sfd ev s') : s.log ⊆ s'.log := by
  rcases hstep.log with hlog | ⟨x, hlog, -⟩
  · rw [hlog]
    exact List.Subset.refl _
  · rw [hlog]
    exact List.subset_append_left _ _

theorem Step.broken (hstep : s.Step sfd ev s') (h : Broken i s.log) : Broken i s'.log := by
  obtain ⟨n, hn, hne⟩ := h
  exact ⟨n, hstep.log_subset hn, hne⟩

/-- A connection that is closed was open until then, and is gone. -/
theorem Step.closed (hids : Identified s) (hstep : s.Step sfd ev s')
    (h : LogEv.closed (some (.conn i)) ∈ s'.log) :
    LogEv.closed (some (.conn i)) ∈ s.log ∨
      (∃ e rest, s.pc = .close e rest ∧ s.connId e.fd = some i) ∧ s'.Gone i ∧ i < s'.made := by
  rcases hstep.log with hlog | ⟨x, hlog, hx⟩
  · exact .inl (hlog ▸ h)
  · rw [hlog, List.mem_append, List.mem_singleton] at h
    rcases h with h | h
    · exact .inl h
    · obtain ⟨e, rest, hpc, howner, hgoes, hnone⟩ := hx _ h.symm
      have hfd : s.connId e.fd = some i := by
        by_cases hl : s.listening = true ∧ e.fd = sfd
        · simp [owner, hl] at howner
        · cases hc : s.conns e.fd with
          | none => simp [owner, hl, hc] at howner
          | some c =>
            have hid : i = c.sock.id := by simpa [owner, hl, hc] using howner
            simp [connId, hc, hid]
      obtain ⟨hlt, hqueued⟩ := hids.conn e.fd i hfd
      refine .inr ⟨⟨e, rest, hpc, hfd⟩, ⟨fun hin => hqueued (hgoes.queued.subset hin), ?_⟩, ?_⟩
      · intro fd hi
        have hsame : fd = e.fd := hids.inj fd e.fd i (hgoes.conn fd i hi) hfd
        rw [hsame, hnone (by simp)] at hi
        cases hi
      · rw [hgoes.made]
        exact hlt

/-! ## Why a connection is closed -/

/-- Before `close`: the event was an error; or `read` failed, not with EAGAIN; or all is read up to the
end of file. -/
def CloseReason (s : Srv) : Prop :=
  match s.pc with
  | .close e _ => e.events.isError = true ∨ (∃ n, LogEv.readFailed e.src n ∈ s.log ∧ n ≠ .again) ∨
      ∀ k, s.sockAt e.fd = some k → k.input = [] ∧ k.eof = true
  | _ => True

/-- What arrives does not take the reason away. -/
theorem CloseReason.arrives (h : s.CloseReason) (hpc : s'.pc = s.pc) (hlog : s.log ⊆ s'.log)
    (hsock : ∀ fd k', s'.sockAt fd = some k' → ∃ k, s.sockAt fd = some k ∧
      (k.eof = true → k'.input = k.input ∧ k'.eof = true)) : s'.CloseReason := by
  unfold CloseReason at h ⊢
  rw [hpc]
  split at h
  · rcases h with herr | ⟨n, hn, hne⟩ | hread
    · exact .inl herr
    · exact .inr (.inl ⟨n, hlog hn, hne⟩)
    · refine .inr (.inr fun k' hk' => ?_)
      obtain ⟨k, hk, hkeep⟩ := hsock _ k' hk'
      obtain ⟨hinput, heof⟩ := hread k hk
      obtain ⟨hinput', heof'⟩ := hkeep heof
      exact ⟨hinput'.trans hinput, heof'⟩
  · trivial

/-- Between two events nothing is to be closed. -/
theorem closeReason_next {es : List Event} (hpc : s.pc = .next es) : s.CloseReason := by
  unfold CloseReason
  rw [hpc]
  cases es <;> trivial

theorem Step.closeReason (hsound : Sound sfd s) (h : s.CloseReason) (hstep : s.Step sfd ev s') :
    s'.CloseReason := by
  have hlog := hstep.log_subset
  cases hstep with
  | connect hopen => exact h.arrives rfl hlog fun fd k hk => ⟨k, hk, fun heof => ⟨rfl, heof⟩⟩
  | abandon hi => exact h.arrives rfl hlog fun fd k hk => ⟨k, hk, fun heof => ⟨rfl, heof⟩⟩
  | queued hk hmay => exact h.arrives rfl hlog fun fd k hk => ⟨k, hk, fun heof => ⟨rfl, heof⟩⟩
  | @input fd inp c hc hmay =>
    refine h.arrives rfl hlog fun fd' k' hk' => ?_
    by_cases hfd : fd' = fd
    · subst hfd
      refine ⟨c.sock, sockAt_of_conns hc, fun heof => ?_⟩
      -- nothing follows an end of file
      cases inp with
      | data bytes => exact absurd heof (by simp [hmay.2])
      | eof => exact absurd heof (by simp [show c.sock.eof = false from hmay])
    · refine ⟨k', ?_, fun heof => ⟨rfl, heof⟩⟩
      rw [← hk']
      exact (sockAt_setConn_of_ne s _ hfd).symm
  | @hangup fd c hc =>
    have hsame : (s.setConn fd (some c.hangup)).sockAt = s.sockAt := sockAt_setConn hc rfl
    exact h.arrives rfl hlog fun fd' k' hk' => ⟨k', hsame ▸ hk', fun heof => ⟨rfl, heof⟩⟩
  | register halive hpc => trivial
  | abort halive hpc => exact h.arrives rfl hlog fun fd k hk => ⟨k, hk, fun heof => ⟨rfl, heof⟩⟩
  | report halive hpc hmay => exact closeReason_next rfl
  | dispatch halive hpc =>
    unfold Srv.dispatch
    split_ifs with herr
    · exact .inl herr
    all_goals trivial
  | accepted halive hpc hqueue hfree => trivial
  | acceptFailed halive hpc hn =>
    unfold Srv.acceptFailed
    split_ifs <;> exact closeReason_next rfl
  | nonBlocking halive hpc => trivial
  | watch halive hpc => trivial
  | @readCount e rest c n halive hpc hc hn =>
    unfold Srv.readCount
    split_ifs with hzero
    · refine .inr (.inr fun k hk => ?_)
      have hk : s.sockAt e.fd = some k := hk
      rw [sockAt_of_conns hc, Option.some.injEq] at hk
      rw [← hk]
      simpa [Sock.MayCount, hzero] using hn
    · trivial
  | @readFailed e rest n halive hpc hn =>
    unfold Srv.readFailed
    split_ifs with hagain
    · exact closeReason_next rfl
    · have howner := (hsound.owned e (by simp [hpc, Pc.events])).1
      refine .inr (.inl ⟨n, ?_, hagain⟩)
      rw [howner]
      exact List.mem_append_right _ List.mem_cons_self
  | write halive hpc hn => trivial
  | writeFailed halive hpc =>
    exact h.arrives rfl hlog fun fd k hk => ⟨k, hk, fun heof => ⟨rfl, heof⟩⟩
  | close halive hpc => exact closeReason_next rfl

end Srv

/-! ## Every run -/

section Runs

variable {sfd : Fd} {s s' : Srv} {i : ℕ}

theorem Identified.reachable (h : (server sfd).Reachable s) : Identified s :=
  Identified.anyBatch (anyBatch_of_server h)

theorem Srv.Step.accounts_reachable {ev : Ev} (h : (server sfd).Reachable s)
    (hstep : (server sfd).step s ev = some s') (i : ℕ) : s.Accounts ev s' i :=
  (Srv.step_cases hstep).accounts (Sound.reachable h) (Identified.reachable h)
    (Pc.written_anyBatch (anyBatch_of_server h)) i

/-- **What is displayed of a connection was received on it, each byte once and in order**, in every run. -/
theorem ledger_inOrder (h : (server sfd).Reachable s) {held : List UInt8} (hholds : s.Holds i held) :
    (s.ledger i held).InOrder := by
  refine (server sfd).invariant (P := fun s => ∀ held, s.Holds i held → (s.ledger i held).InOrder)
    ?_ ?_ h held hholds
  · intro held hholds
    have hgone : Srv.start.Gone i := ⟨List.not_mem_nil, fun fd hfd => by cases hfd⟩
    rw [hgone.holds hholds]
    exact List.nil_sublist _
  · intro s ev s' hreach ih hstep held' hholds'
    obtain ⟨held, lost, hholds, hmove, -⟩ := Srv.Step.accounts_reachable hreach hstep i held' hholds'
    exact hmove.inOrder (ih held hholds)

/-- A connection that was closed is gone. -/
theorem gone_of_closed (h : (server sfd).Reachable s)
    (hclosed : LogEv.closed (some (.conn i)) ∈ s.log) : s.Gone i ∧ i < s.made := by
  refine (server sfd).invariant
    (P := fun s => LogEv.closed (some (.conn i)) ∈ s.log → s.Gone i ∧ i < s.made) ?_ ?_ h hclosed
  · intro hclosed
    cases hclosed
  · intro s ev s' hreach ih hstep hclosed
    have hstep := Srv.step_cases hstep
    rcases hstep.closed (Identified.reachable hreach) hclosed with hwas | ⟨-, hgone, hlt⟩
    · obtain ⟨hgone, hlt⟩ := ih hwas
      exact hstep.gone hgone hlt
    · exact ⟨hgone, hlt⟩

theorem closeReason_reachable (h : (server sfd).Reachable s) : s.CloseReason := by
  refine (server sfd).invariant (P := Srv.CloseReason) trivial ?_ h
  intro s ev s' hreach ih hstep
  exact (Srv.step_cases hstep).closeReason (Sound.reachable hreach) ih

/-! ## Runs that meet the condition -/

/-- Nothing of `i` is lost, or it is gone: before it was accepted, or after an error of `read`. -/
def Settled (s : Srv) (i : ℕ) : Prop :=
  (∀ held, s.Holds i held → (s.ledger i held).Owes 0) ∨
    s.Gone i ∧ i < s.made ∧ (LogEv.closed (some (.conn i)) ∈ s.log → Broken i s.log)

/-- A connection that loses bytes in spite of the condition goes: it was queued, or it had an error. -/
theorem gone_of_loses (h : (server sfd).Reachable s) {ev : Ev} (hdrains : s.Drains ev)
    (hloses : s.Loses i ev s') : s'.Gone i ∧ i < s.made ∧ (i ∈ s.queuedIds ∨ Broken i s.log) := by
  cases hloses with
  | @write e buf rest n s' hpc hn =>
    have hall : n = buf.length := by simpa [Srv.Drains, hpc] using hdrains
    exact absurd hn (by simp [hall])
  | @close e rest k s' hpc hk hid hinput hgone =>
    have hlt : i < s.made := by
      apply ((Identified.reachable h).conn e.fd i _).1
      exact hid ▸ Srv.connId_of_sockAt hk
    refine ⟨hgone, hlt, .inr ?_⟩
    have hreason := closeReason_reachable h
    have hsrc : e.src = some (.conn i) := by
      obtain ⟨c, hc, rfl⟩ := Option.map_eq_some_iff.mp hk
      have hne : e.fd ≠ sfd := by
        intro hsfd
        rw [hsfd, (Sound.reachable h).sfd_free] at hc
        cases hc
      rw [← ((Sound.reachable h).owned e (by simp [hpc, Pc.events])).1, ← hid]
      simp [Srv.owner, hne, hc]
    have hread : e.events.isError = true ∨ LogEv.readFailed e.src .intr ∈ s.log → False := by
      intro hbad
      have hempty : ((s.conns e.fd).all fun c => c.sock.input.isEmpty) = true := by
        simp only [Srv.Drains, hpc] at hdrains
        exact hdrains hbad
      obtain ⟨c, hc, rfl⟩ := Option.map_eq_some_iff.mp hk
      exact hinput (by simpa [hc] using hempty)
    simp only [Srv.CloseReason, hpc] at hreason
    rcases hreason with herr | ⟨n, hn, hagain⟩ | hall
    · exact (hread (.inl herr)).elim
    · refine ⟨n, hsrc ▸ hn, hagain, ?_⟩
      rintro rfl
      exact hread (.inr hn)
    · exact absurd (hall k hk).1 hinput
  | queued hqueued hgone =>
    exact ⟨hgone, (Identified.reachable h).queued i hqueued, .inl hqueued⟩

theorem Settled.step (h : (server sfd).Reachable s) (hs : Settled s i) {ev : Ev}
    (hdrains : s.Drains ev) (hstep : (server sfd).step s ev = some s') : Settled s' i := by
  have hids : Identified s := Identified.reachable h
  have haccounts := Srv.Step.accounts_reachable h hstep i
  have hrel := Srv.step_cases hstep
  rcases hs with howes | ⟨hgone, hlt, hbroken⟩
  · by_cases hloses : s.Loses i ev s'
    · obtain ⟨hgone, hlt, hwhy⟩ := gone_of_loses h hdrains hloses
      refine .inr ⟨hgone, Nat.lt_of_lt_of_le hlt hrel.made_le, fun hclosed => ?_⟩
      rcases hwhy with hqueued | hbroken
      · -- it was never accepted, so nobody closes it
        exfalso
        rcases hrel.closed hids hclosed with hwas | ⟨⟨e, rest, -, hfd⟩, -⟩
        · exact (gone_of_closed h hwas).1.1 hqueued
        · exact (hids.conn e.fd i hfd).2 hqueued
      · exact hrel.broken hbroken
    · refine .inl fun held' hholds' => ?_
      obtain ⟨held, lost, hholds, hmove, hlost⟩ := haccounts held' hholds'
      have hnone : lost = [] := by
        by_contra hne
        exact hloses (hlost hne)
      subst hnone
      exact hmove.owes (howes held hholds)
  · obtain ⟨hgone', hlt'⟩ := hrel.gone hgone hlt
    refine .inr ⟨hgone', hlt', fun hclosed => ?_⟩
    rcases hrel.closed hids hclosed with hwas | ⟨⟨e, rest, -, hfd⟩, -⟩
    · exact hrel.broken (hbroken hwas)
    · exact absurd hfd (hgone.2 e.fd)

theorem settled (h : ((server sfd).restrict Srv.Drains).Reachable s) : Settled s i := by
  refine (server sfd).restrict_invariant (P := fun s => Settled s i) ?_ ?_ h
  · refine .inl fun held hholds => ?_
    have hgone : Srv.start.Gone i := ⟨List.not_mem_nil, fun fd hfd => by cases hfd⟩
    rw [hgone.holds hholds]
    rfl
  · intro s ev s' hreach ih hdrains hstep
    exact ih.step hreach hdrains hstep

/-! ## Runs that do not -/

/-- Something of `i` is lost. -/
def Short (s : Srv) (i : ℕ) : Prop := ∀ held, s.Holds i held → ∃ n, 0 < n ∧ (s.ledger i held).Owes n

/-- What is lost stays lost. -/
theorem Short.step (h : (server sfd).Reachable s) (hs : Short s i) {ev : Ev}
    (hstep : (server sfd).step s ev = some s') : Short s' i := by
  intro held' hholds'
  obtain ⟨held, lost, hholds, hmove, -⟩ := Srv.Step.accounts_reachable h hstep i held' hholds'
  obtain ⟨n, hpos, howes⟩ := hs held hholds
  exact ⟨n + lost.length, Nat.lt_of_lt_of_le hpos (Nat.le_add_right _ _), hmove.owes howes⟩

theorem Short.run (h : (server sfd).Reachable s) (hs : Short s i) {es : List Ev}
    (hrun : (server sfd).runFrom s es = some s') :
    (displayed i s'.log).length < (received i s'.log).length := by
  have hkept := (server sfd).runFrom_induction
    (P := fun s => (server sfd).Reachable s ∧ Short s i) es ?_ ⟨h, hs⟩ hrun
  · obtain ⟨held, hholds⟩ := s'.exists_holds i
    obtain ⟨n, hpos, howes⟩ := hkept.2 held hholds
    exact howes.short hpos
  · rintro s ev s' - ⟨hreach, hshort⟩ hstep
    exact ⟨.step ev hreach hstep, hshort.step hreach hstep⟩

/-- A connection that loses something is short, if it holds one thing only. -/
theorem short_of_move (h : (server sfd).Reachable s) {held held' lost : List UInt8}
    (hholds : s.Holds i held) (honly : ∀ held'', s'.Holds i held'' → held'' = held')
    (hmove : Ledger.Move lost (s.ledger i held) (s'.ledger i held')) (hlost : lost ≠ []) :
    Short s' i := by
  intro held'' hholds'
  obtain ⟨n, howes⟩ := (ledger_inOrder h hholds).owes
  rw [honly held'' hholds']
  refine ⟨n + lost.length, ?_, hmove.owes howes⟩
  have hpos : 0 < lost.length := List.length_pos_iff.mpr hlost
  omega

/-- **A step that breaks the condition loses something for good.** -/
theorem exists_short (h : (server sfd).Reachable s) {ev : Ev} (hbroken : ¬ s.Drains ev)
    (hstep : (server sfd).step s ev = some s') : ∃ i, Short s' i := by
  have hids : Identified s := Identified.reachable h
  have hids' : Identified s' := Identified.reachable (.step ev h hstep)
  have hrel := Srv.step_cases hstep
  cases hrel with
  | @write e id buf rest n halive hpc hn =>
    have hne : n ≠ buf.length := by simpa [Srv.Drains, hpc] using hbroken
    obtain ⟨k, hk, hid⟩ := Srv.exists_write_sock (Sound.reachable h)
      (Pc.written_anyBatch (anyBatch_of_server h)) hpc
    refine ⟨id, short_of_move h (Srv.holds_write hpc hk hid) ?_
      (Srv.ledger_write s (.read e rest) id n buf k.input) ?_⟩
    · intro held hholds
      exact hholds.at_fd hids' hk hid
    · intro hdrop
      have hlen : buf.length - n = 0 := by rw [← List.length_drop, hdrop, List.length_nil]
      omega
  | @close e rest halive hpc =>
    have hleft : (e.events.isError = true ∨ LogEv.readFailed e.src .intr ∈ s.log) ∧
        ((s.conns e.fd).all fun c => c.sock.input.isEmpty) = false := by
      simpa only [Srv.Drains, hpc, Classical.not_imp, Bool.not_eq_true] using hbroken
    cases hc : s.conns e.fd with
    | none => simp [hc] at hleft
    | some c =>
      have hinput : c.sock.input ≠ [] := by simpa [hc] using hleft.2
      have hk : s.sockAt e.fd = some c.sock := Srv.sockAt_of_conns hc
      have hwas : s.Holds c.sock.id c.sock.input := by
        have hread : s.Holds c.sock.id (s.pc.inHand c.sock.id ++ c.sock.input) := .reading hk rfl
        rwa [hpc] at hread
      have howner : s.owner sfd e.fd = some (.conn c.sock.id) := by
        have hne : e.fd ≠ sfd := by
          intro hsfd
          rw [hsfd, (Sound.reachable h).sfd_free] at hc
          cases hc
        simp [Srv.owner, hne, hc]
      have hgone := gone_of_closed (i := c.sock.id) (.step _ h hstep) (by
        rw [howner]
        exact List.mem_append_right _ List.mem_cons_self)
      refine ⟨c.sock.id, short_of_move h hwas (fun held => hgone.1.holds) ?_ hinput⟩
      rw [Srv.ledger_close]
      exact .drop _ _ _
  | register halive hpc => simp [Srv.Drains, hpc] at hbroken
  | dispatch halive hpc => simp [Srv.Drains, hpc] at hbroken
  | nonBlocking halive hpc => simp [Srv.Drains, hpc] at hbroken
  | watch halive hpc => simp [Srv.Drains, hpc] at hbroken
  | readCount halive hpc hc hn => simp [Srv.Drains, hpc] at hbroken
  | _ => simp [Srv.Drains] at hbroken

/-- **The runs that meet the condition display everything, and a step that breaks it never does.** In the
first half, what a connection received before its descriptor was closed was displayed in order, unless
`read` failed on it with an error other than EAGAIN and EINTR.  In the second, some connection has less
displayed than received from then on, whatever follows. -/
theorem displayed_eq_received (sfd : Fd) :
    (∀ s i, ((server sfd).restrict Srv.Drains).Reachable s →
      LogEv.closed (some (.conn i)) ∈ s.log → ¬ Broken i s.log →
      displayed i s.log = received i s.log) ∧
    ∀ s ev s', (server sfd).Reachable s → ¬ s.Drains ev → (server sfd).step s ev = some s' →
      ∃ i, ∀ es t, (server sfd).runFrom s' es = some t →
        (displayed i t.log).length < (received i t.log).length := by
  constructor
  · intro s i hreach hclosed hnot
    have hreal : (server sfd).Reachable s := (server sfd).reachable_of_restrict hreach
    obtain ⟨hgone, -⟩ := gone_of_closed hreal hclosed
    have hholds : s.Holds i [] := .gone hgone.1 hgone.2
    rcases settled hreach with howes | ⟨-, -, hbroken⟩
    · have hall := (ledger_inOrder hreal hholds).complete (howes [] hholds)
      simpa [Srv.ledger] using hall.symm
    · exact absurd (hbroken hclosed) hnot
  · intro s ev s' hreach hbroken hstep
    obtain ⟨i, hshort⟩ := exists_short hreach hbroken hstep
    exact ⟨i, fun es t hrun => hshort.run (.step ev hreach hstep) hrun⟩

/-- A client connects, is accepted at 5, and sends two bytes. -/
def twoBytes : List Ev :=
  [.runs .ok, .arrives .connect, .runs (.ready [(3, ⟨false, false, true⟩)]), .runs .ok,
    .runs (.accepted 5), .runs .ok, .runs .ok, .runs (.errno .again),
    .arrives (.input 5 (.data [104, 105]))]

/-- First half: the client ends its stream, and all is read.  Second half: its two bytes are written one
at a time. -/
theorem displayed_eq_received_two :
    (∃ s, ((server 3).restrict Srv.Drains).Reachable s ∧ LogEv.closed (some (.conn 0)) ∈ s.log ∧
      displayed 0 s.log = received 0 s.log ∧ received 0 s.log = [104, 105]) ∧
    ∃ s i, (server 3).Reachable s ∧ ∀ es t, (server 3).runFrom s es = some t →
      (displayed i t.log).length < (received i t.log).length := by
  constructor
  · obtain ⟨s, hreach, hs⟩ := ((server 3).restrict Srv.Drains).exists_reachable_of_run
      (twoBytes ++ [.arrives (.input 5 .eof), .runs (.ready [(5, ⟨false, false, true⟩)]), .runs .ok,
        .runs (.count 2), .runs (.count 2), .runs (.count 0), .runs .ok])
      (fun s => s.log == [.received 0 (.data [104, 105]), .received 0 .eof, .displayed 0 [104, 105],
        .closed (some (.conn 0))]) (by decide +kernel)
    have hlog := eq_of_beq hs
    have hclosed : LogEv.closed (some (.conn 0)) ∈ s.log := by simp [hlog]
    have hnot : ¬ Broken 0 s.log := by simp [Broken, hlog]
    refine ⟨s, hreach, hclosed, (displayed_eq_received 3).1 s 0 hreach hclosed hnot, ?_⟩
    rw [hlog]
    rfl
  · obtain ⟨s, hreach, hs⟩ := (server 3).exists_reachable_of_run
      (twoBytes ++ [.runs (.ready [(5, ⟨false, false, true⟩)]), .runs .ok, .runs (.count 2)])
      (fun s => !decide (s.Drains (.runs (.count 1))) &&
        ((server 3).step s (.runs (.count 1))).isSome) (by decide +kernel)
    simp only [Bool.and_eq_true, Bool.not_eq_true', decide_eq_false_iff_not] at hs
    obtain ⟨hbroken, hwrites⟩ := hs
    obtain ⟨s', hstep⟩ := Option.isSome_iff_exists.mp hwrites
    obtain ⟨i, hshort⟩ := (displayed_eq_received 3).2 s _ s' hreach hbroken hstep
    exact ⟨s', i, .step _ hreach hstep, hshort⟩

/-- **The last bytes of a connection are never displayed** when its event has EPOLLHUP beside EPOLLIN: no
`read` has failed, and what was received is neither read nor written. -/
theorem displayed_ne_received : ∃ s i, (server 3).Reachable s ∧
    LogEv.closed (some (.conn i)) ∈ s.log ∧ (∀ n, LogEv.readFailed (some (.conn i)) n ∉ s.log) ∧
    displayed i s.log = [] ∧ received i s.log = [104, 105] := by
  obtain ⟨s, hreach, hs⟩ := (server 3).exists_reachable_of_run
    (twoBytes ++ [.arrives (.hangup 5), .runs (.ready [(5, ⟨false, true, true⟩)]), .runs .ok, .runs .ok])
    (fun s => s.log == [.received 0 (.data [104, 105]), .epollError, .closed (some (.conn 0))])
    (by decide +kernel)
  have hlog := eq_of_beq hs
  refine ⟨s, 0, hreach, by simp [hlog], by simp [hlog], ?_, ?_⟩
  · rw [hlog]
    rfl
  · rw [hlog]
    rfl

end Runs

end NetProg.EpollServer
