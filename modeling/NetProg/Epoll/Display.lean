/-
# NetProg.Epoll.Display -- what is received on a connection, and what is shown of it.

`Srv.ledger` is the account of one connection: what it received and what was written to standard output for
it, as the log has them, and the bytes that are still to be written, in the hand of the server or unread
(`Srv.Holds`).  A connection is queued, open or gone, and every step moves its account by the rules of
`Ledger.Move`; `Srv.Loses` lists the steps that lose something.
-/
import NetProg.Base.Ledger
import NetProg.Epoll.StaleEvents

namespace NetProg.EpollServer

/-! ## The account of a connection -/

def Input.bytes : Input → List UInt8
  | .data bytes => bytes
  | .eof => []

theorem Sock.receive_input (k : Sock) (inp : Input) : (k.receive inp).input = k.input ++ inp.bytes := by
  cases inp with
  | data bytes => rfl
  | eof => exact (List.append_nil _).symm

/-- The bytes that a connection received. -/
def LogEv.receivedBy (i : ℕ) : LogEv → List UInt8
  | .received id inp => if id = i then inp.bytes else []
  | _ => []

/-- The bytes that were written to standard output for a connection. -/
def LogEv.displayedFor (i : ℕ) : LogEv → List UInt8
  | .displayed id bytes => if id = i then bytes else []
  | _ => []

def received (i : ℕ) (log : List LogEv) : List UInt8 := log.flatMap (LogEv.receivedBy i)

def displayed (i : ℕ) (log : List LogEv) : List UInt8 := log.flatMap (LogEv.displayedFor i)

/-- `read` failed on the connection with an error that is neither EAGAIN nor EINTR. -/
def Broken (i : ℕ) (log : List LogEv) : Prop :=
  ∃ n, LogEv.readFailed (some (.conn i)) n ∈ log ∧ n ≠ .again ∧ n ≠ .intr

/-- The bytes in the server's hand. -/
def Pc.inHand (i : ℕ) : Pc → List UInt8
  | .write _ id buf _ => if id = i then buf else []
  | _ => []

@[simp] theorem Pc.inHand_next (i : ℕ) (es : List Event) : (Pc.next es).inHand i = [] := by
  cases es <;> rfl

namespace Srv

/-- The connection `i` has the bytes `h` to be written yet; when it is gone, none. -/
inductive Holds (s : Srv) (i : ℕ) : List UInt8 → Prop where
  | queued {k} (hk : k ∈ s.backlog) (hid : k.id = i) : Holds s i k.input
  | reading {fd k} (hk : s.sockAt fd = some k) (hid : k.id = i) : Holds s i (s.pc.inHand i ++ k.input)
  | gone (hqueued : i ∉ s.queuedIds) (hconn : ∀ fd, s.connId fd ≠ some i) : Holds s i []

def ledger (s : Srv) (i : ℕ) (h : List UInt8) : Ledger UInt8 :=
  ⟨received i s.log, displayed i s.log, h⟩

/-- The connection is neither queued nor open. -/
def Gone (s : Srv) (i : ℕ) : Prop := i ∉ s.queuedIds ∧ ∀ fd, s.connId fd ≠ some i

variable {sfd fd : Fd} {s s' : Srv} {i : ℕ} {h : List UInt8}

theorem connId_of_sockAt {k : Sock} (hk : s.sockAt fd = some k) : s.connId fd = some k.id := by
  rw [connId_eq, hk]
  rfl

theorem mem_queuedIds {k : Sock} (hk : k ∈ s.backlog) : k.id ∈ s.queuedIds :=
  List.mem_map_of_mem hk

theorem sockAt_of_conns {c : Conn} (hc : s.conns fd = some c) : s.sockAt fd = some c.sock := by
  rw [sockAt, hc]
  rfl

/-- A connection whose input stays. -/
theorem sockAt_setConn {c c' : Conn} (hc : s.conns fd = some c) (hsock : c'.sock = c.sock) :
    (s.setConn fd (some c')).sockAt = s.sockAt := by
  funext fd'
  by_cases hfd : fd' = fd
  · subst hfd
    rw [sockAt_setConn_self, sockAt_of_conns hc, Option.map_some, hsock]
  · exact sockAt_setConn_of_ne s _ hfd

/-- One more entry of the log. -/
theorem ledger_logs (s : Srv) (i : ℕ) (h : List UInt8) (e : LogEv) :
    (s.logs [e]).ledger i h =
      ⟨received i s.log ++ e.receivedBy i, displayed i s.log ++ e.displayedFor i, h⟩ := by
  simp only [ledger, logs, received, displayed, List.flatMap_append, List.flatMap_singleton]

/-- The log may grow by an entry about something else. -/
theorem ledger_logs_other {e : LogEv} (hreceived : e.receivedBy i = [])
    (hdisplayed : e.displayedFor i = []) : (s.logs [e]).ledger i h = s.ledger i h := by
  rw [ledger_logs, hreceived, hdisplayed, List.append_nil, List.append_nil]
  rfl

/-- A connection is somewhere. -/
theorem exists_holds (s : Srv) (i : ℕ) : ∃ h, s.Holds i h := by
  by_cases hqueued : i ∈ s.queuedIds
  · obtain ⟨k, hk, hid⟩ := List.mem_map.mp hqueued
    exact ⟨_, .queued hk hid⟩
  · by_cases hconn : ∃ fd, s.connId fd = some i
    · obtain ⟨fd, hfd⟩ := hconn
      rw [connId_eq, Option.map_eq_some_iff] at hfd
      obtain ⟨k, hk, hid⟩ := hfd
      exact ⟨_, .reading hk hid⟩
    · exact ⟨[], .gone hqueued (not_exists.mp hconn)⟩

/-- Where a connection is depends on the backlog, on the sockets and on what is in hand. -/
theorem Holds.congr (hholds : s'.Holds i h) (hbacklog : s'.backlog = s.backlog)
    (hsock : s'.sockAt = s.sockAt) (hhand : s'.pc.inHand i = s.pc.inHand i) : s.Holds i h := by
  cases hholds with
  | queued hk hid => exact .queued (hbacklog ▸ hk) hid
  | reading hk hid =>
    rw [hhand]
    exact .reading (hsock ▸ hk) hid
  | gone hqueued hconn =>
    refine .gone ?_ ?_
    · rwa [queuedIds, hbacklog] at hqueued
    · intro fd
      rw [connId_eq, ← hsock, ← connId_eq]
      exact hconn fd

/-- The connections at other descriptors stay where they are. -/
theorem Holds.congr_ne (hholds : s'.Holds i h) (fd : Fd) (hbacklog : s'.backlog = s.backlog)
    (hsock : ∀ fd', fd' ≠ fd → s'.sockAt fd' = s.sockAt fd') (hwas : s.connId fd ≠ some i)
    (his : s'.connId fd ≠ some i) (hhand : s'.pc.inHand i = s.pc.inHand i) : s.Holds i h := by
  cases hholds with
  | queued hk hid => exact .queued (hbacklog ▸ hk) hid
  | @reading fd' k hk hid =>
    have hne : fd' ≠ fd := by
      rintro rfl
      exact his (hid ▸ connId_of_sockAt hk)
    rw [hhand]
    exact .reading ((hsock fd' hne).symm.trans hk) hid
  | gone hqueued hconn =>
    refine .gone ?_ ?_
    · rwa [queuedIds, hbacklog] at hqueued
    · intro fd'
      by_cases hfd : fd' = fd
      · rwa [hfd]
      · rw [connId_eq, ← hsock fd' hfd, ← connId_eq]
        exact hconn fd'

/-- What an open connection holds. -/
theorem Holds.at_fd (hholds : s.Holds i h) (hids : Identified s) {k : Sock} (hk : s.sockAt fd = some k)
    (hid : k.id = i) : h = s.pc.inHand i ++ k.input := by
  have hfd : s.connId fd = some i := hid ▸ connId_of_sockAt hk
  cases hholds with
  | queued hk' hid' => exact absurd (hid' ▸ mem_queuedIds hk') (hids.conn fd i hfd).2
  | @reading fd' k' hk' hid' =>
    have hsame : fd' = fd := hids.inj fd' fd i (hid' ▸ connId_of_sockAt hk') hfd
    rw [hsame, hk, Option.some.injEq] at hk'
    rw [hk']
  | gone hqueued hconn => exact absurd hfd (hconn fd)

/-! ## What a step does to the account -/

/-- The step loses bytes of the connection `i`: a part of the buffer is not written; or the descriptor is
closed with input that was not read; or the connection goes before it was accepted. -/
inductive Loses (s : Srv) (i : ℕ) : Ev → Srv → Prop where
  | write {e buf rest n s'} (hpc : s.pc = .write e i buf rest) (hn : n < buf.length) :
      Loses s i (.runs (.count n)) s'
  | close {e rest k s'} (hpc : s.pc = .close e rest) (hk : s.sockAt e.fd = some k) (hid : k.id = i)
      (hinput : k.input ≠ []) (hgone : s'.Gone i) : Loses s i (.runs .ok) s'
  | queued {ev s'} (hqueued : i ∈ s.queuedIds) (hgone : s'.Gone i) : Loses s i ev s'

/-- The account of `i` moves, and loses something by `Loses` only. -/
def Accounts (s : Srv) (ev : Ev) (s' : Srv) (i : ℕ) : Prop :=
  ∀ h', s'.Holds i h' → ∃ h lost, s.Holds i h ∧ Ledger.Move lost (s.ledger i h) (s'.ledger i h') ∧
    (lost ≠ [] → s.Loses i ev s')

variable {ev : Ev}

/-- Nothing moves. -/
theorem accounts_same (hbacklog : s'.backlog = s.backlog) (hsock : s'.sockAt = s.sockAt)
    (hhand : s'.pc.inHand i = s.pc.inHand i) (hledger : ∀ h, s'.ledger i h = s.ledger i h) :
    s.Accounts ev s' i := by
  intro h' hholds
  exact ⟨h', [], hholds.congr hbacklog hsock hhand, .of_eq (hledger h'), absurd rfl⟩

theorem accounts_connect (hids : Identified s) : s.Accounts ev s.connect i := by
  intro h' hholds
  refine ⟨h', [], ?_, .refl _, absurd rfl⟩
  cases hholds with
  | @queued k hk hid =>
    have hk : k ∈ s.backlog ∨ k = ⟨s.made, [], false⟩ := by simpa [connect] using hk
    rcases hk with hk | rfl
    · exact .queued hk hid
    · -- the new connection was nowhere
      subst hid
      refine .gone ?_ ?_
      · exact fun hin => absurd (hids.queued _ hin) (Nat.lt_irrefl _)
      · exact fun fd hfd => absurd (hids.conn fd _ hfd).1 (Nat.lt_irrefl _)
  | reading hk hid => exact .reading hk hid
  | gone hqueued hconn =>
    refine .gone ?_ hconn
    intro hin
    apply hqueued
    rw [queuedIds, connect, List.map_append]
    exact List.mem_append_left _ hin

theorem accounts_abandon {j : ℕ} :
    s.Accounts ev { s with backlog := s.backlog.eraseIdx j } i := by
  intro h' hholds
  cases hholds with
  | queued hk hid =>
    exact ⟨_, [], .queued (List.mem_of_mem_eraseIdx hk) hid, .refl _, absurd rfl⟩
  | reading hk hid => exact ⟨_, [], .reading hk hid, .refl _, absurd rfl⟩
  | gone hqueued hconn =>
    by_cases hwas : i ∈ s.queuedIds
    · obtain ⟨k, hk, hid⟩ := List.mem_map.mp hwas
      exact ⟨_, _, .queued hk hid, .drop _ _ _, fun _ => .queued hwas ⟨hqueued, hconn⟩⟩
    · exact ⟨[], [], .gone hwas hconn, .refl _, absurd rfl⟩

/-- A connection receives something, and no other one does. -/
theorem ledger_receive (s : Srv) (k : Sock) (inp : Input) :
    Ledger.Move [] (s.ledger k.id h)
      ((s.logs [.received k.id inp]).ledger k.id (h ++ inp.bytes)) := by
  rw [ledger_logs]
  simp only [LogEv.receivedBy, LogEv.displayedFor, List.append_nil]
  exact .receive _ _ h inp.bytes

theorem ledger_receive_other (s : Srv) {id : ℕ} (inp : Input) (hne : id ≠ i) :
    (s.logs [.received id inp]).ledger i h = s.ledger i h :=
  ledger_logs_other (if_neg hne) rfl

/-- An open connection is not queued. -/
theorem connId_ne_queued (hids : Identified s) {k : Sock} (hk : k ∈ s.backlog) :
    s.connId fd ≠ some k.id :=
  fun hfd => (hids.conn fd k.id hfd).2 (mem_queuedIds hk)

theorem accounts_queued (hids : Identified s) {j : ℕ} {k : Sock} (hk : s.backlog[j]? = some k)
    (inp : Input) :
    s.Accounts ev ({ s with backlog := s.backlog.set j (k.receive inp) }.logs [.received k.id inp]) i := by
  intro h' hholds
  have hmem : k ∈ s.backlog := List.mem_of_getElem? hk
  have hqueue : (s.backlog.set j (k.receive inp)).map Sock.id = s.queuedIds :=
    queuedIds_set hk (by simp)
  cases hholds with
  | @queued k' hk' hid =>
    obtain ⟨j', hj'⟩ := List.mem_iff_getElem?.mp hk'
    have hj' : (s.backlog.set j (k.receive inp))[j']? = some k' := hj'
    by_cases hjj : j = j'
    · -- the connection itself
      have hlt : j < s.backlog.length := (List.getElem?_eq_some_iff.mp hk).1
      rw [← hjj, List.getElem?_set_self hlt, Option.some.injEq] at hj'
      subst hj'
      have hid : k.id = i := by simpa using hid
      subst hid
      refine ⟨k.input, [], .queued hmem rfl, ?_, absurd rfl⟩
      rw [Sock.receive_input]
      exact ledger_receive s k inp
    · rw [List.getElem?_set_ne hjj] at hj'
      have hne : k.id ≠ i := by
        intro hsame
        apply hjj
        have hat : s.queuedIds[j]? = s.queuedIds[j']? := by simp [queuedIds, hk, hj', hsame, hid]
        refine (List.getElem?_inj ?_ hids.nodup).mp hat
        simpa [queuedIds] using (List.getElem?_eq_some_iff.mp hk).1
      refine ⟨_, [], .queued (List.mem_of_getElem? hj') hid, ?_, absurd rfl⟩
      exact .of_eq (ledger_receive_other s inp hne)
  | reading hk' hid =>
    have hne : k.id ≠ i := by
      rintro rfl
      exact connId_ne_queued hids hmem (hid ▸ connId_of_sockAt hk')
    exact ⟨_, [], .reading hk' hid, .of_eq (ledger_receive_other s inp hne), absurd rfl⟩
  | gone hqueued hconn =>
    have hqueued : i ∉ s.queuedIds := by
      rw [← hqueue]
      exact hqueued
    have hne : k.id ≠ i := by
      rintro rfl
      exact hqueued (mem_queuedIds hmem)
    exact ⟨[], [], .gone hqueued hconn, .of_eq (ledger_receive_other s inp hne), absurd rfl⟩

theorem accounts_input {c : Conn} (hc : s.conns fd = some c) (inp : Input)
    (hids' : Identified ((s.setConn fd (some (c.receive inp))).logs [.received c.sock.id inp])) :
    s.Accounts ev ((s.setConn fd (some (c.receive inp))).logs [.received c.sock.id inp]) i := by
  intro h' hholds
  have hk : s.sockAt fd = some c.sock := sockAt_of_conns hc
  have hk' : (s.setConn fd (some (c.receive inp))).sockAt fd = some (c.sock.receive inp) :=
    sockAt_setConn_self s fd _
  by_cases hi : c.sock.id = i
  · subst hi
    have hheld : h' = s.pc.inHand c.sock.id ++ (c.sock.receive inp).input :=
      hholds.at_fd hids' hk' (by simp)
    rw [hheld, Sock.receive_input, ← List.append_assoc]
    exact ⟨_, [], .reading hk rfl, ledger_receive s c.sock inp, absurd rfl⟩
  · have hsame : s.Holds i h' := by
      refine hholds.congr_ne fd rfl ?_ ?_ ?_ ?_
      · exact fun fd' hne => sockAt_setConn_of_ne s _ hne
      · simpa [connId, hc] using hi
      · simpa [connId, setConn, logs] using hi
      · rfl
    exact ⟨h', [], hsame, .of_eq (ledger_receive_other s inp hi), absurd rfl⟩

theorem accounts_accepted {e : Event} {rest : List Event} {k : Sock}
    {queue : List Sock} (hpc : s.pc = .accept e rest) (hqueue : s.backlog = k :: queue)
    (hfree : s.conns fd = none) : s.Accounts ev (s.accepted e fd k queue rest) i := by
  intro h' hholds
  have hmem : k ∈ s.backlog := by simp [hqueue]
  have hself : (s.accepted e fd k queue rest).sockAt fd = some k := sockAt_setConn_self _ _ _
  have hother : ∀ fd', fd' ≠ fd → (s.accepted e fd k queue rest).sockAt fd' = s.sockAt fd' :=
    fun fd' hne => sockAt_setConn_of_ne _ _ hne
  have hfrom : s.Holds i h' := by
    cases hholds with
    | queued hk hid => exact .queued (hqueue ▸ List.mem_cons_of_mem k hk) hid
    | @reading fd' k' hk' hid =>
      by_cases hfd : fd' = fd
      · rw [hfd, hself, Option.some.injEq] at hk'
        subst hk'
        exact .queued hmem hid
      · rw [hother fd' hfd] at hk'
        have hhand : s.pc.inHand i = [] := by rw [hpc]; rfl
        have hread : s.Holds i (s.pc.inHand i ++ k'.input) := .reading hk' hid
        rwa [hhand] at hread
    | gone hqueued hconn =>
      refine .gone ?_ ?_
      · intro hin
        rw [queuedIds, hqueue, List.map_cons, List.mem_cons] at hin
        rcases hin with rfl | hin
        · exact hconn fd (connId_of_sockAt hself)
        · exact hqueued hin
      · intro fd' hfd'
        by_cases hfd : fd' = fd
        · rw [hfd, connId, hfree] at hfd'
          cases hfd'
        · apply hconn fd'
          rw [connId_eq, hother fd' hfd, ← connId_eq]
          exact hfd'
  exact ⟨h', [], hfrom, .of_eq rfl, absurd rfl⟩

/-- `read` moves bytes from the socket into the hand of the server. -/
theorem accounts_readCount {e : Event} {rest : List Event} {c : Conn} {n : ℕ}
    (hpc : s.pc = .read e rest) (hc : s.conns e.fd = some c)
    (hids' : Identified (s.readCount e c n rest)) : s.Accounts ev (s.readCount e c n rest) i := by
  have hk : s.sockAt e.fd = some c.sock := sockAt_of_conns hc
  have hhand : s.pc.inHand i = [] := by rw [hpc]; rfl
  unfold readCount at hids' ⊢
  split_ifs at hids' ⊢ with hzero
  · exact accounts_same rfl rfl hhand.symm (fun _ => rfl)
  · intro h' hholds
    have hk' : ((s.setConn e.fd (some (c.drop n))).goto
        (.write e c.sock.id (c.sock.input.take n) rest)).sockAt e.fd = some (c.drop n).sock :=
      sockAt_setConn_self s e.fd _
    by_cases hi : c.sock.id = i
    · have hheld := hholds.at_fd hids' hk' hi
      have hread : s.Holds i h' := by
        have hwas : s.Holds i (s.pc.inHand i ++ c.sock.input) := .reading hk hi
        rw [hhand, List.nil_append] at hwas
        simpa [Pc.inHand, hi, Conn.drop, hheld] using hwas
      exact ⟨h', [], hread, .of_eq rfl, absurd rfl⟩
    · have hsame : s.Holds i h' := by
        refine hholds.congr_ne e.fd rfl ?_ ?_ ?_ ?_
        · exact fun fd' hne => sockAt_setConn_of_ne s _ hne
        · simpa [connId, hc] using hi
        · rw [connId_of_sockAt hk']
          simpa using hi
        · rw [hhand]
          exact if_neg hi
      exact ⟨h', [], hsame, .of_eq rfl, absurd rfl⟩

/-- The connection that a write is for is open. -/
theorem exists_write_sock (h : Sound sfd s) (hw : s.pc.Written) {e : Event} {id : ℕ} {buf : List UInt8}
    {rest : List Event} (hpc : s.pc = .write e id buf rest) :
    ∃ k, s.sockAt e.fd = some k ∧ k.id = id := by
  have hne : e.fd ≠ sfd := by
    have hbranch := h.branch
    rwa [hpc] at hbranch
  have hsrc : e.src = some (.conn id) := by rwa [hpc] at hw
  have howner := (h.owned e (by simp [hpc, Pc.events])).1
  rw [hsrc] at howner
  cases hc : s.conns e.fd with
  | none => simp [owner, hne, hc] at howner
  | some c => exact ⟨c.sock, sockAt_of_conns hc, by simpa [owner, hne, hc] using howner⟩

theorem holds_write {e : Event} {id : ℕ} {buf : List UInt8} {rest : List Event} {k : Sock}
    (hpc : s.pc = .write e id buf rest) (hk : s.sockAt e.fd = some k) (hid : k.id = id) :
    s.Holds id (buf ++ k.input) := by
  have hread : s.Holds id (s.pc.inHand id ++ k.input) := .reading hk hid
  have hhand : s.pc.inHand id = buf := by
    rw [hpc]
    exact if_pos rfl
  rwa [hhand] at hread

/-- A write shows the front of the buffer, and the rest of it is lost. -/
theorem ledger_write (s : Srv) (pc : Pc) (id n : ℕ) (buf input : List UInt8) :
    Ledger.Move (buf.drop n) (s.ledger id (buf ++ input))
      (((s.goto pc).logs [.displayed id (buf.take n)]).ledger id input) := by
  have hsplit : buf ++ input = buf.take n ++ (buf.drop n ++ input) := by
    rw [← List.append_assoc, List.take_append_drop]
  rw [ledger_logs, hsplit]
  simp only [LogEv.receivedBy, LogEv.displayedFor, List.append_nil]
  exact .pass _ _ _ _ _

theorem accounts_write (hids : Identified s) {e : Event} {id n : ℕ} {buf : List UInt8}
    {rest : List Event} (hpc : s.pc = .write e id buf rest) (hn : n ≤ buf.length)
    (hopen : ∃ k, s.sockAt e.fd = some k ∧ k.id = id) :
    s.Accounts (.runs (.count n)) ((s.goto (.read e rest)).logs [.displayed id (buf.take n)]) i := by
  intro h' hholds
  by_cases hi : id = i
  · subst hi
    obtain ⟨k, hk, hid⟩ := hopen
    have hids' : Identified ((s.goto (.read e rest)).logs [.displayed id (buf.take n)]) :=
      hids.goes (.of_eq rfl rfl rfl)
    have hheld : h' = k.input := hholds.at_fd hids' hk hid
    refine ⟨_, buf.drop n, holds_write hpc hk hid, ?_, ?_⟩
    · rw [hheld]
      exact ledger_write s _ id n buf k.input
    · intro hlost
      refine .write hpc ?_
      exact Nat.lt_of_le_of_ne hn fun heq => hlost (by rw [heq, List.drop_length])
  · have hhand : s.pc.inHand i = [] := by
      rw [hpc]
      exact if_neg hi
    have hsame : s.Holds i h' := hholds.congr rfl rfl hhand.symm
    exact ⟨h', [], hsame, .of_eq (ledger_logs_other rfl (if_neg hi)), absurd rfl⟩

/-- With the listening socket goes the backlog. -/
theorem accounts_closeListener (hbacklog : s'.backlog = []) (hsock : s'.sockAt = s.sockAt)
    (hhand : s'.pc.inHand i = s.pc.inHand i) (hledger : ∀ h, s'.ledger i h = s.ledger i h) :
    s.Accounts ev s' i := by
  intro h' hholds
  cases hholds with
  | queued hk hid => exact absurd (hbacklog ▸ hk) List.not_mem_nil
  | @reading fd k hk hid =>
    have hwas : s.Holds i (s.pc.inHand i ++ k.input) := .reading (hsock ▸ hk) hid
    refine ⟨_, [], hwas, ?_, absurd rfl⟩
    rw [hledger, hhand]
    exact .refl _
  | gone hqueued hconn =>
    by_cases hin : i ∈ s.queuedIds
    · obtain ⟨k, hk, hid⟩ := List.mem_map.mp hin
      refine ⟨k.input, k.input, .queued hk hid, ?_, fun _ => .queued hin ⟨hqueued, hconn⟩⟩
      rw [hledger]
      exact .drop _ _ _
    · refine ⟨[], [], .gone hin ?_, .of_eq (hledger []), absurd rfl⟩
      intro fd
      rw [connId_eq, ← hsock, ← connId_eq]
      exact hconn fd

/-- With a connection goes what was not read. -/
theorem accounts_closeConn (hids : Identified s) {e : Event}
    {rest : List Event} (hpc : s.pc = .close e rest) (hbacklog : s'.backlog = s.backlog)
    (hclosed : s'.sockAt e.fd = none) (hother : ∀ fd, fd ≠ e.fd → s'.sockAt fd = s.sockAt fd)
    (hhand : s'.pc.inHand i = []) (hledger : ∀ h, s'.ledger i h = s.ledger i h) :
    s.Accounts (.runs .ok) s' i := by
  intro h' hholds
  have hwas : s.pc.inHand i = [] := by rw [hpc]; rfl
  have hnone : s'.connId e.fd = none := by rw [connId_eq, hclosed]; rfl
  by_cases hi : s.connId e.fd = some i
  · -- the connection itself
    have hgone : s'.Gone i := by
      constructor
      · intro hin
        rw [queuedIds, hbacklog] at hin
        exact (hids.conn e.fd i hi).2 hin
      · intro fd hfd
        have hne : fd ≠ e.fd := by
          rintro rfl
          rw [hnone] at hfd
          cases hfd
        rw [connId_eq, hother fd hne, ← connId_eq] at hfd
        exact hne (hids.inj fd e.fd i hfd hi)
    have hempty : h' = [] := by
      cases hholds with
      | queued hk hid => exact absurd (hid ▸ mem_queuedIds hk) hgone.1
      | reading hk hid => exact absurd (hid ▸ connId_of_sockAt hk) (hgone.2 _)
      | gone hqueued hconn => rfl
    rw [connId_eq, Option.map_eq_some_iff] at hi
    obtain ⟨k, hk, hid⟩ := hi
    have hread : s.Holds i (s.pc.inHand i ++ k.input) := .reading hk hid
    rw [hwas, List.nil_append] at hread
    subst hempty
    refine ⟨_, _, hread, ?_, fun hlost => .close hpc hk hid hlost hgone⟩
    rw [hledger]
    exact .drop _ _ _
  · have hsame : s.Holds i h' := by
      refine hholds.congr_ne e.fd hbacklog hother hi ?_ ?_
      · rw [hnone]
        rintro ⟨⟩
      · rw [hwas, hhand]
    exact ⟨h', [], hsame, .of_eq (hledger h'), absurd rfl⟩

theorem ledger_close (sfd : Fd) (s : Srv) (i : ℕ) (h : List UInt8) (fd : Fd) (rest : List Event) :
    (((s.closeFd sfd fd).goto (.next rest)).logs [.closed (s.owner sfd fd)]).ledger i h = s.ledger i h := by
  rw [ledger_logs_other rfl rfl, closeFd]
  split_ifs <;> rfl

theorem accounts_close (hids : Identified s) {e : Event} {rest : List Event}
    (hpc : s.pc = .close e rest) :
    s.Accounts (.runs .ok)
      (((s.closeFd sfd e.fd).goto (.next rest)).logs [.closed (s.owner sfd e.fd)]) i := by
  have hhand : (Pc.next rest).inHand i = [] := Pc.inHand_next i rest
  unfold closeFd
  split_ifs with hl
  · refine accounts_closeListener rfl rfl ?_ (fun _ => ledger_logs_other rfl rfl)
    rw [hpc]
    exact hhand
  · refine accounts_closeConn hids hpc rfl ?_ ?_ hhand (fun _ => ledger_logs_other rfl rfl)
    · exact sockAt_setConn_self s e.fd none
    · exact fun fd hne => sockAt_setConn_of_ne s none hne

/-- **What one step does to the account of a connection.** -/
theorem Step.accounts (h : Sound sfd s) (hids : Identified s) (hw : s.pc.Written)
    (hstep : s.Step sfd ev s') (i : ℕ) : s.Accounts ev s' i := by
  have hids' : Identified s' := hids.step hstep
  cases hstep with
  | connect hopen => exact accounts_connect hids
  | abandon hi => exact accounts_abandon
  | queued hk hmay => exact accounts_queued hids hk _
  | input hc hmay => exact accounts_input hc _ hids'
  | hangup hc => exact accounts_same rfl (sockAt_setConn hc rfl) rfl (fun _ => rfl)
  | register halive hpc => exact accounts_same rfl rfl (by rw [hpc]; rfl) (fun _ => rfl)
  | abort halive hpc => exact accounts_same rfl rfl rfl (fun _ => rfl)
  | report halive hpc hmay =>
    refine accounts_same rfl (sockAt_report sfd s _) ?_ (fun _ => rfl)
    rw [hpc]
    exact Pc.inHand_next i _
  | dispatch halive hpc =>
    unfold Srv.dispatch
    split_ifs
    · exact accounts_same rfl rfl (by rw [hpc]; rfl) (fun _ => ledger_logs_other rfl rfl)
    all_goals exact accounts_same rfl rfl (by rw [hpc]; rfl) (fun _ => rfl)
  | accepted halive hpc hqueue hfree => exact accounts_accepted hpc hqueue hfree.2
  | @acceptFailed e rest n halive hpc hn =>
    have hhand : (Pc.next rest).inHand i = s.pc.inHand i := by
      rw [hpc]
      exact Pc.inHand_next i rest
    unfold Srv.acceptFailed
    split_ifs
    · exact accounts_same rfl rfl hhand (fun _ => rfl)
    · exact accounts_same rfl rfl hhand (fun _ => ledger_logs_other rfl rfl)
  | nonBlocking halive hpc => exact accounts_same rfl rfl (by rw [hpc]; rfl) (fun _ => rfl)
  | watch halive hpc => exact accounts_same rfl (sockAt_watch s _) (by rw [hpc]; rfl) (fun _ => rfl)
  | readCount halive hpc hc hn => exact accounts_readCount hpc hc hids'
  | @readFailed e rest n halive hpc hn =>
    have hhand : (Pc.next rest).inHand i = s.pc.inHand i := by
      rw [hpc]
      exact Pc.inHand_next i rest
    unfold Srv.readFailed
    split_ifs
    · exact accounts_same rfl rfl hhand (fun _ => rfl)
    · exact accounts_same rfl rfl (by rw [hpc]; rfl) (fun _ => ledger_logs_other rfl rfl)
  | write halive hpc hn => exact accounts_write hids hpc hn (exists_write_sock h hw hpc)
  | writeFailed halive hpc => exact accounts_same rfl rfl rfl (fun _ => rfl)
  | close halive hpc => exact accounts_close hids hpc

end Srv

end NetProg.EpollServer
