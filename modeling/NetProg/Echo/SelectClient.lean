/-
# NetProg.Echo.SelectClient -- `C/select_client.c` against `C/select_server.c`.

The server greets a connection with `ACCEPT_MSG` and then echoes what it receives, or with `REFUSE_MSG` and
closes it.  The client reads a chunk, looks at its first six bytes, and otherwise asks for a line and sends
it.  A chunk is any part of what the server has sent; `reads` keeps where each began and how long it was.

The client looks at the beginning of a chunk, not of the stream.  It takes a connection for refused when one
of its reads begins where the stream has "Refuse" and returns at least these six bytes (`reported_iff_hit`):
the greeting of a refused connection may come in smaller parts, and an accepted client may be sent its own
text with a cut in front.
-/
import NetProg.Base.Stdio
import NetProg.Base.System
import NetProg.Server.ReplySizes

namespace NetProg.SelectClient

open SelectServer (cstr bufSize recvBuf echoText fits acceptMsg refuseMsg)

/-- What the client compares the beginning of `recv_buf` with. -/
def refuse : List UInt8 := cstr "Refuse"

/-- The line that ends the client. -/
def exitLine : List UInt8 := cstr "exit\n"

/-- The client is at `read`, at `fgets`, at `write` with a line, or has ended: it reported a refusal, the
server closed the connection, a call failed, or the user left. -/
inductive Pc where
  | read
  | fgets
  | write (sendBuf : List UInt8)
  | reported
  | serverClosed
  | failed
  | left
  deriving DecidableEq, Repr

/-- Both ends of one connection: the branch that the server took, what is left of the user's input, all that
the server has sent and how much of it was read, whether the server has closed, what was written to the
server and not yet received, and the reads of the client, each with its beginning and its length. -/
structure Session where
  refused : Bool
  input : List UInt8
  pc : Pc
  sent : List UInt8
  pos : ℕ
  closed : Bool
  toServer : List UInt8
  reads : List (ℕ × ℕ)
  deriving DecidableEq, Repr

/-- A call of the client and its result, or of the server. -/
inductive Ev where
  | read (n : ℕ)
  | fgets
  | write (n : ℕ)
  | fails
  | serverRecv (n : ℕ)
  | serverClose
  deriving DecidableEq, Repr

namespace Session

/-- The server has greeted the client. -/
def start (refused : Bool) (input : List UInt8) : Session where
  refused := refused
  input := input
  pc := .read
  sent := if refused then refuseMsg else acceptMsg
  pos := 0
  closed := refused
  toServer := []
  reads := []

/-- What the next `n` bytes of the stream are. -/
def chunk (s : Session) (n : ℕ) : List UInt8 := (s.sent.drop s.pos).take n

/-- `read (master_sock, recv_buf, sizeof(recv_buf) - 1)` may return `n`; zero at the end of the stream. -/
def MayRead (s : Session) (n : ℕ) : Prop :=
  n ≤ bufSize - 1 ∧ s.pos + n ≤ s.sent.length ∧ (n = 0 → s.closed = true ∧ s.pos = s.sent.length)

instance (s : Session) (n : ℕ) : Decidable (s.MayRead n) := inferInstanceAs (Decidable (_ ∧ _ ∧ _))

/-- `bzero`, `read`, and the tests on what it returned. -/
def readChunk (s : Session) (n : ℕ) : Session :=
  { s with
    pos := s.pos + n
    reads := s.reads ++ [(s.pos, n)]
    pc :=
      -- `0 == strncmp(recv_buf, "Refuse", strlen("Refuse"))`
      if refuse <+: recvBuf (.data (s.chunk n)) then .reported
      else if n = 0 then .serverClosed
      else .fgets }

/-- `fgets(send_buf, sizeof(send_buf) - 1, stdin)` and the comparison with "exit"; at the end of the input
`send_buf` stays empty. -/
def getLine (s : Session) : Session :=
  { s with
    input := (NetProg.fgets (bufSize - 2) s.input).2
    pc :=
      if untilNul (NetProg.fgets (bufSize - 2) s.input).1 = exitLine then .left
      else .write (untilNul (NetProg.fgets (bufSize - 2) s.input).1) }

/-- `write(master_sock, send_buf, strlen(send_buf))` returns `n`. -/
def writeLine (s : Session) (sendBuf : List UInt8) (n : ℕ) : Session :=
  { s with pc := .read, toServer := s.toServer ++ sendBuf.take n }

/-- The server receives `n` bytes and sends the reply. -/
def echo (s : Session) (n : ℕ) : Session :=
  { s with
    toServer := s.toServer.drop n
    sent := s.sent ++ echoText (recvBuf (.data (s.toServer.take n))) }

def step (s : Session) : Ev → Option Session
  | .read n => if s.pc = .read ∧ s.MayRead n then some (s.readChunk n) else none
  | .fgets => if s.pc = .fgets then some s.getLine else none
  | .write n =>
    match s.pc with
    | .write sendBuf => if n ≤ sendBuf.length then some (s.writeLine sendBuf n) else none
    | _ => none
  | .fails =>
    match s.pc with
    | .read | .write _ => some { s with pc := .failed }
    | _ => none
  | .serverRecv n =>
    -- a reply that does not fit is undefined
    if s.closed = false ∧ 0 < n ∧ n ≤ bufSize - 1 ∧ n ≤ s.toServer.length ∧
        fits (.data (s.toServer.take n)) = true then some (s.echo n)
    else none
  | .serverClose => if s.closed = false then some { s with closed := true } else none

end Session

/-- A client with the user's `input`, and the server's end of its connection. -/
def session (refused : Bool) (input : List UInt8) : System Session Ev :=
  ⟨Session.start refused input, Session.step⟩

/-! ## The greeting -/

/-- What the server does with a new connection depends on the number of connections. -/
theorem greeting {n : ℕ} {h : Host} {s : SelectServer.Srv n} {newSock : ℤ} (hready : h.masterSock ∈ s.rfds)
    (hsock : 0 ≤ newSock) (pipe : Bool) :
    SelectServer.Ev.send newSock (Session.start (decide (s.curConnCnt > n - 1)) []).sent ∈
      (s.listener h newSock pipe).state.evs := by
  have hneg : ¬ newSock < 0 := Int.not_lt.mpr hsock
  unfold SelectServer.Srv.listener
  rw [if_pos hready, if_neg hneg]
  by_cases hfull : s.curConnCnt > n - 1
  · rw [if_pos hfull]
    simp [Session.start, hfull, Flow.state, SelectServer.Srv.refuse, SelectServer.Srv.log]
  · rw [if_neg hfull]
    simp [Session.start, hfull, SelectServer.Srv.keep, SelectServer.Srv.log]

/-! ## When the client reports a refusal -/

/-- The read begins where `stream` has "Refuse", and returns at least that. -/
def Hit (stream : List UInt8) (r : ℕ × ℕ) : Prop := refuse.length ≤ r.2 ∧ refuse <+: stream.drop r.1

instance (stream : List UInt8) (r : ℕ × ℕ) : Decidable (Hit stream r) :=
  inferInstanceAs (Decidable (_ ∧ _))

variable {s s' : Session} {n : ℕ}

/-- The buffer begins with "Refuse" exactly when the read hits. -/
theorem prefix_recvBuf_iff (hread : s.MayRead n) :
    refuse <+: recvBuf (.data (s.chunk n)) ↔ Hit s.sent (s.pos, n) := by
  have hlen : (s.chunk n).length = n := by
    have := hread.2.1
    rw [Session.chunk, List.length_take, List.length_drop]
    omega
  have hbuf : recvBuf (.data (s.chunk n)) = s.chunk n ++ List.replicate (bufSize - n) 0 := by
    rw [recvBuf, hlen]
  rw [hbuf]
  constructor
  · intro hprefix
    have hsix : refuse.length ≤ n := by
      by_contra hshort
      -- otherwise a zero stands before the end of "Refuse"
      have hlt : n < refuse.length := Nat.lt_of_not_le hshort
      have hzero : refuse[n]? = some 0 := by
        obtain ⟨rest, hrest⟩ := hprefix
        have hget := congrArg (fun l => l[n]?) hrest
        simp only [List.getElem?_append_left hlt] at hget
        rw [hget, List.getElem?_append_right (Nat.le_of_eq hlen), hlen, Nat.sub_self]
        have hpos : 0 < bufSize - n := by
          have hsix : refuse.length = 6 := rfl
          unfold bufSize
          omega
        simp [hpos]
      have hmem : (0 : UInt8) ∈ refuse := List.mem_of_getElem? hzero
      exact absurd hmem (by decide)
    refine ⟨hsix, ?_⟩
    have hchunk : refuse <+: s.chunk n := by
      apply List.prefix_of_prefix_length_le hprefix (List.prefix_append _ _)
      rw [hlen]
      exact hsix
    exact hchunk.trans (List.take_prefix n _)
  · rintro ⟨hsix, hbegin⟩
    have hchunk : refuse <+: s.chunk n := List.prefix_take_iff.mpr ⟨hbegin, hsix⟩
    exact hchunk.trans (List.prefix_append _ _)

/-- What the server sends later does not change what a read began with. -/
theorem hit_append_iff {stream : List UInt8} {r : ℕ × ℕ} (hr : r.1 + r.2 ≤ stream.length)
    (more : List UInt8) : Hit (stream ++ more) r ↔ Hit stream r := by
  refine and_congr_right fun hsix => ?_
  have hdrop : (stream ++ more).drop r.1 = stream.drop r.1 ++ more :=
    List.drop_append_of_le_length (by omega)
  rw [hdrop]
  constructor
  · intro hprefix
    apply List.prefix_of_prefix_length_le hprefix (List.prefix_append _ _)
    rw [List.length_drop]
    omega
  · intro hprefix
    exact hprefix.trans (List.prefix_append _ _)

/-- Some read so far hit exactly if the client has reported a refusal. -/
structure Sound (refused : Bool) (s : Session) : Prop where
  branch : s.refused = refused
  greeted : refused = true → s.sent = refuseMsg ∧ s.closed = true
  bounds : ∀ r ∈ s.reads, r.1 + r.2 ≤ s.sent.length
  reported : s.pc = .reported ↔ ∃ r ∈ s.reads, Hit s.sent r

variable {refused : Bool} {input : List UInt8}

namespace Sound

theorem start (refused : Bool) (input : List UInt8) : Sound refused (Session.start refused input) where
  branch := rfl
  greeted := by
    rintro rfl
    exact ⟨rfl, rfl⟩
  bounds := by simp [Session.start]
  reported := by simp [Session.start]

/-- The client does something that is no read. -/
theorem goto (h : Sound refused s) {input' toServer : List UInt8} {pc : Pc}
    (hwas : s.pc ≠ .reported) (hpc : pc ≠ .reported) :
    Sound refused { s with input := input', pc := pc, toServer := toServer } where
  branch := h.branch
  greeted := h.greeted
  bounds := h.bounds
  reported := iff_of_false hpc fun hhit => hwas (h.reported.mpr hhit)

theorem readChunk (h : Sound refused s) (hpc : s.pc = .read) (hread : s.MayRead n) :
    Sound refused (s.readChunk n) where
  branch := h.branch
  greeted := h.greeted
  bounds := by
    rw [Session.readChunk, List.forall_mem_append, List.forall_mem_singleton]
    exact ⟨h.bounds, hread.2.1⟩
  reported := by
    have hbefore : ¬ ∃ r ∈ s.reads, Hit s.sent r := by
      intro hhit
      rw [← h.reported, hpc] at hhit
      cases hhit
    have hreads : (∃ r ∈ (s.readChunk n).reads, Hit s.sent r) ↔ Hit s.sent (s.pos, n) := by
      constructor
      · rintro ⟨r, hr, hhit⟩
        rw [Session.readChunk, List.mem_append, List.mem_singleton] at hr
        rcases hr with hr | rfl
        · exact (hbefore ⟨r, hr, hhit⟩).elim
        · exact hhit
      · intro hhit
        exact ⟨_, List.mem_append_right _ List.mem_cons_self, hhit⟩
    show (s.readChunk n).pc = .reported ↔ ∃ r ∈ (s.readChunk n).reads, Hit s.sent r
    rw [hreads, ← prefix_recvBuf_iff hread, Session.readChunk]
    split_ifs with hprefix hzero
    · exact iff_of_true rfl hprefix
    · exact iff_of_false (by rintro ⟨⟩) hprefix
    · exact iff_of_false (by rintro ⟨⟩) hprefix

theorem echo (h : Sound refused s) (hopen : s.closed = false) : Sound refused (s.echo n) where
  branch := h.branch
  greeted := by
    intro hrefused
    rw [(h.greeted hrefused).2] at hopen
    cases hopen
  bounds := by
    intro r hr
    rw [Session.echo, List.length_append]
    exact Nat.le_add_right_of_le (h.bounds r hr)
  reported := by
    show s.pc = .reported ↔ ∃ r ∈ s.reads, Hit (s.sent ++ _) r
    rw [h.reported]
    refine exists_congr fun r => and_congr_right fun hr => ?_
    exact (hit_append_iff (h.bounds r hr) _).symm

/-- **One call keeps the relation between the reads and the report.** -/
theorem step (h : Sound refused s) {e : Ev} (hstep : s.step e = some s') : Sound refused s' := by
  cases e with
  | read n =>
    simp only [Session.step] at hstep
    split_ifs at hstep with hread
    cases hstep
    exact h.readChunk hread.1 hread.2
  | fgets =>
    simp only [Session.step] at hstep
    split_ifs at hstep with hpc
    cases hstep
    refine h.goto (by simp [hpc]) ?_
    split_ifs <;> rintro ⟨⟩
  | write n =>
    simp only [Session.step] at hstep
    split at hstep
    · next sendBuf hpc =>
      split_ifs at hstep
      cases hstep
      exact h.goto (by simp [hpc]) (by rintro ⟨⟩)
    · cases hstep
  | fails =>
    simp only [Session.step] at hstep
    split at hstep
    · next hpc =>
      cases hstep
      exact h.goto (by simp [hpc]) (by rintro ⟨⟩)
    · next hpc =>
      cases hstep
      exact h.goto (by simp [hpc]) (by rintro ⟨⟩)
    · cases hstep
  | serverRecv n =>
    simp only [Session.step] at hstep
    split_ifs at hstep with hrecv
    cases hstep
    exact h.echo hrecv.1
  | serverClose =>
    simp only [Session.step] at hstep
    split_ifs at hstep with hopen
    cases hstep
    refine ⟨h.branch, ?_, h.bounds, h.reported⟩
    intro hrefused
    exact ⟨(h.greeted hrefused).1, rfl⟩

theorem reachable (h : (session refused input).Reachable s) : Sound refused s := by
  refine (session refused input).invariant (P := Sound refused) (start refused input) ?_ h
  intro s e s' _ hs hstep
  exact hs.step hstep

end Sound

/-- "Refuse" stands at the beginning of the refusal and nowhere else in it. -/
theorem refuse_prefix_drop_iff (o : ℕ) : refuse <+: refuseMsg.drop o ↔ o = 0 := by
  by_cases ho : o < 49
  · have hall : ∀ o < 49, (refuse <+: refuseMsg.drop o ↔ o = 0) := by decide
    exact hall o ho
  · have hnil : refuseMsg.drop o = [] := List.drop_of_length_le (Nat.le_of_not_lt ho)
    rw [hnil]
    refine iff_of_false ?_ (by omega)
    rw [List.prefix_nil]
    rintro ⟨⟩

/-- **When the client recognises what the server did.** It reports a refusal if and only if the server refused
it, exactly when in a refused connection the read at the beginning of the stream returned at least six
bytes, and in an accepted one no read of six bytes or more began where the stream has "Refuse". -/
theorem reported_iff_refused_iff (h : (session refused input).Reachable s) :
    (s.pc = .reported ↔ refused = true) ↔
      if refused then ∃ n, 6 ≤ n ∧ (0, n) ∈ s.reads else ∀ r ∈ s.reads, ¬ Hit s.sent r := by
  have hs := Sound.reachable h
  rw [hs.reported]
  cases refused with
  | true =>
    rw [(hs.greeted rfl).1]
    simp only [iff_true, if_true]
    constructor
    · rintro ⟨⟨o, n⟩, hmem, hsix, hprefix⟩
      obtain rfl : o = 0 := (refuse_prefix_drop_iff o).mp hprefix
      exact ⟨n, hsix, hmem⟩
    · rintro ⟨n, hsix, hmem⟩
      exact ⟨(0, n), hmem, hsix, (refuse_prefix_drop_iff 0).mpr rfl⟩
  | false => simp

/-- The refusal comes in one piece. -/
theorem reported_iff_refused_iff_whole : ∃ s, (session true []).Reachable s ∧ s.reads = [(0, 49)] ∧
    (s.pc = .reported ↔ true = true) := by
  obtain ⟨s, hreach, hs⟩ := (session true []).exists_reachable_of_run [.read 49]
    (fun s => s.reads == [(0, 49)]) (by decide)
  have hreads : s.reads = [(0, 49)] := eq_of_beq hs
  refine ⟨s, hreach, hreads, (reported_iff_refused_iff hreach).mpr ?_⟩
  exact ⟨49, by decide, by simp [hreads]⟩

/-- **A refusal is missed and another one forged.** The first five bytes of the refusal come alone, and the
user leaves; an accepted user enters "Refuse", and the echo is read in two parts. -/
theorem reported_ne_refused :
    (∃ s, (session true exitLine).Reachable s ∧ s.pc = .left) ∧
    ∃ s, (session false (refuse ++ [newline])).Reachable s ∧ s.pc = .reported := by
  constructor
  · obtain ⟨s, hreach, hs⟩ := (session true exitLine).exists_reachable_of_run [.read 5, .fgets]
      (fun s => s.pc == .left) (by decide)
    exact ⟨s, hreach, eq_of_beq hs⟩
  · obtain ⟨s, hreach, hs⟩ := (session false (refuse ++ [newline])).exists_reachable_of_run
      [.read 31, .fgets, .write 7, .serverRecv 7, .read 12, .fgets, .write 0, .read 7]
      (fun s => s.pc == .reported) (by decide +kernel)
    exact ⟨s, hreach, eq_of_beq hs⟩

end NetProg.SelectClient
