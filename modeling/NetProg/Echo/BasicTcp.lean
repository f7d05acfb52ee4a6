/-
# NetProg.Echo.BasicTcp -- `C/basic_tcp_client.c` against `C/basic_tcp_server.c`.

The client writes one line and then reads once, and prints what it read; the server writes back whatever it
reads.  Between them are two byte streams (`toServer`, `toClient`): a read takes any positive number of the
bytes that have arrived, up to the size that was asked for, and a write puts all of its bytes.

No byte is lost: what was printed, what is on its way and what is still to be read from the input make up the
text in order (`Conserved`).  But the client reads once for each line, however much of the echo that read
returns, so that what its last read leaves behind stays unread (`printed_eq_iff`).
-/
import Mathlib.Algebra.GroupWithZero.Nat
import NetProg.Base.CString
import NetProg.Base.History
import NetProg.Base.Stdio

namespace NetProg.BasicTcp

/-- `#define BUF_LEN 256`, in both files. -/
def bufLen : ℕ := 256

/-- The client is at `fgets`, at `write` with a line, at `read`, or `str_cli` has returned. -/
inductive Pc where
  | fgets
  | write (sendBuf : List UInt8)
  | read
  | returned
  deriving DecidableEq, Repr

/-- The two processes and the connection between them: what is left of the client's input, what was written and
not yet read in each direction, what the server has in its buffer, and what the client printed. -/
structure Session where
  input : List UInt8
  pc : Pc
  toServer : List UInt8
  buf : List UInt8
  toClient : List UInt8
  printed : List UInt8
  deriving DecidableEq, Repr

/-- One call of the client or of the server. -/
inductive Ev where
  | fgets
  | write
  | read (n : ℕ)
  | serverRead (n : ℕ)
  | serverWrite
  deriving DecidableEq, Repr

/-- A read may return `n` of the bytes that have arrived. -/
def MayRead (arrived : List UInt8) (n : ℕ) : Prop := 0 < n ∧ n ≤ bufLen - 1 ∧ n ≤ arrived.length

instance (arrived : List UInt8) (n : ℕ) : Decidable (MayRead arrived n) :=
  inferInstanceAs (Decidable (_ ∧ _ ∧ _))

namespace Session

def start (text : List UInt8) : Session := ⟨text, .fgets, [], [], [], []⟩

/-- `fgets (send_buf, sizeof(send_buf), fp)`; it returns NULL at the end of the input. -/
def getLine (s : Session) : Session :=
  match s.input with
  | [] => { s with pc := .returned }
  | input => { s with pc := .write (fgets (bufLen - 1) input).1, input := (fgets (bufLen - 1) input).2 }

/-- `write(sockfd, send_buf, strlen(send_buf))`. -/
def writeLine (s : Session) (sendBuf : List UInt8) : Session :=
  { s with pc := .read, toServer := s.toServer ++ untilNul sendBuf }

/-- `read(sockfd, recv_buf, sizeof(recv_buf) - 1)` and `fputs(recv_buf, stdout)`. -/
def readReply (s : Session) (n : ℕ) : Session :=
  { s with
    pc := .fgets
    toClient := s.toClient.drop n
    printed := s.printed ++ untilNul (s.toClient.take n) }

/-- The server's `read(sockfd, buf, sizeof(buf) - 1)`. -/
def serverRead (s : Session) (n : ℕ) : Session :=
  { s with buf := s.toServer.take n, toServer := s.toServer.drop n }

/-- The server's `write(sockfd, buf, nread)`. -/
def serverWrite (s : Session) : Session := { s with buf := [], toClient := s.toClient ++ s.buf }

def step (s : Session) : Ev → Option Session
  | .fgets => if s.pc = .fgets then some s.getLine else none
  | .write =>
    match s.pc with
    | .write sendBuf => some (s.writeLine sendBuf)
    | _ => none
  | .read n => if s.pc = .read ∧ MayRead s.toClient n then some (s.readReply n) else none
  | .serverRead n => if s.buf = [] ∧ MayRead s.toServer n then some (s.serverRead n) else none
  | .serverWrite => if s.buf ≠ [] then some s.serverWrite else none

end Session

/-- A client that is given `text`, and its server. -/
def echo (text : List UInt8) : System Session Ev := ⟨Session.start text, Session.step⟩

/-! ## Nothing is lost -/

/-- The line that the client is about to write. -/
def Pc.line : Pc → List UInt8
  | write sendBuf => sendBuf
  | _ => []

/-- What was printed, what is under way and what is left of the input are the text. -/
def Conserved (text : List UInt8) (s : Session) : Prop :=
  s.printed ++ (s.toClient ++ (s.buf ++ (s.toServer ++ (s.pc.line ++ s.input)))) = text

variable {text : List UInt8} {s s' : Session}

/-- What is part of a text without a NUL has none. -/
theorem Conserved.no_nul (h : Conserved text s) (htext : (0 : UInt8) ∉ text) :
    (0 : UInt8) ∉ s.toClient ∧ (0 : UInt8) ∉ s.pc.line := by
  rw [← h] at htext
  simp only [List.mem_append, not_or] at htext
  exact ⟨htext.2.1, htext.2.2.2.2.1⟩

/-- **One call keeps the text.** -/
theorem Conserved.step (h : Conserved text s) (htext : (0 : UInt8) ∉ text) {e : Ev}
    (hstep : s.step e = some s') : Conserved text s' := by
  obtain ⟨hclient, hline⟩ := h.no_nul htext
  unfold Conserved at h ⊢
  cases e with
  | fgets =>
    simp only [Session.step] at hstep
    split_ifs at hstep with hpc
    cases hstep
    rw [hpc] at h
    unfold Session.getLine
    split
    · exact h
    · simpa only [Pc.line, fgets_append, List.nil_append] using h
  | write =>
    simp only [Session.step] at hstep
    split at hstep
    · next sendBuf hpc =>
      cases hstep
      have hnot : (0 : UInt8) ∉ sendBuf := by rwa [hpc] at hline
      rw [hpc] at h
      simpa [Session.writeLine, Pc.line, untilNul_of_not_mem hnot] using h
    · cases hstep
  | read n =>
    simp only [Session.step] at hstep
    split_ifs at hstep with hread
    cases hstep
    have hnot : (0 : UInt8) ∉ s.toClient.take n := fun hin => hclient (List.mem_of_mem_take hin)
    have hsplit : s.toClient.take n ++ (s.toClient.drop n ++ (s.buf ++ (s.toServer ++ s.input))) =
        s.toClient ++ (s.buf ++ (s.toServer ++ s.input)) := by
      rw [← List.append_assoc, List.take_append_drop]
    rw [hread.1] at h
    simpa [Session.readReply, Pc.line, untilNul_of_not_mem hnot, hsplit] using h
  | serverRead n =>
    simp only [Session.step] at hstep
    split_ifs at hstep with hread
    cases hstep
    have hsplit : s.toServer.take n ++ (s.toServer.drop n ++ (s.pc.line ++ s.input)) =
        s.toServer ++ (s.pc.line ++ s.input) := by
      rw [← List.append_assoc, List.take_append_drop]
    simpa [Session.serverRead, hread.1, hsplit] using h
  | serverWrite =>
    simp only [Session.step] at hstep
    split_ifs at hstep
    cases hstep
    simpa [Session.serverWrite] using h

theorem conserved (htext : (0 : UInt8) ∉ text) (h : (echo text).Reachable s) : Conserved text s := by
  refine (echo text).invariant (P := Conserved text) rfl ?_ h
  intro s e s' _ hs hstep
  exact hs.step htext hstep

/-! ## What the last read leaves behind -/

/-- The echo that the client has not read: on the way to the server, in its buffer, or on the way back. -/
def Session.owed (s : Session) : ℕ := s.toClient.length + s.buf.length + s.toServer.length

/-- Of each read of the client: how much of the echo it has to come, and how much it returns. -/
def readCounts (s : Session) : Ev → List (ℕ × ℕ)
  | .read n => [(s.owed, n)]
  | _ => []

/-- What the last read left behind; nothing is to come before the first one. -/
def leftBehind (reads : List (ℕ × ℕ)) : ℕ :=
  match reads.getLast? with
  | some (owed, n) => owed - n
  | none => 0

@[simp] theorem leftBehind_snoc (reads : List (ℕ × ℕ)) (owed n : ℕ) :
    leftBehind (reads ++ [(owed, n)]) = owed - n := by
  simp [leftBehind]

/-- Between a read and the next write, what is to come is what the read left behind. -/
structure Behind (s : Session) (reads : List (ℕ × ℕ)) : Prop where
  owed : s.pc ≠ .read → s.owed = leftBehind reads
  within : ∀ r ∈ reads, r.2 ≤ r.1
  input : s.pc = .returned → s.input = []

theorem Behind.start (text : List UInt8) : Behind (Session.start text) [] where
  owed _ := rfl
  within := nofun
  input := nofun

theorem Behind.step {reads : List (ℕ × ℕ)} (h : Behind s reads) {e : Ev} (hstep : s.step e = some s') :
    Behind s' (reads ++ readCounts s e) := by
  cases e with
  | fgets =>
    simp only [Session.step] at hstep
    split_ifs at hstep with hpc
    cases hstep
    have howed : s.owed = leftBehind reads := h.owed (by simp [hpc])
    simp only [readCounts, List.append_nil]
    unfold Session.getLine
    split
    · next hinput => exact ⟨fun _ => howed, h.within, fun _ => hinput⟩
    · exact ⟨fun _ => howed, h.within, nofun⟩
  | write =>
    simp only [Session.step] at hstep
    split at hstep
    · cases hstep
      simp only [readCounts, List.append_nil]
      exact ⟨fun hpc => absurd rfl hpc, h.within, nofun⟩
    · cases hstep
  | read n =>
    simp only [Session.step] at hstep
    split_ifs at hstep with hread
    cases hstep
    have hn : n ≤ s.toClient.length := hread.2.2.2
    simp only [readCounts]
    refine ⟨fun _ => ?_, ?_, nofun⟩
    · simp only [leftBehind_snoc, Session.readReply, Session.owed, List.length_drop]
      omega
    · intro r hr
      rw [List.mem_append, List.mem_singleton] at hr
      rcases hr with hr | rfl
      · exact h.within r hr
      · simp only [Session.owed]
        omega
  | serverRead n =>
    simp only [Session.step] at hstep
    split_ifs at hstep with hread
    cases hstep
    have hn : n ≤ s.toServer.length := hread.2.2.2
    have hsame : (s.serverRead n).owed = s.owed := by
      simp only [Session.serverRead, Session.owed, hread.1, List.length_take, List.length_drop, List.length_nil]
      omega
    simp only [readCounts, List.append_nil]
    exact ⟨fun hpc => hsame.trans (h.owed hpc), h.within, h.input⟩
  | serverWrite =>
    simp only [Session.step] at hstep
    split_ifs at hstep
    cases hstep
    have hsame : s.serverWrite.owed = s.owed := by
      simp [Session.serverWrite, Session.owed]
    simp only [readCounts, List.append_nil]
    exact ⟨fun hpc => hsame.trans (h.owed hpc), h.within, h.input⟩

theorem behind {p : Session × List (ℕ × ℕ)} (h : ((echo text).observe readCounts).Reachable p) :
    Behind p.1 p.2 := by
  refine System.observe_invariant (P := Behind) (.start text) ?_ h
  intro s reads e s' _ hs hstep
  exact hs.step hstep

/-- **When `str_cli` returns, it has printed its text exactly when its last read returned all of the echo that was
to come**, on its way or not yet sent back. -/
theorem printed_eq_iff (htext : (0 : UInt8) ∉ text) {reads : List (ℕ × ℕ)}
    (h : ((echo text).observe readCounts).Reachable (s, reads)) (hpc : s.pc = .returned) :
    s.printed = text ↔ ∀ owed n, reads.getLast? = some (owed, n) → n = owed := by
  have hall : Conserved text s := conserved htext (System.reachable_of_observe h)
  have hb : Behind s reads := behind h
  have howed : s.owed = leftBehind reads := hb.owed (by simp [hpc])
  simp only [Conserved, hpc, Pc.line, hb.input hpc, List.append_nil] at hall
  have hprinted : s.printed = text ↔ s.owed = 0 := by
    rw [← hall]
    simp [Session.owed, List.length_eq_zero_iff, and_assoc]
  rw [hprinted, howed]
  cases hlast : reads.getLast? with
  | none => simp [leftBehind, hlast]
  | some r =>
    obtain ⟨owed, n⟩ := r
    have hle : n ≤ owed := hb.within _ (List.mem_of_getLast? hlast)
    simp only [leftBehind, hlast, Option.some.injEq, Prod.mk.injEq, and_imp]
    constructor
    · rintro hzero _ _ rfl rfl
      omega
    · intro hn
      have heq := hn owed n rfl rfl
      omega

/-- The first echo comes in two pieces, and the read of the second line catches up. -/
theorem printed_eq_iff_catchesUp : ∃ s reads,
    ((echo [97, 98, 10, 99, 10]).observe readCounts).Reachable (s, reads) ∧ s.pc = .returned ∧
    reads = [(3, 1), (4, 4)] ∧ s.printed = [97, 98, 10, 99, 10] := by
  obtain ⟨⟨s, reads⟩, hreach, hs⟩ := ((echo [97, 98, 10, 99, 10]).observe readCounts).exists_reachable_of_run
    [.fgets, .write, .serverRead 1, .serverWrite, .read 1, .fgets, .write, .serverRead 4, .serverWrite, .read 4, .fgets]
    (fun p => p.1.pc == .returned && p.2 == [(3, 1), (4, 4)]) (by decide)
  simp only [Bool.and_eq_true, beq_iff_eq] at hs
  obtain ⟨hpc, rfl⟩ := hs
  refine ⟨s, _, hreach, hpc, rfl, (printed_eq_iff (by decide) hreach hpc).mpr ?_⟩
  intro owed n hlast
  cases hlast
  rfl

/-- **The end of the echo is lost** when the read behind the last line returns the first part of it. -/
theorem printed_ne : ∃ s, (echo [97, 10, 98, 10]).Reachable s ∧ s.pc = .returned ∧
    s.printed = [97, 10, 98] := by
  obtain ⟨s, hreach, hs⟩ := (echo [97, 10, 98, 10]).exists_reachable_of_run
    [.fgets, .write, .serverRead 2, .serverWrite, .read 2, .fgets, .write, .serverRead 2, .serverWrite, .read 1, .fgets]
    (fun s => s.pc == .returned && s.printed == [97, 10, 98]) (by decide)
  simp only [Bool.and_eq_true, beq_iff_eq] at hs
  exact ⟨s, hreach, hs⟩

end NetProg.BasicTcp
