/-
# NetProg.Echo.StrEcho -- `str_echo` of `C/basic_tcp_server.c`.

The loop reads, and writes what it read.  An interrupted read goes back to the loop head, an end of file closes
the socket and leaves the loop.  Any other error is only printed: the code behind the `if` then calls `write`
with `nread`, which is -1, so that the length is the largest `size_t`; what such a write
puts on the socket, if anything, is not in `buf`, and the loop goes on.  So the server echoes exactly as long as
no read fails that way (`strEcho_echoes_iff`).

A write of what was read puts all of it on the socket.  What a write returns is not looked at.
-/
import Mathlib.Algebra.Order.Ring.Int
import NetProg.Base.CString
import NetProg.Base.History
import NetProg.Base.Loop

namespace NetProg.BasicTcpServer

/-- `#define BUF_LEN 256`. -/
def bufLen : ℕ := 256

/-- What `read` returns: `-1`, with `errno` equal to EINTR or not, or the bytes stored (none at end of file). -/
inductive ReadAnswer where
  | error (eintr : Bool)
  | data (bs : List UInt8)
  deriving DecidableEq, Repr

/-- The kernel's answers in one round; `spill` is what a `write` beyond the end of `buf` puts on the socket. -/
structure Answers where
  read : ReadAnswer
  spill : List UInt8
  deriving DecidableEq, Repr

/-- `read` stores at most `sizeof(buf) - 1` bytes. -/
def Answers.Admits (a : Answers) : Prop :=
  match a.read with
  | .error _ => True
  | .data bs => bs.length ≤ bufLen - 1

instance : (a : Answers) → Decidable a.Admits
  | ⟨.error _, _⟩ => inferInstanceAs (Decidable True)
  | ⟨.data bs, _⟩ => inferInstanceAs (Decidable (bs.length ≤ bufLen - 1))

/-- `(size_t) n`. -/
def sizeT (n : ℤ) : ℕ := (n % 2 ^ 64).toNat

/-- A `write`: its length argument, and the bytes put on the socket. -/
structure Write where
  length : ℕ
  bytes : List UInt8
  deriving DecidableEq, Repr

/-- The buffer, whether the socket is closed, and the writes made. -/
structure Session where
  buf : Vector UInt8 bufLen
  closed : Bool
  writes : List Write

namespace Session

def start : Session := ⟨cleared bufLen, false, []⟩

/-- `read(sockfd, buf, sizeof(buf) - 1)` stores `bs`. -/
def receive (s : Session) (bs : List UInt8) : Session := { s with buf := store s.buf 0 bs }

/-- `write(sockfd, buf, nread)`. -/
def write (s : Session) (nread : ℤ) (spill : List UInt8) : Session :=
  let bytes := if sizeT nread ≤ bufLen then window s.buf 0 (sizeT nread) else spill
  { s with writes := s.writes ++ [⟨sizeT nread, bytes⟩] }

/-- `printf("... %s.\n", ..., buf)`. -/
def print (s : Session) : Flow Session :=
  if (cString s.buf.toList).isSome then .next s else .undef s

/-- One round of `str_echo`. -/
def strEcho (s : Session) (a : Answers) : Flow Session :=
  match a.read with
  | .error true => .again s
  -- `perror("read")`, and on to the `write`
  | .error false => (s.write (-1) a.spill).print
  | .data [] => .ret { s with closed := true }
  | .data (b :: bs) => ((s.receive (b :: bs)).write (b :: bs).length a.spill).print

end Session

/-- The server of one connection, and what its reads returned. -/
def server : System (Flow Session × List ReadAnswer) Answers :=
  (whileLoop Session.strEcho (fun _ a => a.Admits) Session.start).observe fun _ a => [a.read]

/-! ## The law -/

/-- The messages that the reads returned. -/
def messages (l : List ReadAnswer) : List (List UInt8) :=
  l.filterMap fun r => match r with
    | .data (b :: bs) => some (b :: bs)
    | _ => none

/-- The server has written back what it read, in writes of the same lengths, and has left the loop with the
socket closed if a read has returned the end of the file or an error other than EINTR. -/
structure Echoes (f : Flow Session) (l : List ReadAnswer) : Prop where
  written : (f.state.writes.map Write.bytes).flatten = (messages l).flatten
  lengths : f.state.writes.map Write.length = (messages l).map List.length
  ends : (∃ r ∈ l, r = .data [] ∨ r = .error false) ↔ ∃ s, f = .ret s ∧ s.closed = true

/-! ## One round -/

section Round

variable {s : Session}

theorem sizeT_of_le {n : ℕ} (hn : n ≤ bufLen) : sizeT n = n := by
  have hlt : (n : ℤ) < 2 ^ 64 := by
    have hbuf : (bufLen : ℤ) < 2 ^ 64 := by decide
    omega
  rw [sizeT, Int.emod_eq_of_lt (Int.natCast_nonneg n) hlt, Int.toNat_natCast]

-- No length of `buf`: behind a failed read `write` is called with this one.
example : sizeT (-1) = 2 ^ 64 - 1 := by decide

/-- A NUL stands at the end of `buf`, where `read` does not get to. -/
def Session.Ended (s : Session) : Prop := (0 : UInt8) ∈ s.buf.toList.drop (bufLen - 1)

theorem Session.Ended.print (hs : s.Ended) : s.print = .next s := by
  apply if_pos
  rw [cString_of_mem (List.mem_of_mem_drop hs)]
  rfl

theorem Session.Ended.receive (hs : s.Ended) {bs : List UInt8} (hbs : bs.length ≤ bufLen - 1) :
    (s.receive bs).Ended := by
  have hfit : bs.length ≤ bufLen := hbs.trans (Nat.sub_le _ _)
  show (0 : UInt8) ∈ (store s.buf 0 bs).toList.drop (bufLen - 1)
  rw [toList_store s.buf hfit, List.drop_append, List.drop_eq_nil_of_le hbs, List.nil_append, List.drop_drop,
    Nat.add_sub_cancel' hbs]
  exact hs

theorem Session.Ended.write (hs : s.Ended) (nread : ℤ) (spill : List UInt8) : (s.write nread spill).Ended := by
  simp only [Session.write]
  exact hs

/-- A message is written as it was read. -/
theorem write_receive {bs : List UInt8} (hbs : bs.length ≤ bufLen - 1) (spill : List UInt8) :
    ((s.receive bs).write bs.length spill).writes = s.writes ++ [⟨bs.length, bs⟩] := by
  have hfit : bs.length ≤ bufLen := hbs.trans (Nat.sub_le _ _)
  have hwindow : window (store s.buf 0 bs) 0 bs.length = bs := by
    simpa using window_store s.buf bs (Nat.le_refl 0) (by simpa using hfit)
  simp only [Session.write, sizeT_of_le hfit, if_pos hfit, Session.receive, hwindow]

end Round

/-! ## Every run -/

/-- What holds of a run whose reads returned `l`: there is a write for each message, and one for each error. -/
structure Inv (f : Flow Session) (l : List ReadAnswer) : Prop where
  ended : f.state.Ended
  count : f.state.writes.length = (messages l).length + l.count (.error false)
  echoes : (∀ r ∈ l, r ≠ .error false) → f.state.writes = (messages l).map fun bs => ⟨bs.length, bs⟩
  ends : .data [] ∈ l ↔ ∃ s, f = .ret s ∧ s.closed = true

section Run

variable {s : Session} {l : List ReadAnswer}

theorem messages_snoc_error (l : List ReadAnswer) (eintr : Bool) : messages (l ++ [.error eintr]) = messages l := by
  simp [messages]

theorem messages_snoc_eof (l : List ReadAnswer) : messages (l ++ [.data []]) = messages l := by
  simp [messages]

theorem messages_snoc_data (l : List ReadAnswer) (b : UInt8) (bs : List UInt8) :
    messages (l ++ [.data (b :: bs)]) = messages l ++ [b :: bs] := by
  simp [messages]

/-- A round that goes on: only the end of the buffer and the writes matter. -/
theorem Inv.next (h : Inv (.next s) l) {t : Session} {r : ReadAnswer} (hr : r ≠ .data []) (hended : t.Ended)
    (hcount : t.writes.length = (messages (l ++ [r])).length + (l ++ [r]).count (.error false))
    (hechoes : (∀ r' ∈ l ++ [r], r' ≠ .error false) →
      t.writes = (messages (l ++ [r])).map fun bs => ⟨bs.length, bs⟩) : Inv (.next t) (l ++ [r]) where
  ended := hended
  count := hcount
  echoes := hechoes
  ends := by
    have hopen : .data [] ∉ l := fun hmem => by
      obtain ⟨_, hret, -⟩ := h.ends.mp hmem
      cases hret
    simp [hopen, hr.symm]

/-- **One round keeps the invariant.** -/
theorem Inv.round (h : Inv (.next s) l) {a : Answers} (ha : a.Admits) :
    Inv (s.strEcho a).loopBack (l ++ [a.read]) := by
  have hcount : s.writes.length = (messages l).length + l.count (.error false) := h.count
  have hbefore : ∀ r, (∀ r' ∈ l ++ [r], r' ≠ .error false) →
      s.writes = (messages l).map fun bs => ⟨bs.length, bs⟩ := fun r hno =>
    h.echoes fun r' hr' => hno r' (List.mem_append_left _ hr')
  obtain ⟨read, spill⟩ := a
  match read with
  | .error true =>
    apply h.next (t := s) ReadAnswer.noConfusion h.ended
    · rw [messages_snoc_error, hcount]
      simp
    · rw [messages_snoc_error]
      exact hbefore _
  | .error false =>
    have hbuf : s.Ended := h.ended
    have hended := hbuf.write (-1) spill
    show Inv ((s.write (-1) spill).print).loopBack _
    rw [hended.print]
    apply h.next ReadAnswer.noConfusion hended
    · rw [messages_snoc_error, Session.write, List.length_append, hcount]
      simp [Nat.add_assoc]
    · intro hno
      exact absurd rfl (hno (.error false) (List.mem_append_right _ List.mem_cons_self))
  | .data [] =>
    refine ⟨h.ended, ?_, ?_, ?_⟩
    · rw [messages_snoc_eof]
      show s.writes.length = _
      simpa using hcount
    · rw [messages_snoc_eof]
      exact hbefore _
    · exact iff_of_true (List.mem_append_right _ List.mem_cons_self) ⟨_, rfl, rfl⟩
  | .data (b :: bs) =>
    have hlen : (b :: bs).length ≤ bufLen - 1 := ha
    have hbuf : s.Ended := h.ended
    have hended := (hbuf.receive hlen).write (b :: bs).length spill
    show Inv (((s.receive (b :: bs)).write (b :: bs).length spill).print).loopBack _
    rw [hended.print]
    apply h.next (by simp) hended
    · rw [write_receive hlen, messages_snoc_data, List.length_append, List.length_append, hcount]
      simp [Nat.add_right_comm]
    · intro hno
      rw [write_receive hlen, messages_snoc_data, List.map_append, hbefore _ hno]
      rfl

theorem one_write_each {f : Flow Session} (hf : server.Reachable (f, l)) : Inv f l := by
  refine whileLoop_observe_invariant (P := Inv) ⟨?_, rfl, fun _ => rfl, ?_⟩ ?_ hf
  · show (0 : UInt8) ∈ (cleared bufLen).toList.drop (bufLen - 1)
    rw [drop_cleared]
    exact List.mem_replicate.mpr ⟨by decide, rfl⟩
  · exact iff_of_false List.not_mem_nil fun ⟨_, hret, _⟩ => by cases hret
  · exact fun s l a _ h ha => h.round ha

end Run

/-! ## The main result -/

/-- **When `str_echo` echoes.**  In every run, whatever a write beyond the buffer puts on the socket. -/
theorem strEcho_echoes_iff {f : Flow Session} {l : List ReadAnswer} (hf : server.Reachable (f, l)) :
    Echoes f l ↔ .error false ∉ l := by
  have h := one_write_each hf
  constructor
  · intro hlaw
    have hlen := congrArg List.length hlaw.lengths
    rw [List.length_map, List.length_map, h.count] at hlen
    exact List.count_eq_zero.mp (by omega)
  · intro hno
    have hnone : ∀ r ∈ l, r ≠ .error false := fun r hr heq => hno (heq ▸ hr)
    have hwrites := h.echoes hnone
    constructor
    · rw [hwrites, List.map_map]
      exact congrArg List.flatten (List.map_id _)
    · rw [hwrites, List.map_map]
      rfl
    · rw [← h.ends]
      constructor
      · rintro ⟨r, hr, rfl | rfl⟩
        · exact hr
        · exact absurd hr hno
      · intro hr
        exact ⟨_, hr, .inl rfl⟩

/-- "hi" is echoed over an interruption, and the end of the file closes the socket. -/
theorem strEcho_echoes_iff_hi : ∃ f, server.Reachable (f, [.data [104, 105], .error true, .data []]) ∧
    Echoes f [.data [104, 105], .error true, .data []] := by
  obtain ⟨⟨f, l⟩, hf, hl⟩ := server.exists_reachable_of_run
    [⟨.data [104, 105], []⟩, ⟨.error true, []⟩, ⟨.data [], []⟩]
    (fun q => q.2 == [.data [104, 105], .error true, .data []]) (by decide +kernel)
  obtain rfl := beq_iff_eq.mp hl
  exact ⟨f, hf, (strEcho_echoes_iff hf).mpr (by decide)⟩

/-- The first read fails: `write` is called with 2 ^ 64 - 1 bytes, and the loop goes on. -/
theorem strEcho_writes_error : ∃ f l, server.Reachable (f, l) ∧ .error false ∈ l ∧
    f.state.writes.map Write.length = [2 ^ 64 - 1] ∧ (∃ s, f = .next s) ∧ ¬ Echoes f l := by
  have hf := System.reachable_of_run server [⟨.error false, []⟩] rfl
  exact ⟨_, _, hf, List.mem_cons_self, rfl, ⟨_, rfl⟩, fun hlaw => absurd hlaw.lengths (by decide)⟩

end NetProg.BasicTcpServer
