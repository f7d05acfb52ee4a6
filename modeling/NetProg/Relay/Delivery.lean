/-
# NetProg.Relay.Delivery -- what `str_cli` guarantees about the bytes and the half-close.

Read off the refinement of `NetProg.Relay.Refinement`: the cursor and conservation laws in every state, and
the half-close discipline over the whole call log.
-/
import NetProg.Relay.Refinement

namespace NetProg.Relay

/-! ## Cursors, conservation and the arguments of the calls -/

/-- The state laws of the relay. -/
structure Conserves (s : StrCli) : Prop where
  to_cursors : s.tooptr ≤ s.toiptr ∧ s.toiptr ≤ maxSize
  fr_cursors : s.froptr ≤ s.friptr ∧ s.friptr ≤ maxSize
  stdin_to_sock : bytesRead .stdin s.calls =
    bytesWritten .sockfd s.calls ++ window s.toBuf s.tooptr s.toiptr
  sock_to_stdout : bytesRead .sockfd s.calls =
    bytesWritten .stdout s.calls ++ window s.frBuf s.froptr s.friptr
  read_len : ∀ fd len ans, Call.read fd len ans ∈ s.calls → 1 ≤ len
  write_len : ∀ fd buf ans, Call.write fd buf ans ∈ s.calls → 1 ≤ buf.length
  to_full : s.toiptr = maxSize → s.tooptr < s.toiptr
  fr_full : s.friptr = maxSize → s.froptr < s.friptr
  select_sets : ∀ r w, Call.select r w ∈ s.calls → r ≠ ∅ ∨ w ≠ ∅

/-- A law of the log, read at one of its entries. -/
theorem Sim.law_of_mem {s : StrCli} {up down : Channel UInt8} (h : Sim s up down) {c : Call}
    (hc : c ∈ s.calls) : ∃ pre post, s.calls = pre ++ c :: post ∧ Law pre c := by
  obtain ⟨pre, post, hcut⟩ := List.append_of_mem hc
  exact ⟨pre, post, hcut, h.law pre c post hcut⟩

theorem Sim.conserves {s : StrCli} {up down : Channel UInt8} (h : Sim s up down) : Conserves s where
  to_cursors := ⟨h.up_buf.le, h.up_buf.bound⟩
  fr_cursors := ⟨h.down_buf.le, h.down_buf.bound⟩
  stdin_to_sock := by
    rw [← h.up_consumed, ← h.up_delivered, ← h.up_buf.queue]
    exact up.conserve
  sock_to_stdout := by
    rw [← h.down_consumed, ← h.down_delivered, ← h.down_buf.queue]
    exact down.conserve
  read_len := by
    intro fd len ans hc
    obtain ⟨pre, post, _, hlaw⟩ := h.law_of_mem hc
    exact hlaw
  write_len := by
    intro fd buf ans hc
    obtain ⟨pre, post, _, hlaw⟩ := h.law_of_mem hc
    exact hlaw.1
  to_full := fun hfull =>
    Nat.lt_of_le_of_ne h.up_buf.le (h.up_buf.ne_nil_of_full maxSize_pos hfull.ge)
  fr_full := fun hfull =>
    Nat.lt_of_le_of_ne h.down_buf.le (h.down_buf.ne_nil_of_full maxSize_pos hfull.ge)
  select_sets := by
    intro r w hc
    obtain ⟨pre, post, _, hlaw⟩ := h.law_of_mem hc
    exact hlaw

/-- **The relay conserves its bytes**: in every state of every run, so at every loop head, the cursors
are in range, the bytes consumed are the bytes delivered followed by the pending ones, no call has an
empty buffer and `select` always watches something. -/
theorem strCli_conserves (toBuf frBuf : Vector UInt8 maxSize) (f : Flow StrCli)
    (h : (strCli toBuf frBuf).Reachable f) : Conserves f.state := by
  obtain ⟨up, down, hsim⟩ := strCli_relayed h
  exact hsim.conserves

/-- An iteration in which stdin ends, the socket gives two bytes and stdout takes one of them. -/
def oneByteLate : Answers where
  select := .ready {.stdin, .sockfd} ∅
  readStdin := .data []
  readSock := .data [104, 105]
  writeStdout := .wrote 1
  writeSock := .wouldBlock

theorem strCli_conserves_oneByteLate :
    Conserves ((StrCli.start (Vector.replicate _ 0) (Vector.replicate _ 0)).body oneByteLate).loopBack.state :=
  strCli_conserves (Vector.replicate _ 0) (Vector.replicate _ 0) _
    (AtHead.start.pass (e := oneByteLate) trivial)

/-! ## The half-close -/

/-- The half-close discipline of a call log. -/
structure HalfClosed (l : List Call) : Prop where
  once : ∀ pre post, l = pre ++ .shutdown :: post → Call.shutdown ∉ pre ∧ Call.shutdown ∉ post
  after_eof : ∀ pre post, l = pre ++ .shutdown :: post →
    ReadZero .stdin pre ∧ bytesRead .stdin pre = bytesWritten .sockfd pre
  no_write_after : ∀ pre post, l = pre ++ .shutdown :: post →
    ∀ buf ans, Call.write .sockfd buf ans ∉ post

theorem halfClosed_of_law {l : List Call} (h : Each Law l) : HalfClosed l where
  once := by
    intro pre post hcut
    -- a second `shutdown` would have the first one among the calls before it
    refine ⟨(h pre .shutdown post hcut).1, fun hmem => ?_⟩
    obtain ⟨mid, rest, rfl⟩ := List.append_of_mem hmem
    have := (h (pre ++ .shutdown :: mid) .shutdown rest (by simp [hcut])).1
    simp at this
  after_eof := fun pre post hcut => (h pre .shutdown post hcut).2
  no_write_after := by
    intro pre post hcut buf ans hmem
    obtain ⟨mid, rest, rfl⟩ := List.append_of_mem hmem
    have := (h (pre ++ .shutdown :: mid) (.write .sockfd buf ans) rest (by simp [hcut])).2 rfl
    simp at this

/-- **Half-close.** In every run `shutdown` is called at most once, after stdin ended and everything read
from it was written, and no write to the socket follows; and once stdin has ended and nothing is pending
it has been called. -/
theorem strCli_halfClose (toBuf frBuf : Vector UInt8 maxSize) (f : Flow StrCli)
    (h : (strCli toBuf frBuf).Reachable f) :
    HalfClosed f.state.calls ∧
      (f.state.stdineof = true → f.state.tooptr = f.state.toiptr → Call.shutdown ∈ f.state.calls) := by
  obtain ⟨up, down, hsim⟩ := strCli_relayed h
  refine ⟨halfClosed_of_law hsim.law, fun heof hnil => ?_⟩
  have hq : up.queue = [] := hsim.up_buf.eq_nil_iff.mpr hnil
  exact hsim.up_fin.mp (up.fin_iff.mpr ⟨hsim.up_eof.trans heof, hq⟩)

theorem strCli_halfClose_oneByteLate :
    Call.shutdown ∈
      ((StrCli.start (Vector.replicate _ 0) (Vector.replicate _ 0)).body oneByteLate).loopBack.state.calls :=
  (strCli_halfClose (Vector.replicate _ 0) (Vector.replicate _ 0) _
    (AtHead.start.pass (e := oneByteLate) trivial)).2 rfl rfl

end NetProg.Relay
