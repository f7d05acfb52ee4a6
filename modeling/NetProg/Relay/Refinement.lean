/-
# NetProg.Relay.Refinement -- `str_cli` refines a pair of half-closing channels.

`up` is the direction stdin to socket, `down` the direction socket to stdout.  `Sim s up down` reads the
two channels off the locals and the call log: each queue is what lies between the two cursors, the
histories are the bytes of the successful calls, and the end of `up` has been passed on exactly when
`shutdown` was called.  `Law` is what every single call may assume about the calls before it.

Each block of the loop body is one channel operation (`pull`, `finish`, `push`) or none, so the relation
is kept however the body leaves; it therefore holds in every state of every run (`strCli_relayed`).
-/
import NetProg.Relay.StrCli
import NetProg.Base.Channel
import NetProg.Base.EventLog

namespace NetProg.Relay

/-! ## What a log of calls transferred -/

/-- The bytes a call consumed from `fd`. -/
def Call.bytesRead (fd : Fd) : Call → List UInt8
  | .read fd' _ (.data bs) => if fd' = fd then bs else []
  | _ => []

/-- The bytes a call delivered to `fd`. -/
def Call.bytesWritten (fd : Fd) : Call → List UInt8
  | .write fd' buf (.wrote n) => if fd' = fd then buf.take n else []
  | _ => []

def bytesRead (fd : Fd) (l : List Call) : List UInt8 := l.flatMap (Call.bytesRead fd)
def bytesWritten (fd : Fd) (l : List Call) : List UInt8 := l.flatMap (Call.bytesWritten fd)

/-- Some `read` of `fd` returned 0. -/
def ReadZero (fd : Fd) (l : List Call) : Prop := ∃ len, Call.read fd len (.data []) ∈ l

@[simp] theorem bytesRead_append (fd : Fd) (l l' : List Call) :
    bytesRead fd (l ++ l') = bytesRead fd l ++ bytesRead fd l' := by
  simp [bytesRead]

@[simp] theorem bytesRead_cons (fd : Fd) (c : Call) (l : List Call) :
    bytesRead fd (c :: l) = c.bytesRead fd ++ bytesRead fd l := by
  simp [bytesRead]

@[simp] theorem bytesRead_nil (fd : Fd) : bytesRead fd [] = [] := rfl

@[simp] theorem bytesWritten_append (fd : Fd) (l l' : List Call) :
    bytesWritten fd (l ++ l') = bytesWritten fd l ++ bytesWritten fd l' := by
  simp [bytesWritten]

@[simp] theorem bytesWritten_cons (fd : Fd) (c : Call) (l : List Call) :
    bytesWritten fd (c :: l) = c.bytesWritten fd ++ bytesWritten fd l := by
  simp [bytesWritten]

@[simp] theorem bytesWritten_nil (fd : Fd) : bytesWritten fd [] = [] := rfl

/-- What a call may assume about the calls before it: `select` watches something, `read` and `write`
have room and bytes, nothing is written to the socket after `shutdown`, and `shutdown` is called once,
after stdin ended and all of it was written. -/
def Law (pre : List Call) : Call → Prop
  | .select r w => r ≠ ∅ ∨ w ≠ ∅
  | .read _ len _ => 1 ≤ len
  | .write fd buf _ => 1 ≤ buf.length ∧ (fd = .sockfd → Call.shutdown ∉ pre)
  | .shutdown => Call.shutdown ∉ pre ∧ ReadZero .stdin pre ∧
      bytesRead .stdin pre = bytesWritten .sockfd pre

/-! ## The simulation relation -/

/-- The locals and the log of `str_cli` represent the channels `up` and `down`. -/
structure Sim (s : StrCli) (up down : Channel UInt8) : Prop where
  up_buf : Buffered s.toBuf s.tooptr s.toiptr up.queue
  up_consumed : up.consumed = bytesRead .stdin s.calls
  up_delivered : up.delivered = bytesWritten .sockfd s.calls
  up_eof : up.eof = s.stdineof
  up_zero : s.stdineof = true ↔ ReadZero .stdin s.calls
  up_fin : up.fin = true ↔ Call.shutdown ∈ s.calls
  down_buf : Buffered s.frBuf s.froptr s.friptr down.queue
  down_consumed : down.consumed = bytesRead .sockfd s.calls
  down_delivered : down.delivered = bytesWritten .stdout s.calls
  /-- The relay leaves its loop at the socket's end, so `down` never sees it. -/
  down_eof : down.eof = false
  law : Each Law s.calls

def Relayed (s : StrCli) : Prop := ∃ up down, Sim s up down

/-- A call that moves no byte, reports no end of stdin and is no `shutdown`. -/
structure Silent (c : Call) : Prop where
  no_read : ∀ fd, c.bytesRead fd = []
  no_write : ∀ fd, c.bytesWritten fd = []
  no_zero : ∀ len, Call.read .stdin len (.data []) ≠ c
  no_shutdown : Call.shutdown ≠ c

namespace Sim

variable {s : StrCli} {up down : Channel UInt8}

theorem start (toBuf frBuf : Vector UInt8 maxSize) :
    Sim (StrCli.start toBuf frBuf) Channel.empty Channel.empty where
  up_buf := Buffered.start toBuf
  up_consumed := rfl
  up_delivered := rfl
  up_eof := rfl
  up_zero := by simp [StrCli.start, ReadZero]
  up_fin := by simp [StrCli.start, Channel.empty]
  down_buf := Buffered.start frBuf
  down_consumed := rfl
  down_delivered := rfl
  down_eof := rfl
  law := Each.nil

/-- The descriptor sets are not part of the relation. -/
theorem withSets (h : Sim s up down) (r w : Finset Fd) :
    Sim { s with rset := r, wset := w } up down := { h with }

theorem silent (h : Sim s up down) {c : Call} (hc : Silent c) (hlaw : Law s.calls c) :
    Sim (s.call c) up down :=
  { h with
    up_consumed := by simp [StrCli.call, hc.no_read, h.up_consumed]
    up_delivered := by simp [StrCli.call, hc.no_write, h.up_delivered]
    up_zero := by simp [StrCli.call, ReadZero, hc.no_zero, h.up_zero]
    up_fin := by simp [StrCli.call, hc.no_shutdown, h.up_fin]
    down_consumed := by simp [StrCli.call, hc.no_read, h.down_consumed]
    down_delivered := by simp [StrCli.call, hc.no_write, h.down_delivered]
    law := h.law.snoc hlaw }

/-- The end of the stream to the socket may be passed on exactly when it has not been yet. -/
theorem shutdown_free (h : Sim s up down) (hne : s.stdineof = false ∨ s.tooptr ≠ s.toiptr) :
    Call.shutdown ∉ s.calls := by
  rw [← h.up_fin, up.fin_iff, h.up_eof, h.up_buf.eq_nil_iff]
  rcases hne with hne | hne <;> simp [hne]

/-- `read` from stdin returned `xs`: a `pull`. -/
theorem pullStdin (h : Sim s up down) {xs : List UInt8} {len : ℕ} (hx : xs ≠ [])
    (hfit : s.toiptr + xs.length ≤ maxSize) (hlen : 1 ≤ len) (heof : up.eof = false)
    (w : Finset Fd) :
    Sim { s.call (.read .stdin len (.data xs)) with
      toBuf := store s.toBuf s.toiptr xs
      toiptr := s.toiptr + xs.length
      wset := w } (up.pull xs heof) down :=
  { h with
    up_buf := h.up_buf.fill hx hfit
    up_consumed := by simp [StrCli.call, Channel.pull, h.up_consumed, Call.bytesRead]
    up_delivered := by simp [StrCli.call, Channel.pull, h.up_delivered, Call.bytesWritten]
    up_zero := by simp [StrCli.call, ReadZero, hx, h.up_zero]
    up_fin := by simp [StrCli.call, Channel.pull, h.up_fin]
    down_consumed := by simp [StrCli.call, h.down_consumed, Call.bytesRead]
    down_delivered := by simp [StrCli.call, h.down_delivered, Call.bytesWritten]
    law := h.law.snoc hlen }

/-- `read` from stdin returned 0 while bytes are pending: a `finish` that does not pass the end on. -/
theorem finishPending (h : Sim s up down) {len : ℕ} (hlen : 1 ≤ len) (hne : s.tooptr ≠ s.toiptr) :
    Sim { s.call (.read .stdin len (.data [])) with stdineof := true } up.finish down :=
  { h with
    up_consumed := by simp [StrCli.call, Channel.finish, h.up_consumed, Call.bytesRead]
    up_delivered := by simp [StrCli.call, Channel.finish, h.up_delivered, Call.bytesWritten]
    up_eof := rfl
    up_zero := by simp [StrCli.call, ReadZero]
    up_fin := by
      have := h.shutdown_free (Or.inr hne)
      simpa [StrCli.call, Channel.finish, this] using mt h.up_buf.eq_nil_iff.mp hne
    down_consumed := by simp [StrCli.call, h.down_consumed, Call.bytesRead]
    down_delivered := by simp [StrCli.call, h.down_delivered, Call.bytesWritten]
    law := h.law.snoc hlen }

/-- `read` from stdin returned 0 with nothing pending: a `finish` that calls `shutdown` at once. -/
theorem finishDrained (h : Sim s up down) {len : ℕ} (hlen : 1 ≤ len) (heof : s.stdineof = false)
    (hnil : s.tooptr = s.toiptr) :
    Sim (({ s.call (.read .stdin len (.data [])) with stdineof := true } : StrCli).call .shutdown)
      up.finish down :=
  have hq : up.queue = [] := h.up_buf.eq_nil_iff.mpr hnil
  have hsent : bytesRead .stdin s.calls = bytesWritten .sockfd s.calls := by
    rw [← h.up_consumed, ← h.up_delivered, up.consumed_eq_delivered_iff]
    exact hq
  { h with
    up_consumed := by simp [StrCli.call, Channel.finish, h.up_consumed, Call.bytesRead]
    up_delivered := by simp [StrCli.call, Channel.finish, h.up_delivered, Call.bytesWritten]
    up_eof := rfl
    up_zero := by simp [StrCli.call, ReadZero]
    up_fin := by simp [StrCli.call, Channel.finish, hq]
    down_consumed := by simp [StrCli.call, h.down_consumed, Call.bytesRead]
    down_delivered := by simp [StrCli.call, h.down_delivered, Call.bytesWritten]
    law := by
      have hread : Each Law (s.calls ++ [.read .stdin len (.data [])]) := h.law.snoc hlen
      have hfree : Call.shutdown ∉ s.calls := h.shutdown_free (Or.inl heof)
      refine hread.snoc (show Law _ .shutdown from ⟨?_, ⟨len, by simp⟩, ?_⟩)
      · simpa using hfree
      · simpa [Call.bytesRead, Call.bytesWritten] using hsent }

/-- `read` from the socket returned `xs`: a `pull`. -/
theorem pullSock (h : Sim s up down) {xs : List UInt8} {len : ℕ} (hx : xs ≠ [])
    (hfit : s.friptr + xs.length ≤ maxSize) (hlen : 1 ≤ len) (w : Finset Fd) :
    Sim { s.call (.read .sockfd len (.data xs)) with
      frBuf := store s.frBuf s.friptr xs
      friptr := s.friptr + xs.length
      wset := w } up (down.pull xs h.down_eof) :=
  { h with
    up_buf := by simpa [StrCli.call] using h.up_buf
    up_consumed := by simp [StrCli.call, h.up_consumed, Call.bytesRead]
    up_delivered := by simp [StrCli.call, h.up_delivered, Call.bytesWritten]
    up_zero := by simp [StrCli.call, ReadZero, h.up_zero]
    up_fin := by simp [StrCli.call, h.up_fin]
    down_buf := h.down_buf.fill hx hfit
    down_consumed := by simp [StrCli.call, Channel.pull, h.down_consumed, Call.bytesRead]
    down_delivered := by simp [StrCli.call, Channel.pull, h.down_delivered, Call.bytesWritten]
    law := h.law.snoc hlen }

/-- `write` to stdout took `k` of the pending bytes: a `push`. -/
theorem pushStdout (h : Sim s up down) {k : ℕ} (hlt : s.froptr < s.friptr)
    {o i : ℕ} (hbuf : Buffered s.frBuf o i (down.queue.drop k)) :
    Sim { s.call (.write .stdout (window s.frBuf s.froptr s.friptr) (.wrote k)) with
      froptr := o
      friptr := i } up (down.push k) :=
  { h with
    up_consumed := by simp [StrCli.call, h.up_consumed, Call.bytesRead]
    up_delivered := by simp [StrCli.call, h.up_delivered, Call.bytesWritten]
    up_zero := by simp [StrCli.call, ReadZero, h.up_zero]
    up_fin := by simp [StrCli.call, h.up_fin]
    down_buf := hbuf
    down_consumed := by simp [StrCli.call, Channel.push, h.down_consumed, Call.bytesRead]
    down_delivered := by
      simp [StrCli.call, Channel.push, h.down_delivered, Call.bytesWritten, h.down_buf.queue]
    law := h.law.snoc (by
      refine ⟨?_, by simp⟩
      rw [length_window s.frBuf h.down_buf.bound]
      omega) }

/-- `write` to the socket took `k` of the pending bytes and left some, or stdin has not ended: a
`push` that passes no end on. -/
theorem pushSock (h : Sim s up down) {k : ℕ} (hlt : s.tooptr < s.toiptr)
    {o i : ℕ} (hbuf : Buffered s.toBuf o i (up.queue.drop k)) (hno : s.stdineof = false ∨ o ≠ i) :
    Sim { s.call (.write .sockfd (window s.toBuf s.tooptr s.toiptr) (.wrote k)) with
      tooptr := o
      toiptr := i } (up.push k) down :=
  have hfree : Call.shutdown ∉ s.calls := h.shutdown_free (Or.inr hlt.ne)
  { h with
    up_buf := hbuf
    up_consumed := by simp [StrCli.call, Channel.push, h.up_consumed, Call.bytesRead]
    up_delivered := by
      simp [StrCli.call, Channel.push, h.up_delivered, Call.bytesWritten, h.up_buf.queue]
    up_eof := h.up_eof
    up_zero := by simp [StrCli.call, ReadZero, h.up_zero]
    up_fin := by
      rw [(up.push k).fin_iff]
      have hq : up.queue.drop k = [] ↔ o = i := hbuf.eq_nil_iff
      rcases hno with hno | hno <;> simp [StrCli.call, Channel.push, h.up_eof, hq, hfree, hno]
    down_consumed := by simp [StrCli.call, h.down_consumed, Call.bytesRead]
    down_delivered := by simp [StrCli.call, h.down_delivered, Call.bytesWritten]
    law := h.law.snoc (by
      refine ⟨?_, fun _ => hfree⟩
      rw [length_window s.toBuf h.up_buf.bound]
      omega) }

/-- `write` to the socket took all pending bytes after stdin ended: a `push` that passes the end on. -/
theorem pushLast (h : Sim s up down) {k : ℕ} (hlt : s.tooptr < s.toiptr)
    (hk : s.tooptr + k = s.toiptr) (heof : s.stdineof = true) :
    Sim (({ s.call (.write .sockfd (window s.toBuf s.tooptr s.toiptr) (.wrote k)) with
      tooptr := 0
      toiptr := 0 } : StrCli).call .shutdown) (up.push k) down :=
  have hbuf : Buffered s.toBuf 0 0 (up.queue.drop k) := h.up_buf.drain_all hk
  have hfree : Call.shutdown ∉ s.calls := h.shutdown_free (Or.inr hlt.ne)
  have hall : (window s.toBuf s.tooptr s.toiptr).take k = up.queue := by
    rw [h.up_buf.queue, window_take s.toBuf hk.le, hk]
  { h with
    up_buf := hbuf
    up_consumed := by simp [StrCli.call, Channel.push, h.up_consumed, Call.bytesRead]
    up_delivered := by
      simp [StrCli.call, Channel.push, h.up_delivered, Call.bytesWritten, h.up_buf.queue]
    up_eof := h.up_eof
    up_zero := by simp [StrCli.call, ReadZero, h.up_zero]
    up_fin := by simp [StrCli.call, Channel.push, h.up_eof, heof, hbuf.eq_nil_iff.mpr rfl]
    down_consumed := by simp [StrCli.call, h.down_consumed, Call.bytesRead]
    down_delivered := by simp [StrCli.call, h.down_delivered, Call.bytesWritten]
    law := by
      have hwrite : Each Law (s.calls ++
          [.write .sockfd (window s.toBuf s.tooptr s.toiptr) (.wrote k)]) := by
        refine h.law.snoc ⟨?_, fun _ => hfree⟩
        rw [length_window s.toBuf h.up_buf.bound]
        omega
      have hsent : bytesRead .stdin s.calls =
          bytesWritten .sockfd s.calls ++ (window s.toBuf s.tooptr s.toiptr).take k := by
        rw [← h.up_consumed, ← h.up_delivered, hall]
        exact up.conserve
      obtain ⟨len, hzero⟩ := h.up_zero.mp heof
      refine hwrite.snoc (show Law _ .shutdown from ⟨?_, ⟨len, by simp [hzero]⟩, ?_⟩)
      · simpa using hfree
      · simpa [Call.bytesRead, Call.bytesWritten] using hsent }

end Sim

/-! ## The blocks of the loop body -/

theorem silent_select (r w : Finset Fd) : Silent (.select r w) where
  no_read _ := rfl
  no_write _ := rfl
  no_zero _ := nofun
  no_shutdown := nofun

theorem silent_read {fd : Fd} {len : ℕ} {a : ReadAnswer} (ha : ∀ bs, a ≠ .data bs) :
    Silent (.read fd len a) := by
  cases a with
  | data bs => exact absurd rfl (ha bs)
  | wouldBlock => exact ⟨fun _ => rfl, fun _ => rfl, nofun, nofun⟩
  | error => exact ⟨fun _ => rfl, fun _ => rfl, nofun, nofun⟩

theorem silent_write {fd : Fd} {buf : List UInt8} {a : WriteAnswer} (ha : ∀ n, a ≠ .wrote n) :
    Silent (.write fd buf a) := by
  cases a with
  | wrote n => exact absurd rfl (ha n)
  | wouldBlock => exact ⟨fun _ => rfl, fun _ => rfl, nofun, nofun⟩
  | error => exact ⟨fun _ => rfl, fun _ => rfl, nofun, nofun⟩

/-- The socket's end is reported by a call that moves no byte. -/
theorem silent_sockZero (len : ℕ) : Silent (.read .sockfd len (.data [])) where
  no_read fd := by simp [Call.bytesRead]
  no_write _ := rfl
  no_zero _ := nofun
  no_shutdown := nofun

/-- What the read blocks rely on: a descriptor is watched only while its array has room. -/
structure Watched (s : StrCli) : Prop where
  stdin : Fd.stdin ∈ s.rset → s.stdineof = false ∧ s.toiptr < maxSize
  sockfd : Fd.sockfd ∈ s.rset → s.friptr < maxSize

theorem WriteAnswer.le_of_upTo {a : WriteAnswer} {len k : ℕ} (h : a.upTo len = .wrote k) :
    k ≤ len := by
  cases a with
  | wouldBlock => cases h
  | error => cases h
  | wrote n =>
    cases h
    exact Nat.min_le_right n len

theorem maxSize_pos : 0 < maxSize := by decide

/-- A full buffer always has unsent bytes, so one of the two sets passed to `select` is inhabited. -/
theorem Sim.sets_ne {s : StrCli} {up down : Channel UInt8} (h : Sim s up down) :
    s.buildSets.rset ≠ ∅ ∨ s.buildSets.wset ≠ ∅ := by
  by_cases hroom : s.friptr < maxSize
  · left
    exact Finset.ne_empty_of_mem (a := Fd.sockfd) (by simp [StrCli.buildSets, hroom])
  · right
    have hpend : s.froptr ≠ s.friptr := h.down_buf.ne_nil_of_full maxSize_pos (by omega)
    exact Finset.ne_empty_of_mem (a := Fd.stdout) (by simp [StrCli.buildSets, hpend])

theorem select_relayed {s : StrCli} (h : Relayed s) (a : SelectAnswer) :
    Relayed (s.buildSets.select a) ∧ Watched (s.buildSets.select a) := by
  rcases h with ⟨up, down, h⟩
  have hb : Sim s.buildSets up down := h.withSets _ _
  have hs := hb.silent (silent_select _ _) (show Law _ (.select _ _) from h.sets_ne)
  constructor
  · cases a with
    | failed => exact ⟨up, down, hs⟩
    | ready r w => exact ⟨up, down, hs.withSets _ _⟩
  · have hin : Fd.stdin ∈ s.buildSets.rset → s.stdineof = false ∧ s.toiptr < maxSize := by
      simp only [StrCli.buildSets]
      split_ifs <;> simp [*]
    have hsock : Fd.sockfd ∈ s.buildSets.rset → s.friptr < maxSize := by
      simp only [StrCli.buildSets]
      split_ifs <;> simp [*]
    cases a with
    | failed => exact ⟨hin, hsock⟩
    | ready r w =>
      exact ⟨fun hr => hin (Finset.mem_inter.mp hr).1, fun hr => hsock (Finset.mem_inter.mp hr).1⟩

theorem readStdin_relayed {s : StrCli} (h : Relayed s) (hw : Watched s) (a : ReadAnswer) :
    (s.readStdin a).Splits (fun s' => Relayed s' ∧ (.sockfd ∈ s'.rset → s'.friptr < maxSize))
      Relayed := by
  rcases h with ⟨up, down, h⟩
  unfold StrCli.readStdin
  by_cases hin : Fd.stdin ∈ s.rset
  · obtain ⟨heof, hroom⟩ := hw.stdin hin
    have hlen : 1 ≤ maxSize - s.toiptr := by omega
    rw [if_pos hin]
    cases a with
    | wouldBlock => exact ⟨⟨up, down, h.silent (silent_read nofun) hlen⟩, hw.sockfd⟩
    | error => exact ⟨up, down, h.silent (silent_read nofun) hlen⟩
    | data bs =>
      dsimp only [ReadAnswer.upTo]
      by_cases hz : (bs.take (maxSize - s.toiptr)).length = 0
      -- no byte in a non-empty buffer is the end of stdin, and with nothing pending it is passed on
      · rw [if_pos hz, List.length_eq_zero_iff.mp hz]
        split
        case isTrue hnil => exact ⟨⟨_, down, h.finishDrained hlen heof hnil⟩, hw.sockfd⟩
        case isFalse hnil => exact ⟨⟨_, down, h.finishPending hlen hnil⟩, hw.sockfd⟩
      · rw [if_neg hz]
        have hx : bs.take (maxSize - s.toiptr) ≠ [] := mt List.length_eq_zero_iff.mpr hz
        have hfit : s.toiptr + (bs.take (maxSize - s.toiptr)).length ≤ maxSize := by
          rw [List.length_take]
          omega
        exact ⟨⟨_, down, h.pullStdin hx hfit hlen (h.up_eof.trans heof) _⟩, hw.sockfd⟩
  · rw [if_neg hin]
    exact ⟨⟨up, down, h⟩, hw.sockfd⟩

theorem readSock_relayed {s : StrCli} (h : Relayed s)
    (hw : Fd.sockfd ∈ s.rset → s.friptr < maxSize) (a : ReadAnswer) :
    (s.readSock a).Splits Relayed Relayed := by
  rcases h with ⟨up, down, h⟩
  unfold StrCli.readSock
  by_cases hin : Fd.sockfd ∈ s.rset
  · have hroom := hw hin
    have hlen : 1 ≤ maxSize - s.friptr := by omega
    rw [if_pos hin]
    cases a with
    | wouldBlock => exact ⟨up, down, h.silent (silent_read nofun) hlen⟩
    | error => exact ⟨up, down, h.silent (silent_read nofun) hlen⟩
    | data bs =>
      dsimp only [ReadAnswer.upTo]
      by_cases hz : (bs.take (maxSize - s.friptr)).length = 0
      · -- the socket's end: whether this returns or exits, the log gains one silent call
        have hend : Relayed (s.call (.read .sockfd (maxSize - s.friptr) (.data []))) :=
          ⟨up, down, h.silent (silent_sockZero _) hlen⟩
        rw [if_pos hz, List.length_eq_zero_iff.mp hz]
        split <;> exact hend
      · rw [if_neg hz]
        have hx : bs.take (maxSize - s.friptr) ≠ [] := mt List.length_eq_zero_iff.mpr hz
        have hfit : s.friptr + (bs.take (maxSize - s.friptr)).length ≤ maxSize := by
          rw [List.length_take]
          omega
        exact ⟨up, _, h.pullSock hx hfit hlen _⟩
  · rw [if_neg hin]
    exact ⟨up, down, h⟩

theorem writeStdout_relayed {s : StrCli} (h : Relayed s) (a : WriteAnswer) :
    (s.writeStdout a).Splits Relayed Relayed := by
  rcases h with ⟨up, down, h⟩
  unfold StrCli.writeStdout
  by_cases hgo : Fd.stdout ∈ s.wset ∧ 0 < s.friptr - s.froptr
  · have hlt : s.froptr < s.friptr := by omega
    have hn : s.froptr + (s.friptr - s.froptr) = s.friptr := by omega
    have hbuf : 1 ≤ (window s.frBuf s.froptr s.friptr).length := by
      rw [length_window s.frBuf h.down_buf.bound]
      omega
    have hlaw : ∀ a, Law s.calls (.write .stdout (window s.frBuf s.froptr s.friptr) a) :=
      fun _ => ⟨hbuf, nofun⟩
    rw [if_pos hgo, hn]
    generalize hans : a.upTo _ = ans
    cases ans with
    | wouldBlock => exact ⟨up, down, h.silent (silent_write nofun) (hlaw _)⟩
    | error => exact ⟨up, down, h.silent (silent_write nofun) (hlaw _)⟩
    | wrote k =>
      have hk := WriteAnswer.le_of_upTo hans
      show Flow.Splits _ _ (.next (if s.froptr + k = s.friptr then _ else _))
      split
      case isTrue hall => exact ⟨up, _, h.pushStdout hlt (h.down_buf.drain_all hall)⟩
      case isFalse hsome => exact ⟨up, _, h.pushStdout hlt (h.down_buf.drain (by omega))⟩
  · rw [if_neg hgo]
    exact ⟨up, down, h⟩

theorem writeSock_relayed {s : StrCli} (h : Relayed s) (a : WriteAnswer) :
    (s.writeSock a).Splits Relayed Relayed := by
  rcases h with ⟨up, down, h⟩
  unfold StrCli.writeSock
  by_cases hgo : Fd.sockfd ∈ s.wset ∧ 0 < s.toiptr - s.tooptr
  · have hlt : s.tooptr < s.toiptr := by omega
    have hn : s.tooptr + (s.toiptr - s.tooptr) = s.toiptr := by omega
    have hbuf : 1 ≤ (window s.toBuf s.tooptr s.toiptr).length := by
      rw [length_window s.toBuf h.up_buf.bound]
      omega
    have hlaw : ∀ a, Law s.calls (.write .sockfd (window s.toBuf s.tooptr s.toiptr) a) :=
      fun _ => ⟨hbuf, fun _ => h.shutdown_free (Or.inr hlt.ne)⟩
    rw [if_pos hgo, hn]
    generalize hans : a.upTo _ = ans
    cases ans with
    | wouldBlock => exact ⟨up, down, h.silent (silent_write nofun) (hlaw _)⟩
    | error => exact ⟨up, down, h.silent (silent_write nofun) (hlaw _)⟩
    | wrote k =>
      have hk := WriteAnswer.le_of_upTo hans
      -- the end is passed on by this block only when the write drains a queue that has ended
      show Flow.Splits _ _ (if s.tooptr + k = s.toiptr then .next (if s.stdineof then _ else _) else _)
      split
      case isTrue hall =>
        split
        case isTrue heof => exact ⟨_, down, h.pushLast hlt hall heof⟩
        case isFalse heof =>
          have heof : s.stdineof = false := Bool.not_eq_true _ ▸ heof
          exact ⟨_, down, h.pushSock hlt (h.up_buf.drain_all hall) (Or.inl heof)⟩
      case isFalse hsome =>
        exact ⟨_, down, h.pushSock hlt (h.up_buf.drain (by omega)) (Or.inr hsome)⟩
  · rw [if_neg hgo]
    exact ⟨up, down, h⟩

/-- One pass keeps the relation, however it ends. -/
theorem body_relayed {s : StrCli} (h : Relayed s) (a : Answers) : (s.body a).Holds Relayed := by
  obtain ⟨hs, hw⟩ := select_relayed h a.select
  apply Flow.Splits.holds
  apply (readStdin_relayed hs hw a.readStdin).andThen
  intro s₁ h₁
  apply (readSock_relayed h₁.1 h₁.2 a.readSock).andThen
  intro s₂ h₂
  exact (writeStdout_relayed h₂ a.writeStdout).andThen fun s₃ h₃ => writeSock_relayed h₃ a.writeSock

/-- **`str_cli` refines the two channels** in every state of every run. -/
theorem strCli_relayed {toBuf frBuf : Vector UInt8 maxSize} {f : Flow StrCli}
    (h : (strCli toBuf frBuf).Reachable f) : Relayed f.state :=
  whileLoop_invariant (I := Relayed) ⟨_, _, Sim.start toBuf frBuf⟩
    (fun _ a _ hI _ => body_relayed hI a) h

end NetProg.Relay
