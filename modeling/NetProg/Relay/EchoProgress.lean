/-
# NetProg.Relay.EchoProgress -- `str_cli` against the echo server comes to its end.

What was read and written on the two sides, and what is on its way, is the text (`Echoed`); this is kept by every
call whose answer the kernel can give, whatever the client does with it.  With the laws of the client's own two
buffers (`Conserves`) it bounds the bytes that calls can move.  Each block either moves something or leaves the
state as it is (`Outcome`), and a pass that `select` has let through keeps a block ahead that will move something
(`Promise`) until it has.
-/
import NetProg.Relay.EchoPeer
import NetProg.Relay.NormalReturn

namespace NetProg.Relay

/-! ## The account of the bytes -/

/-- The kernel and the server can give this answer. -/
def Net.Gives (n : Net) : Call → Prop
  | .read .stdin _ (.data bs) => bs <+: n.input ∧ (bs = [] → n.input = [])
  | .read .sockfd _ (.data bs) => bs <+: n.toClient ∧ (bs = [] → n.toClient = [] ∧ n.closed = true)
  | .read .stdout _ _ | .write .stdin _ _ => False
  | _ => True

def Net.GivesAll (n : Net) : List Call → Prop
  | [] => True
  | c :: cs => n.Gives c ∧ (n.after c).GivesAll cs

/-- The bytes that a call moves. -/
def Call.gain : Call → ℕ
  | .read _ _ (.data bs) => bs.length
  | .write _ bs (.wrote k) => (bs.take k).length
  | _ => 0

def gains (cs : List Call) : ℕ := (cs.map Call.gain).sum

/-- The bytes that calls of either side have moved so far, and the end that the server has seen. -/
def moved (calls : List Call) (n : Net) : ℕ :=
  (bytesRead .stdin calls).length + (bytesWritten .sockfd calls).length +
    (n.buf.length + n.toClient.length + (bytesRead .sockfd calls).length) +
    (n.toClient.length + (bytesRead .sockfd calls).length) +
    (bytesRead .sockfd calls).length + (bytesWritten .stdout calls).length + n.closed.toNat

/-- What was read and written makes up the text, and the server's answer is what it was sent. -/
structure Echoed (text : List UInt8) (calls : List Call) (n : Net) : Prop where
  input : bytesRead .stdin calls ++ n.input = text
  echo : bytesRead .sockfd calls ++ (n.toClient ++ (n.buf ++ n.toServer)) = bytesWritten .sockfd calls
  output : n.output = bytesWritten .stdout calls
  ended : ReadZero .stdin calls → n.input = []
  fin : n.fin = true ↔ Call.shutdown ∈ calls
  closed : n.closed = true → n.fin = true ∧ n.toServer = [] ∧ n.buf = []

section Account

variable {text : List UInt8} {calls : List Call} {n : Net} {c : Call}

theorem Echoed.start (text : List UInt8) : Echoed text [] (Net.start text) where
  input := rfl
  echo := rfl
  output := rfl
  ended := by simp [ReadZero]
  fin := by simp [Net.start]
  closed := nofun

theorem readZero_snoc {c : Call} : ReadZero .stdin (calls ++ [c]) ↔
    ReadZero .stdin calls ∨ ∃ len, c = .read .stdin len (.data []) := by
  simp [ReadZero, exists_or, eq_comm]

/-- **A call keeps the account.** -/
theorem Echoed.call (h : Echoed text calls n) (hlaw : Law calls c) (hgives : n.Gives c) :
    Echoed text (calls ++ [c]) (n.after c) := by
  match c with
  | .select _ _ | .read .stdin _ .wouldBlock | .read .stdin _ .error | .read .sockfd _ .wouldBlock
  | .read .sockfd _ .error | .write .sockfd _ .wouldBlock | .write .sockfd _ .error
  | .write .stdout _ .wouldBlock | .write .stdout _ .error =>
    refine ⟨?_, ?_, ?_, ?_, ?_, h.closed⟩
    · simpa [Call.bytesRead, Net.after] using h.input
    · simpa [Call.bytesRead, Call.bytesWritten, Net.after] using h.echo
    · simpa [Call.bytesWritten, Net.after] using h.output
    · simpa [readZero_snoc, Net.after] using h.ended
    · simpa [Net.after] using h.fin
  | .read .stdin _ (.data bs) =>
    obtain ⟨⟨rest, hrest⟩, hend⟩ := hgives
    refine ⟨?_, ?_, ?_, ?_, ?_, h.closed⟩
    · have hinput := h.input
      rw [← hrest] at hinput
      simpa [Call.bytesRead, Net.after, ← hrest] using hinput
    · simpa [Call.bytesRead, Call.bytesWritten, Net.after] using h.echo
    · simpa [Call.bytesWritten, Net.after] using h.output
    · rw [readZero_snoc]
      rintro (hbefore | ⟨len, hc⟩)
      · simp [Net.after, h.ended hbefore]
      · cases hc
        simp [Net.after, hend rfl]
    · simpa [Net.after] using h.fin
  | .read .sockfd _ (.data bs) =>
    obtain ⟨⟨rest, hrest⟩, hend⟩ := hgives
    refine ⟨?_, ?_, ?_, ?_, ?_, h.closed⟩
    · simpa [Call.bytesRead, Net.after] using h.input
    · have hecho := h.echo
      rw [← hrest] at hecho
      simpa [Call.bytesRead, Call.bytesWritten, Net.after, ← hrest] using hecho
    · simpa [Call.bytesWritten, Net.after] using h.output
    · simpa [readZero_snoc, Net.after] using h.ended
    · simpa [Net.after] using h.fin
  | .write .sockfd bs (.wrote k) =>
    -- it comes before the shutdown, so the server has not closed its socket
    have hfin : n.fin = false := by
      rw [← Bool.not_eq_true, h.fin]
      exact hlaw.2 rfl
    refine ⟨?_, ?_, ?_, ?_, ?_, ?_⟩
    · simpa [Call.bytesRead, Net.after] using h.input
    · simpa [Call.bytesRead, Call.bytesWritten, Net.after] using congrArg (· ++ bs.take k) h.echo
    · simpa [Call.bytesWritten, Net.after] using h.output
    · simpa [readZero_snoc, Net.after] using h.ended
    · simpa [Net.after] using h.fin
    · intro hclosed
      rw [(h.closed hclosed).1] at hfin
      cases hfin
  | .write .stdout bs (.wrote k) =>
    refine ⟨?_, ?_, ?_, ?_, ?_, h.closed⟩
    · simpa [Call.bytesRead, Net.after] using h.input
    · simpa [Call.bytesRead, Call.bytesWritten, Net.after] using h.echo
    · simp [Call.bytesWritten, Net.after, h.output]
    · simpa [readZero_snoc, Net.after] using h.ended
    · simpa [Net.after] using h.fin
  | .shutdown =>
    refine ⟨?_, ?_, ?_, ?_, ?_, ?_⟩
    · simpa [Call.bytesRead, Net.after] using h.input
    · simpa [Call.bytesRead, Call.bytesWritten, Net.after] using h.echo
    · simpa [Call.bytesWritten, Net.after] using h.output
    · simpa [readZero_snoc, Net.after] using h.ended
    · simp [Net.after]
    · exact fun hclosed => ⟨rfl, (h.closed hclosed).2⟩

theorem moved_call (hgives : n.Gives c) : moved (calls ++ [c]) (n.after c) = moved calls n + c.gain := by
  match c with
  | .select _ _ | .read .stdin _ .wouldBlock | .read .stdin _ .error | .read .sockfd _ .wouldBlock
  | .read .sockfd _ .error | .write .sockfd _ .wouldBlock | .write .sockfd _ .error
  | .write .stdout _ .wouldBlock | .write .stdout _ .error | .shutdown =>
    simp [moved, Call.gain, Call.bytesRead, Call.bytesWritten, Net.after]
  | .read .stdin _ (.data bs) | .write .sockfd bs (.wrote k) | .write .stdout bs (.wrote k) =>
    simp [moved, Call.gain, Call.bytesRead, Call.bytesWritten, Net.after]
    omega
  | .read .sockfd _ (.data bs) =>
    have hle := hgives.1.length_le
    simp [moved, Call.gain, Call.bytesRead, Call.bytesWritten, Net.after]
    omega

/-- The calls of one block keep the account, and move what they say. -/
theorem Echoed.append {cs : List Call} (h : Echoed text calls n) (hlaw : Each Law (calls ++ cs))
    (hgives : n.GivesAll cs) : Echoed text (calls ++ cs) (cs.foldl Net.after n) ∧
      moved (calls ++ cs) (cs.foldl Net.after n) = moved calls n + gains cs := by
  induction cs generalizing calls n with
  | nil =>
    rw [List.append_nil]
    exact ⟨h, rfl⟩
  | cons c cs ih =>
    have hfirst := h.call (hlaw calls c cs rfl) hgives.1
    rw [List.append_cons] at hlaw ⊢
    obtain ⟨hrest, hmoved⟩ := ih hfirst hlaw hgives.2
    refine ⟨hrest, ?_⟩
    rw [List.foldl_cons, hmoved, moved_call hgives.1, gains, gains, List.map_cons, List.sum_cons, Nat.add_assoc]

/-- No more than six times the text can be moved. -/
theorem Echoed.moved_le {s : StrCli} (h : Echoed text s.calls n) (hs : Conserves s) :
    moved s.calls n ≤ 6 * text.length + 1 := by
  have hinput := congrArg List.length h.input
  have hecho := congrArg List.length h.echo
  have hup := congrArg List.length hs.stdin_to_sock
  have hdown := congrArg List.length hs.sock_to_stdout
  have hclosed := n.closed.toNat_le
  simp only [List.length_append] at hinput hecho hup hdown
  unfold moved
  omega

end Account

/-! ## What a block does -/

/-- The blocks that the pass still has before it, the next one first. -/
def Pc.ahead : Pc → List Pc
  | .readStdin => [.readStdin, .readSock, .writeStdout, .writeSock]
  | .readSock => [.readSock, .writeStdout, .writeSock]
  | .writeStdout => [.writeStdout, .writeSock]
  | .writeSock => [.writeSock]
  | .select | .returned | .exited => []

/-- The block, when it runs, gets something done. -/
def EchoLoop.Due (c : Sizes) (l : EchoLoop) : Pc → Prop
  | .readStdin => .stdin ∈ l.cli.rset
  | .readSock => .sockfd ∈ l.cli.rset ∧ l.net.Readable .sockfd
  | .writeStdout => .stdout ∈ l.cli.wset ∧ l.cli.froptr < l.cli.friptr
  | .writeSock => .sockfd ∈ l.cli.wset ∧ l.cli.tooptr < l.cli.toiptr ∧ l.net.Writable c .sockfd
  | .select | .returned | .exited => False

instance (c : Sizes) (l : EchoLoop) : (pc : Pc) → Decidable (l.Due c pc)
  | .readStdin => inferInstanceAs (Decidable (_ ∈ _))
  | .readSock | .writeStdout | .writeSock => inferInstanceAs (Decidable (_ ∧ _))
  | .select | .returned | .exited => inferInstanceAs (Decidable False)

/-- How a block leaves: nothing is done, something is moved or the end of stdin is found, or `str_cli` returns. -/
inductive Outcome (l : EchoLoop) (due : Prop) : Flow StrCli → List Call → Prop where
  | idle (cs : List Call) (hnot : ¬ due) (hnet : cs.foldl Net.after l.net = l.net) :
      Outcome l due (.next { l.cli with calls := l.cli.calls ++ cs }) cs
  | moves (s : StrCli) (cs : List Call) (hcalls : s.calls = l.cli.calls ++ cs)
      (hgain : l.cli.stdineof.toNat < gains cs + s.stdineof.toNat) : Outcome l due (.next s) cs
  | returns (len : ℕ) (hempty : l.net.toClient = []) (hclosed : l.net.closed = true) :
      Outcome l due (.ret (l.cli.call (.read .sockfd len (.data [])))) [.read .sockfd len (.data [])]

theorem Outcome.skip {l : EchoLoop} {due : Prop} (hnot : ¬ due) : Outcome l due (.next l.cli) [] := by
  have h := Outcome.idle (l := l) [] hnot rfl
  rwa [List.append_nil] at h

section Blocks

variable {c : Sizes} {l : EchoLoop} {k m : ℕ}

/-- What `read` stores is the front of what there is, and nothing only if there is nothing. -/
theorem read_prefix {α : Type*} (xs : List α) (hk : 0 < k) (hm : 0 < m) :
    (xs.take k).take m <+: xs ∧ ((xs.take k).take m = [] → xs = []) := by
  refine ⟨(List.take_prefix _ _).trans (List.take_prefix _ _), ?_⟩
  intro hnil
  rcases List.take_eq_nil_iff.mp hnil with hzero | hnil
  · exact absurd hzero hm.ne'
  · exact (List.take_eq_nil_iff.mp hnil).resolve_left hk.ne'

theorem readStdin_outcome (hw : Watched l.cli) (hk : 0 < k) :
    ∃ cs, l.net.GivesAll cs ∧ Outcome l (l.Due c .readStdin) (l.cli.readStdin (l.net.stdinAnswer k)) cs := by
  unfold StrCli.readStdin Net.stdinAnswer
  by_cases hin : Fd.stdin ∈ l.cli.rset
  · obtain ⟨heof, hroom⟩ := hw.stdin hin
    have hread := read_prefix l.net.input hk (Nat.sub_pos_of_lt hroom)
    rw [if_pos hin]
    dsimp only [ReadAnswer.upTo]
    generalize (l.net.input.take k).take (maxSize - l.cli.toiptr) = bs at hread ⊢
    generalize maxSize - l.cli.toiptr = len
    by_cases hz : bs.length = 0
    · rw [if_pos hz]
      split
      · exact ⟨[.read .stdin len (.data bs), .shutdown], ⟨hread, trivial, trivial⟩,
          .moves _ _ (by simp [StrCli.call]) (by simp [StrCli.call, heof])⟩
      · exact ⟨[.read .stdin len (.data bs)], ⟨hread, trivial⟩, .moves _ _ rfl (by simp [heof])⟩
    · rw [if_neg hz]
      refine ⟨[.read .stdin len (.data bs)], ⟨hread, trivial⟩, .moves _ _ rfl ?_⟩
      simp [StrCli.call, gains, Call.gain]
      omega
  · rw [if_neg hin]
    exact ⟨[], trivial, .skip hin⟩

theorem readSock_outcome (hw : Fd.sockfd ∈ l.cli.rset → l.cli.friptr < maxSize) (hk : 0 < k)
    (hended : l.net.closed = true → l.cli.stdineof = true) :
    ∃ cs, l.net.GivesAll cs ∧ Outcome l (l.Due c .readSock) (l.cli.readSock (l.net.sockAnswer k)) cs := by
  unfold StrCli.readSock Net.sockAnswer
  by_cases hin : Fd.sockfd ∈ l.cli.rset
  · rw [if_pos hin]
    generalize hlen : maxSize - l.cli.friptr = len
    have hpos : 0 < len := hlen ▸ Nat.sub_pos_of_lt (hw hin)
    by_cases hready : l.net.Readable .sockfd
    · rw [if_pos hready]
      dsimp only [ReadAnswer.upTo]
      have hread := read_prefix l.net.toClient hk hpos
      generalize (l.net.toClient.take k).take len = bs at hread ⊢
      have hgives : l.net.Gives (.read .sockfd len (.data bs)) := by
        refine ⟨hread.1, fun hnil => ⟨hread.2 hnil, ?_⟩⟩
        exact hready.resolve_left (not_not.mpr (hread.2 hnil))
      by_cases hz : bs.length = 0
      · obtain rfl := List.length_eq_zero_iff.mp hz
        obtain ⟨hempty, hclosed⟩ := hgives.2 rfl
        rw [if_pos hz]
        split
        · exact ⟨[.read .sockfd len (.data [])], ⟨hgives, trivial⟩, .returns len hempty hclosed⟩
        · exact absurd (hended hclosed) ‹_›
      · rw [if_neg hz]
        refine ⟨[.read .sockfd len (.data bs)], ⟨hgives, trivial⟩, .moves _ _ rfl ?_⟩
        simp [StrCli.call, gains, Call.gain]
        omega
    · rw [if_neg hready]
      exact ⟨[.read .sockfd len .wouldBlock], ⟨trivial, trivial⟩, .idle _ (fun h => hready h.2) rfl⟩
  · rw [if_neg hin]
    exact ⟨[], trivial, .skip fun h => hin h.1⟩

theorem writeStdout_outcome (hk : 0 < k) (hbound : l.cli.friptr ≤ maxSize) :
    ∃ cs, l.net.GivesAll cs ∧ Outcome l (l.Due c .writeStdout) (l.cli.writeStdout (.wrote k)) cs := by
  unfold StrCli.writeStdout
  by_cases hgo : Fd.stdout ∈ l.cli.wset ∧ 0 < l.cli.friptr - l.cli.froptr
  · have hn : l.cli.froptr + (l.cli.friptr - l.cli.froptr) = l.cli.friptr := by omega
    have hlen : (window l.cli.frBuf l.cli.froptr l.cli.friptr).length = l.cli.friptr - l.cli.froptr :=
      length_window l.cli.frBuf hbound
    rw [if_pos hgo, hn]
    dsimp only [WriteAnswer.upTo]
    have hgain : 0 < min k (l.cli.friptr - l.cli.froptr) := lt_min hk hgo.2
    generalize min k (l.cli.friptr - l.cli.froptr) = j at hgain ⊢
    refine ⟨[.write .stdout (window l.cli.frBuf l.cli.froptr l.cli.friptr) (.wrote j)], ⟨trivial, trivial⟩, ?_⟩
    split
    · refine .moves _ _ rfl ?_
      simp [StrCli.call, gains, Call.gain, hlen]
      omega
    · refine .moves _ _ rfl ?_
      simp [StrCli.call, gains, Call.gain, hlen]
      omega
  · rw [if_neg hgo]
    exact ⟨[], trivial, .skip fun h => hgo ⟨h.1, Nat.sub_pos_of_lt h.2⟩⟩

theorem writeSock_outcome (hk : 0 < k) (hbound : l.cli.toiptr ≤ maxSize) :
    ∃ cs, l.net.GivesAll cs ∧ Outcome l (l.Due c .writeSock) (l.cli.writeSock (l.net.upAnswer c k)) cs := by
  unfold StrCli.writeSock Net.upAnswer
  by_cases hgo : Fd.sockfd ∈ l.cli.wset ∧ 0 < l.cli.toiptr - l.cli.tooptr
  · have hn : l.cli.tooptr + (l.cli.toiptr - l.cli.tooptr) = l.cli.toiptr := by omega
    have hlen : (window l.cli.toBuf l.cli.tooptr l.cli.toiptr).length = l.cli.toiptr - l.cli.tooptr :=
      length_window l.cli.toBuf hbound
    rw [if_pos hgo, hn]
    by_cases hready : l.net.Writable c .sockfd
    · rw [if_pos hready]
      dsimp only [WriteAnswer.upTo]
      have hroom : 0 < c.up - l.net.toServer.length := Nat.sub_pos_of_lt hready
      have hgain : 0 < min (min k (c.up - l.net.toServer.length)) (l.cli.toiptr - l.cli.tooptr) :=
        lt_min (lt_min hk hroom) hgo.2
      generalize min (min k (c.up - l.net.toServer.length)) (l.cli.toiptr - l.cli.tooptr) = j at hgain ⊢
      split
      · split
        · refine ⟨[.write .sockfd (window l.cli.toBuf l.cli.tooptr l.cli.toiptr) (.wrote j), .shutdown],
            ⟨trivial, trivial, trivial⟩, .moves _ _ (by simp [StrCli.call]) ?_⟩
          simp [StrCli.call, gains, Call.gain, hlen]
          omega
        · refine ⟨[.write .sockfd (window l.cli.toBuf l.cli.tooptr l.cli.toiptr) (.wrote j)],
            ⟨trivial, trivial⟩, .moves _ _ rfl ?_⟩
          simp [StrCli.call, gains, Call.gain, hlen]
          omega
      · refine ⟨[.write .sockfd (window l.cli.toBuf l.cli.tooptr l.cli.toiptr) (.wrote j)],
          ⟨trivial, trivial⟩, .moves _ _ rfl ?_⟩
        simp [StrCli.call, gains, Call.gain, hlen]
        omega
    · rw [if_neg hready]
      exact ⟨[.write .sockfd (window l.cli.toBuf l.cli.tooptr l.cli.toiptr) .wouldBlock], ⟨trivial, trivial⟩,
        .idle _ (fun h => hready h.2.2) rfl⟩
  · rw [if_neg hgo]
    exact ⟨[], trivial, .skip fun h => hgo ⟨h.1, Nat.sub_pos_of_lt h.2.1⟩⟩

end Blocks

/-! ## The invariant -/

/-- The blocks in front of `pc`, in a pass that begins at `s`. -/
def StrCli.upTo (s : StrCli) (a : Answers) : Pc → Flow StrCli
  | .readSock => (s.buildSets.select a.select).readStdin a.readStdin
  | .writeStdout => ((s.buildSets.select a.select).readStdin a.readStdin).andThen fun s => s.readSock a.readSock
  | .writeSock =>
    (((s.buildSets.select a.select).readStdin a.readStdin).andThen fun s => s.readSock a.readSock).andThen fun s =>
      s.writeStdout a.writeStdout
  | .readStdin | .select | .returned | .exited => .next (s.buildSets.select a.select)

/-- The client of the closed system is in a pass of `str_cli`. -/
def InPass (toBuf frBuf : Vector UInt8 maxSize) : Pc → StrCli → Prop
  | .select, t => AtHead (strCli toBuf frBuf) t
  | .returned, t => (strCli toBuf frBuf).Reachable (.ret t)
  | .exited, _ => False
  | pc, t => ∃ s a, AtHead (strCli toBuf frBuf) s ∧ s.upTo a pc = .next t

section Passes

variable {toBuf frBuf : Vector UInt8 maxSize} {s t : StrCli}

theorem upTo_relayed (h : Relayed s) (a : Answers) :
    (s.upTo a .readSock).Splits (fun t => Relayed t ∧ (.sockfd ∈ t.rset → t.friptr < maxSize)) Relayed ∧
      (s.upTo a .writeStdout).Splits Relayed Relayed ∧ (s.upTo a .writeSock).Splits Relayed Relayed := by
  obtain ⟨hs, hw⟩ := select_relayed h a.select
  have hstdin := readStdin_relayed hs hw a.readStdin
  have hsock := hstdin.andThen fun t ht => readSock_relayed ht.1 ht.2 a.readSock
  exact ⟨hstdin, hsock, hsock.andThen fun t ht => writeStdout_relayed ht a.writeStdout⟩

theorem relayed_of_atHead (hs : AtHead (strCli toBuf frBuf) s) : Relayed s := strCli_relayed hs

/-- Everywhere in a pass the laws of the relay hold. -/
theorem InPass.relayed {pc : Pc} (h : InPass toBuf frBuf pc t) : Relayed t ∧ (pc = .readStdin → Watched t) ∧
    (pc = .readSock → .sockfd ∈ t.rset → t.friptr < maxSize) := by
  match pc with
  | .select => exact ⟨relayed_of_atHead h, nofun, nofun⟩
  | .returned => exact ⟨strCli_relayed h, nofun, nofun⟩
  | .readStdin =>
    obtain ⟨s, a, hs, ht⟩ := h
    have hsel := select_relayed (relayed_of_atHead hs) a.select
    cases ht
    exact ⟨hsel.1, fun _ => hsel.2, nofun⟩
  | .readSock =>
    obtain ⟨s, a, hs, ht⟩ := h
    have hsplits := (upTo_relayed (relayed_of_atHead hs) a).1
    rw [ht] at hsplits
    exact ⟨hsplits.1, nofun, fun _ => hsplits.2⟩
  | .writeStdout =>
    obtain ⟨s, a, hs, ht⟩ := h
    have hsplits := (upTo_relayed (relayed_of_atHead hs) a).2.1
    rw [ht] at hsplits
    exact ⟨hsplits, nofun, nofun⟩
  | .writeSock =>
    obtain ⟨s, a, hs, ht⟩ := h
    have hsplits := (upTo_relayed (relayed_of_atHead hs) a).2.2
    rw [ht] at hsplits
    exact ⟨hsplits, nofun, nofun⟩

end Passes

/-- The client is in a pass, the bytes are accounted for, and it has returned only behind the end of the server's
stream. -/
structure Inv (toBuf frBuf : Vector UInt8 maxSize) (text : List UInt8) (l : EchoLoop) : Prop where
  inPass : InPass toBuf frBuf l.pc l.cli
  echoed : Echoed text l.cli.calls l.net
  returned : l.pc = .returned → l.net.toClient = [] ∧ l.net.closed = true

/-- The block behind this one. -/
def Pc.next : Pc → Pc
  | .readStdin => .readSock
  | .readSock => .writeStdout
  | .writeStdout => .writeSock
  | .writeSock => .select
  | pc => pc

section Step

variable {toBuf frBuf : Vector UInt8 maxSize} {c : Sizes} {text : List UInt8} {l l' : EchoLoop} {k : ℕ}

/-- The server closes its socket when the client has shut down its side, and so after the end of stdin. -/
theorem Inv.stdineof_of_closed (h : Inv toBuf frBuf text l) (hclosed : l.net.closed = true) :
    l.cli.stdineof = true ∧ l.cli.tooptr = l.cli.toiptr ∧ ReadZero .stdin l.cli.calls := by
  obtain ⟨up, down, hsim⟩ := h.inPass.relayed.1
  have hfin := hsim.up_fin.mpr (h.echoed.fin.mp (h.echoed.closed hclosed).1)
  obtain ⟨heof, hnil⟩ := up.fin_iff.mp hfin
  rw [hsim.up_eof] at heof
  exact ⟨heof, hsim.up_buf.eq_nil_iff.mp hnil, hsim.up_zero.mp heof⟩

/-- **What a block of the closed system is.** -/
theorem Inv.block (h : Inv toBuf frBuf text l) (hk : 0 < k) (hblock : l.block c k = some l') :
    ∃ f cs, l' = l.leave f l.pc.next ∧ l.pc.ahead = l.pc :: l.pc.next.ahead ∧ l.net.GivesAll cs ∧
      Outcome l (l.Due c l.pc) f cs ∧ (∀ t, f = .next t → InPass toBuf frBuf l.pc.next t) ∧
      ∀ t, f = .ret t → InPass toBuf frBuf .returned t := by
  obtain ⟨⟨up, down, hsim⟩, hwatched, hroom⟩ := h.inPass.relayed
  have hpass := h.inPass
  unfold EchoLoop.block at hblock
  cases hpc : l.pc with
  | select | returned | exited =>
    rw [hpc] at hblock
    cases hblock
  | readStdin =>
    rw [hpc] at hblock hpass
    obtain rfl := Option.some.inj hblock
    obtain ⟨cs, hgives, hout⟩ := readStdin_outcome (c := c) (hwatched hpc) hk
    obtain ⟨s, a, hs, ht⟩ := hpass
    have hupTo : s.upTo { a with readStdin := l.net.stdinAnswer k } .readSock =
        l.cli.readStdin (l.net.stdinAnswer k) := by
      have hcli : s.buildSets.select a.select = l.cli := Flow.next.inj ht
      rw [← hcli]
      rfl
    refine ⟨_, cs, rfl, rfl, hgives, hout, ?_, ?_⟩
    · intro t hf
      exact ⟨s, _, hs, hupTo.trans hf⟩
    · intro t hf
      exact absurd hf (readStdin_ne_ret _ _ _)
  | readSock =>
    rw [hpc] at hblock hpass
    obtain rfl := Option.some.inj hblock
    obtain ⟨cs, hgives, hout⟩ := readSock_outcome (c := c) (hroom hpc) hk fun hclosed =>
      (h.stdineof_of_closed hclosed).1
    obtain ⟨s, a, hs, ht⟩ := hpass
    have hupTo : s.upTo { a with readSock := l.net.sockAnswer k } .writeStdout =
        l.cli.readSock (l.net.sockAnswer k) := by
      show ((s.buildSets.select a.select).readStdin a.readStdin).andThen _ = _
      rw [show (s.buildSets.select a.select).readStdin a.readStdin = _ from ht, Flow.andThen_next]
    refine ⟨_, cs, rfl, rfl, hgives, hout, ?_, ?_⟩
    · intro t hf
      exact ⟨s, _, hs, hupTo.trans hf⟩
    · intro t hf
      have hbody : s.body { a with readSock := l.net.sockAnswer k } = .ret t := by
        show ((s.buildSets.select a.select).readStdin a.readStdin).andThen _ = _
        rw [show (s.buildSets.select a.select).readStdin a.readStdin = _ from ht, Flow.andThen_next, hf,
          Flow.andThen_ret]
      have hpassed := AtHead.pass hs (e := { a with readSock := l.net.sockAnswer k }) trivial
      rwa [hbody] at hpassed
  | writeStdout =>
    rw [hpc] at hblock hpass
    obtain rfl := Option.some.inj hblock
    obtain ⟨cs, hgives, hout⟩ := writeStdout_outcome (c := c) (l := l) hk hsim.down_buf.bound
    obtain ⟨s, a, hs, ht⟩ := hpass
    have hupTo : s.upTo { a with writeStdout := .wrote k } .writeSock = l.cli.writeStdout (.wrote k) := by
      show (((s.buildSets.select a.select).readStdin a.readStdin).andThen _).andThen _ = _
      rw [show ((s.buildSets.select a.select).readStdin a.readStdin).andThen _ = _ from ht, Flow.andThen_next]
    refine ⟨_, cs, rfl, rfl, hgives, hout, ?_, ?_⟩
    · intro t hf
      exact ⟨s, _, hs, hupTo.trans hf⟩
    · intro t hf
      exact absurd hf (writeStdout_ne_ret _ _ _)
  | writeSock =>
    rw [hpc] at hblock hpass
    obtain rfl := Option.some.inj hblock
    obtain ⟨cs, hgives, hout⟩ := writeSock_outcome (c := c) hk hsim.up_buf.bound
    obtain ⟨s, a, hs, ht⟩ := hpass
    refine ⟨_, cs, rfl, rfl, hgives, hout, ?_, ?_⟩
    · intro t hf
      have hbody : s.body { a with writeSock := l.net.upAnswer c k } = .next t := by
        have hthree : (((s.buildSets.select a.select).readStdin a.readStdin).andThen fun s =>
            s.readSock a.readSock).andThen (fun s => s.writeStdout a.writeStdout) = .next l.cli := ht
        unfold StrCli.body
        dsimp only
        rw [← Flow.andThen_assoc, ← Flow.andThen_assoc, hthree, Flow.andThen_next, hf]
      have hpassed := AtHead.pass hs (e := { a with writeSock := l.net.upAnswer c k }) trivial
      rwa [hbody] at hpassed
    · intro t hf
      exact absurd hf (writeSock_ne_ret _ _ _)

/-! ## Every step gets on -/

/-- The bytes moved, and the end of stdin when it is found. -/
def EchoLoop.work (l : EchoLoop) : ℕ := moved l.cli.calls l.net + l.cli.stdineof.toNat

/-- Something will get done in the rest of the pass. -/
def EchoLoop.Promise (c : Sizes) (l : EchoLoop) : Prop := ∃ pc ∈ l.pc.ahead, l.Due c pc

instance (c : Sizes) (l : EchoLoop) : Decidable (l.Promise c) := inferInstanceAs (Decidable (∃ pc ∈ _, _))

/-- What is left of the pass; a pass without a promise has kept it, and is not at its end yet. -/
def EchoLoop.rank (c : Sizes) (l : EchoLoop) : ℕ :=
  if l.pc = .returned then 0 else l.pc.ahead.length + if l.Promise c then 0 else 5

theorem EchoLoop.rank_le (c : Sizes) (l : EchoLoop) : l.rank c ≤ 9 := by
  unfold rank
  split_ifs <;> cases l.pc <;> simp [Pc.ahead]

/-- More was moved, or else less of the pass is left. -/
def Further (c : Sizes) (l l' : EchoLoop) : Prop := l'.rank c + 10 * l.work < l.rank c + 10 * l'.work

theorem further_of_work (h : l.work < l'.work) : Further c l l' := by
  have := l'.rank_le c
  unfold Further
  omega

theorem Outcome.calls {due : Prop} {f : Flow StrCli} {cs : List Call} (h : Outcome l due f cs) :
    f.state.calls = l.cli.calls ++ cs := by
  cases h with
  | idle | returns => rfl
  | moves s _ hcalls => exact hcalls

theorem leave_net {f : Flow StrCli} {cs : List Call} (hcalls : f.state.calls = l.cli.calls ++ cs) (pc : Pc) :
    (l.leave f pc).net = cs.foldl Net.after l.net := by
  show (f.state.calls.drop l.cli.calls.length).foldl Net.after l.net = _
  rw [hcalls, List.drop_left]

theorem due_congr {cs : List Call} (hcli : l'.cli = { l.cli with calls := cs }) (hnet : l'.net = l.net) (pc : Pc) :
    l'.Due c pc ↔ l.Due c pc := by
  obtain ⟨cli, pc', net⟩ := l'
  obtain rfl : cli = _ := hcli
  obtain rfl : net = _ := hnet
  cases pc <;> exact Iff.rfl

/-- A block that had nothing to do keeps the promise for the blocks behind it. -/
theorem further_of_idle {cs : List Call} (hcli : l'.cli = { l.cli with calls := cs }) (hnet : l'.net = l.net)
    (hpc : l'.pc = l.pc.next) (hahead : l.pc.ahead = l.pc :: l.pc.next.ahead) (hidle : ¬ l.Due c l.pc)
    (hwork : l.work ≤ l'.work) : Further c l l' := by
  have hnot : l.pc ≠ .returned := by
    intro hret
    rw [hret] at hahead
    cases hahead
  have hpromise : l.Promise c → l'.Promise c := by
    rintro ⟨pc, hin, hdue⟩
    rw [hahead, List.mem_cons] at hin
    rcases hin with rfl | hin
    · exact absurd hdue hidle
    · exact ⟨pc, hpc ▸ hin, (due_congr hcli hnet pc).mpr hdue⟩
  have hrank : l.rank c = l.pc.ahead.length + if l.Promise c then 0 else 5 := if_neg hnot
  have hrank' : l'.rank c ≤ l.pc.next.ahead.length + if l'.Promise c then 0 else 5 := by
    unfold EchoLoop.rank
    rw [hpc]
    split_ifs <;> omega
  rw [hahead, List.length_cons] at hrank
  unfold Further
  by_cases hp : l.Promise c
  · rw [if_pos hp] at hrank
    rw [if_pos (hpromise hp)] at hrank'
    omega
  · rw [if_neg hp] at hrank
    split_ifs at hrank' <;> omega

/-- **A block** keeps the invariant and gets on. -/
theorem Inv.block_step (h : Inv toBuf frBuf text l) (hk : 0 < k) (hblock : l.block c k = some l') :
    Inv toBuf frBuf text l' ∧ Further c l l' := by
  obtain ⟨f, cs, rfl, hahead, hgives, hout, hnext, hret⟩ := h.block hk hblock
  have hnet := leave_net hout.calls l.pc.next
  have hpass : InPass toBuf frBuf (l.leave f l.pc.next).pc f.state := by
    cases hout with
    | idle => exact hnext _ rfl
    | moves => exact hnext _ rfl
    | returns => exact hret _ rfl
  obtain ⟨up, down, hsim⟩ := hpass.relayed.1
  obtain ⟨hechoed, hmoved⟩ := h.echoed.append (hout.calls ▸ hsim.law) hgives
  rw [← hout.calls, ← hnet] at hechoed hmoved
  cases hout with
  | moves s _ _ hgain =>
    refine ⟨⟨hpass, hechoed, ?_⟩, further_of_work ?_⟩
    · intro hpc
      exfalso
      cases hcases : l.pc <;> simp [hcases, Pc.next, Pc.ahead, EchoLoop.leave] at hpc hahead
    · show l.work < moved s.calls _ + s.stdineof.toNat
      rw [show moved s.calls _ = _ from hmoved, EchoLoop.work]
      omega
  | returns len hempty hclosed =>
    have hwork : (l.leave (.ret (l.cli.call (.read .sockfd len (.data [])))) l.pc.next).work = l.work :=
      congrArg (· + l.cli.stdineof.toNat) hmoved
    refine ⟨⟨hpass, hechoed, fun _ => ?_⟩, ?_⟩
    · rw [hnet]
      exact ⟨hempty, hclosed⟩
    · rw [Further, hwork, show (l.leave (.ret _) l.pc.next).rank c = 0 from if_pos rfl, EchoLoop.rank, if_neg, hahead,
        List.length_cons]
      · omega
      · intro hpc
        rw [hpc] at hahead
        cases hahead
  | idle _ hidle hsilent =>
    rw [hsilent] at hnet
    refine ⟨⟨hpass, hechoed, ?_⟩, further_of_idle rfl hnet rfl hahead hidle ?_⟩
    · intro hpc
      exfalso
      cases hcases : l.pc <;> simp [hcases, Pc.next, Pc.ahead, EchoLoop.leave] at hpc hahead
    · show l.work ≤ moved (l.cli.calls ++ cs) _ + l.cli.stdineof.toNat
      rw [show moved (l.cli.calls ++ cs) _ = _ from hmoved, EchoLoop.work]
      omega

theorem mem_wset (s : StrCli) : (.sockfd ∈ s.buildSets.wset ↔ s.tooptr ≠ s.toiptr) ∧
    (.stdout ∈ s.buildSets.wset ↔ s.froptr ≠ s.friptr) := by
  unfold StrCli.buildSets
  constructor
  · split_ifs <;> simp_all
  · split_ifs <;> simp_all

theorem mem_rset (s : StrCli) : (.stdin ∈ s.buildSets.rset ↔ s.stdineof = false ∧ s.toiptr < maxSize) ∧
    (.sockfd ∈ s.buildSets.rset ↔ s.friptr < maxSize) := by
  unfold StrCli.buildSets
  constructor
  · split_ifs <;> simp_all
  · split_ifs <;> simp_all

/-- `select` lets through a pass that will get something done. -/
theorem Inv.select_step (h : Inv toBuf frBuf text l) (hpc : l.pc = .select) {r w : Finset Fd}
    (hready : l.MayReturn c r w) :
    Inv toBuf frBuf text { l with cli := l.cli.buildSets.select (.ready r w), pc := .readStdin } ∧
      Further c l { l with cli := l.cli.buildSets.select (.ready r w), pc := .readStdin } := by
  have hhead := h.inPass
  rw [hpc] at hhead
  have hpass : InPass toBuf frBuf .readStdin (l.cli.buildSets.select (.ready r w)) :=
    ⟨l.cli, ⟨.ready r w, .wouldBlock, .wouldBlock, .wouldBlock, .wouldBlock⟩, hhead, rfl⟩
  obtain ⟨up, down, hsim⟩ := hpass.relayed.1
  have hlaw : Each Law (l.cli.calls ++ [.select l.cli.buildSets.rset l.cli.buildSets.wset]) := hsim.law
  refine ⟨⟨hpass, h.echoed.call (hlaw _ _ [] rfl) trivial, nofun⟩, ?_⟩
  have hpromise : EchoLoop.Promise c { l with cli := l.cli.buildSets.select (.ready r w), pc := .readStdin } := by
    obtain ⟨⟨fd, hfd⟩ | ⟨fd, hfd⟩, hr, hw⟩ := hready
    · obtain ⟨hset, hreadable⟩ := hr fd hfd
      have hin : fd ∈ l.cli.buildSets.rset ∩ r := Finset.mem_inter.mpr ⟨hset, hfd⟩
      cases fd with
      | stdin => exact ⟨.readStdin, by simp [Pc.ahead], hin⟩
      | sockfd => exact ⟨.readSock, by simp [Pc.ahead], hin, hreadable⟩
      | stdout => cases hreadable
    · obtain ⟨hset, hwritable⟩ := hw fd hfd
      have hin : fd ∈ l.cli.buildSets.wset ∩ w := Finset.mem_inter.mpr ⟨hset, hfd⟩
      obtain ⟨hsock, hstdout⟩ := mem_wset l.cli
      cases fd with
      | stdin => cases hwritable
      | sockfd =>
        exact ⟨.writeSock, by simp [Pc.ahead], hin, Nat.lt_of_le_of_ne hsim.up_buf.le (hsock.mp hset), hwritable⟩
      | stdout => exact ⟨.writeStdout, by simp [Pc.ahead], hin, Nat.lt_of_le_of_ne hsim.down_buf.le (hstdout.mp hset)⟩
  have hrank : l.rank c = 5 := by
    rw [EchoLoop.rank, hpc, if_neg nofun, if_neg]
    · rfl
    · rintro ⟨pc, hin, -⟩
      rw [hpc] at hin
      cases hin
  have hwork : EchoLoop.work { l with cli := l.cli.buildSets.select (.ready r w), pc := .readStdin } = l.work := by
    have hmoved : moved (l.cli.calls ++ [.select l.cli.buildSets.rset l.cli.buildSets.wset]) l.net =
        moved l.cli.calls l.net := moved_call trivial
    exact congrArg (· + l.cli.stdineof.toNat) hmoved
  rw [Further, hwork, hrank, EchoLoop.rank, if_neg nofun, if_pos hpromise]
  show 4 + 0 + _ < _
  omega

/-! ## The server -/

/-- The server leaves the client's side alone. -/
theorem Inv.of_net (h : Inv toBuf frBuf text l) {n : Net} (hechoed : Echoed text l.cli.calls n)
    (hclosed : l.net.closed = false) : Inv toBuf frBuf text { l with net := n } where
  inPass := h.inPass
  echoed := hechoed
  returned := by
    intro hpc
    rw [(h.returned hpc).2] at hclosed
    cases hclosed

theorem Inv.serverRead (h : Inv toBuf frBuf text l) (hbuf : l.net.buf = []) (hclosed : l.net.closed = false)
    (hread : BasicTcp.MayRead l.net.toServer k) :
    Inv toBuf frBuf text
        { l with net := { l.net with buf := l.net.toServer.take k, toServer := l.net.toServer.drop k } } ∧
      Further c l
        { l with net := { l.net with buf := l.net.toServer.take k, toServer := l.net.toServer.drop k } } := by
  refine ⟨h.of_net ⟨h.echoed.input, ?_, h.echoed.output, h.echoed.ended, h.echoed.fin, ?_⟩ hclosed, further_of_work ?_⟩
  · rw [List.take_append_drop, ← h.echoed.echo, hbuf, List.nil_append]
  · intro hclosed'
    rw [hclosed] at hclosed'
    cases hclosed'
  · have hlen : (l.net.toServer.take k).length = k := List.length_take_of_le hread.2.2
    have hpos := hread.1
    simp only [EchoLoop.work, moved, hlen, hbuf, List.length_nil]
    omega

theorem Inv.serverEnd (h : Inv toBuf frBuf text l) (hbuf : l.net.buf = []) (hclosed : l.net.closed = false)
    (hempty : l.net.toServer = []) (hfin : l.net.fin = true) :
    Inv toBuf frBuf text { l with net := { l.net with closed := true } } ∧
      Further c l { l with net := { l.net with closed := true } } := by
  refine ⟨h.of_net ⟨h.echoed.input, h.echoed.echo, h.echoed.output, h.echoed.ended, h.echoed.fin, ?_⟩ hclosed,
    further_of_work ?_⟩
  · exact fun _ => ⟨hfin, hempty, hbuf⟩
  · simp [EchoLoop.work, moved, hclosed]

theorem Inv.serverWrite (h : Inv toBuf frBuf text l) (hk : 0 < k) (hle : k ≤ l.net.buf.length) :
    Inv toBuf frBuf text { l with net := { l.net with
      buf := l.net.buf.drop k, toClient := l.net.toClient ++ l.net.buf.take k } } ∧
      Further c l { l with net := { l.net with
        buf := l.net.buf.drop k, toClient := l.net.toClient ++ l.net.buf.take k } } := by
  have hopen : l.net.closed = false := by
    rw [← Bool.not_eq_true]
    intro hclosed
    rw [(h.echoed.closed hclosed).2.2, List.length_nil] at hle
    omega
  refine ⟨h.of_net ⟨h.echoed.input, ?_, h.echoed.output, h.echoed.ended, h.echoed.fin, ?_⟩ hopen, further_of_work ?_⟩
  · rw [← h.echoed.echo, List.append_assoc, ← List.append_assoc (l.net.buf.take k), List.take_append_drop]
  · intro hclosed
    rw [hopen] at hclosed
    cases hclosed
  · have hlen : (l.net.buf.take k).length = k := List.length_take_of_le hle
    simp only [EchoLoop.work, moved, List.length_append, List.length_drop, hlen]
    omega

/-- **Every step** keeps the invariant and gets on. -/
theorem Inv.step (h : Inv toBuf frBuf text l) {e : EchoEv} (hstep : l.step c e = some l') :
    Inv toBuf frBuf text l' ∧ Further c l l' := by
  cases e with
  | select r w =>
    simp only [EchoLoop.step] at hstep
    split_ifs at hstep with hguard
    obtain rfl := Option.some.inj hstep
    exact h.select_step hguard.1 hguard.2
  | block k =>
    simp only [EchoLoop.step] at hstep
    split_ifs at hstep with hk
    exact h.block_step hk hstep
  | serverRead k =>
    simp only [EchoLoop.step] at hstep
    split_ifs at hstep with hguard
    obtain rfl := Option.some.inj hstep
    exact h.serverRead hguard.1 hguard.2.1 hguard.2.2
  | serverEnd =>
    simp only [EchoLoop.step] at hstep
    split_ifs at hstep with hguard
    obtain rfl := Option.some.inj hstep
    exact h.serverEnd hguard.1 hguard.2.1 hguard.2.2.1 hguard.2.2.2
  | serverWrite k =>
    simp only [EchoLoop.step] at hstep
    split_ifs at hstep with hguard
    obtain rfl := Option.some.inj hstep
    exact h.serverWrite hguard.1 hguard.2.1

/-! ## The main result -/

theorem Inv.work_le (h : Inv toBuf frBuf text l) : l.work ≤ 6 * text.length + 2 := by
  obtain ⟨up, down, hsim⟩ := h.inPass.relayed.1
  have hmoved := h.echoed.moved_le hsim.conserves
  have heof := l.cli.stdineof.toNat_le
  unfold EchoLoop.work
  omega

/-- When `str_cli` has returned, everything that is not in `fr` was put on stdout. -/
theorem Inv.finished (h : Inv toBuf frBuf text l) (hpc : l.pc = .returned) : Finished text l := by
  obtain ⟨hempty, hclosed⟩ := h.returned hpc
  obtain ⟨-, hcursors, hzero⟩ := h.stdineof_of_closed hclosed
  obtain ⟨-, hserver, hbuf⟩ := h.echoed.closed hclosed
  obtain ⟨up, down, hsim⟩ := h.inPass.relayed.1
  have hs := hsim.conserves
  have hecho := h.echoed.echo
  rw [hempty, hserver, hbuf, List.append_nil, List.append_nil, List.append_nil] at hecho
  have hup := hs.stdin_to_sock
  rw [hcursors, window_self, List.append_nil] at hup
  refine ⟨hpc, ?_⟩
  rw [h.echoed.output, ← hs.sock_to_stdout, hecho, ← hup, ← h.echoed.input, h.echoed.ended hzero, List.append_nil]

/-- **While `str_cli` is at `select`**, some descriptor that it watches is ready, or the server can go on. -/
theorem Inv.select_progress (h : Inv toBuf frBuf text l) (hpc : l.pc = .select) : ∃ e l', l.step c e = some l' := by
  obtain ⟨up, down, hsim⟩ := h.inPass.relayed.1
  obtain ⟨hsockW, hstdoutW⟩ := mem_wset l.cli
  obtain ⟨hstdinR, hsockR⟩ := mem_rset l.cli
  have hreturns : ∀ r w, l.MayReturn c r w → ∃ e l', l.step c e = some l' := fun r w hready =>
    ⟨.select r w, _, if_pos ⟨hpc, hready⟩⟩
  by_cases hstdout : l.cli.froptr = l.cli.friptr
  · have hroom : l.cli.friptr < maxSize := by
      by_contra hfull
      exact hsim.down_buf.ne_nil_of_full maxSize_pos (Nat.not_lt.mp hfull) hstdout
    by_cases hsock : l.net.Readable .sockfd
    · exact hreturns {.sockfd} ∅
        ⟨.inl ⟨_, Finset.mem_singleton_self _⟩, by simpa using ⟨hsockR.mpr hroom, hsock⟩, by simp⟩
    · -- nothing comes from the server, and it has not closed its socket
      obtain ⟨hempty, hopen⟩ : l.net.toClient = [] ∧ l.net.closed = false := by
        simpa [Net.Readable] using hsock
      by_cases hbuf : l.net.buf = []
      · by_cases hserver : l.net.toServer = []
        · by_cases hpending : l.cli.tooptr = l.cli.toiptr
          · cases heof : l.cli.stdineof with
            | true =>
              have hfin : l.net.fin = true := by
                rw [h.echoed.fin, ← hsim.up_fin, up.fin_iff, hsim.up_eof, heof, hsim.up_buf.eq_nil_iff]
                exact ⟨rfl, hpending⟩
              exact ⟨.serverEnd, _, if_pos ⟨hbuf, hopen, hserver, hfin⟩⟩
            | false =>
              have hroom : l.cli.toiptr < maxSize := by
                rw [hsim.up_buf.reset hpending]
                exact maxSize_pos
              exact hreturns {.stdin} ∅
                ⟨.inl ⟨_, Finset.mem_singleton_self _⟩, by simpa using ⟨hstdinR.mpr ⟨heof, hroom⟩, trivial⟩, by simp⟩
          · have hwritable : l.net.Writable c .sockfd := by
              show l.net.toServer.length < c.up
              rw [hserver]
              exact c.up_pos
            exact hreturns ∅ {.sockfd}
              ⟨.inr ⟨_, Finset.mem_singleton_self _⟩, by simp, by simpa using ⟨hsockW.mpr hpending, hwritable⟩⟩
        · have hpos := List.length_pos_iff.mpr hserver
          exact ⟨.serverRead 1, _, if_pos ⟨hbuf, hopen, Nat.one_pos, by decide, hpos⟩⟩
      · have hpos := List.length_pos_iff.mpr hbuf
        have hdown := c.down_pos
        refine ⟨.serverWrite 1, _, if_pos ⟨Nat.one_pos, hpos, ?_⟩⟩
        rw [hempty]
        exact hdown
  · exact hreturns ∅ {.stdout}
      ⟨.inr ⟨_, Finset.mem_singleton_self _⟩, by simp, by simpa using ⟨hstdoutW.mpr hstdout, trivial⟩⟩

theorem Inv.progress (h : Inv toBuf frBuf text l) (hnot : ¬ Finished text l) : ∃ e l', l.step c e = some l' := by
  have hblock : l.step c (.block 1) = l.block c 1 := by
    simp only [EchoLoop.step, if_pos Nat.one_pos]
  cases hpc : l.pc with
  | select => exact h.select_progress hpc
  | returned => exact absurd (h.finished hpc) hnot
  | exited =>
    have hpass := h.inPass
    rw [hpc] at hpass
    cases hpass
  | readStdin | readSock | writeStdout | writeSock =>
    have hsome : (l.block c 1).isSome := by simp [EchoLoop.block, hpc]
    exact ⟨.block 1, Option.isSome_iff_exists.mp (hblock ▸ hsome)⟩

end Step

variable (toBuf frBuf : Vector UInt8 maxSize) (c : Sizes) (text : List UInt8)

theorem bytes_accounted {l : EchoLoop} (hl : (echoLoop toBuf frBuf c text).Reachable l) : Inv toBuf frBuf text l := by
  refine (echoLoop toBuf frBuf c text).invariant ⟨AtHead.start, .start text, nofun⟩ ?_ hl
  intro l e l' _ h hstep
  exact (h.step hstep).1

/-- **`str_cli` and the echo server never wait for each other.**  Whatever the text, the sizes of the connection's
buffers, and the order of the steps: a run has at most so many of them, and only when `str_cli` has returned is
there none to take.  Stdout has then taken the text, but for what was left in `fr`. -/
theorem strCli_finishes : (echoLoop toBuf frBuf c text).Terminates (60 * text.length + 25) (Finished text) := by
  have hvariant : (echoLoop toBuf frBuf c text).Decreases
      fun l => 10 * (6 * text.length + 2) + l.rank c - 10 * l.work := by
    intro l e l' hl hstep
    have h := bytes_accounted toBuf frBuf c text hl
    obtain ⟨h', hfurther⟩ := h.step hstep
    have hwork := h.work_le
    have hwork' := h'.work_le
    unfold Further at hfurther
    dsimp only
    omega
  have hbound : 10 * (6 * text.length + 2) + (echoLoop toBuf frBuf c text).init.rank c -
      10 * (echoLoop toBuf frBuf c text).init.work = 60 * text.length + 25 := by
    have hrank : (echoLoop toBuf frBuf c text).init.rank c = 5 := rfl
    have hwork : (echoLoop toBuf frBuf c text).init.work = 0 := rfl
    rw [hrank, hwork]
    omega
  rw [← hbound]
  exact hvariant.terminates fun l hl hnot => (bytes_accounted toBuf frBuf c text hl).progress hnot

end NetProg.Relay
