/-
# NetProg.Relay.NormalReturn -- when the "normal termination" of `str_cli` has delivered everything.

The only `return` sits in the middle of the loop body, before the two write blocks: what is still queued at
the head of that iteration is lost.  Whether something is queued there is a matter of what stdin, the socket
and stdout did in the passes before.  A `Leg` is one direction in one pass as these make it: what is queued at
the loop head, what a `read` adds, whether `select` lets a write go ahead, and what `write` takes.

A pass leaves a direction empty exactly when a write took all it was offered, or nothing was queued and
nothing came (`body_empty_iff`).  Over a run this makes the return complete exactly when behind every read that
gave bytes, in its pass or a later one, a write took all it was offered (`strCli_return_complete_iff`).
-/
import NetProg.Base.History
import NetProg.Relay.Delivery

namespace NetProg.Relay

/-! ## One direction in one pass -/

/-- `select` leaves `fd` in the read set: it failed, or it reported `fd`. -/
def SelectAnswer.readable (fd : Fd) : SelectAnswer → Bool
  | failed => true
  | ready r _ => fd ∈ r

/-- The same for the write set. -/
def SelectAnswer.writable (fd : Fd) : SelectAnswer → Bool
  | failed => true
  | ready _ w => fd ∈ w

/-- How many bytes `read` stored. -/
def ReadAnswer.count : ReadAnswer → ℕ
  | data bs => bs.length
  | _ => 0

/-- `write` is ready to take `n` bytes. -/
def WriteAnswer.Takes (n : ℕ) : WriteAnswer → Prop
  | wrote k => n ≤ k
  | _ => False

instance (n : ℕ) (a : WriteAnswer) : Decidable (a.Takes n) :=
  match a with
  | .wrote k => inferInstanceAs (Decidable (n ≤ k))
  | .wouldBlock | .error => .isFalse id

/-- One direction in one pass, as stdin, the socket and stdout make it. -/
structure Leg where
  /-- The bytes in the buffer at the loop head. -/
  queued : ℕ
  /-- How many a `read` adds. -/
  given : ℕ
  /-- `select` reports the far end as writable. -/
  writable : Bool
  answer : WriteAnswer

/-- There is a write, and it takes all it is offered. -/
def Leg.TakesAll (l : Leg) : Prop :=
  (0 < l.queued ∧ l.writable = true ∨ 0 < l.given) ∧ l.answer.Takes (l.queued + l.given)

instance (l : Leg) : Decidable l.TakesAll := inferInstanceAs (Decidable (_ ∧ _))

/-- Nothing is left of what was queued and given: there was nothing, or the write took all. -/
theorem Leg.nothing_left_iff (l : Leg) :
    (l.queued + l.given = 0 ∨
        (0 < l.queued ∧ l.writable = true ∨ 0 < l.given) ∧ l.answer.Takes (l.queued + l.given)) ↔
      l.TakesAll ∨ l.queued = 0 ∧ ¬ 0 < l.given := by
  have hzero : l.queued + l.given = 0 ↔ l.queued = 0 ∧ ¬ 0 < l.given := by omega
  rw [hzero, or_comm]
  exact Iff.rfl

namespace StrCli

/-- From the socket to stdout. -/
def down (s : StrCli) (a : Answers) : Leg where
  queued := s.friptr - s.froptr
  given :=
    if s.friptr < maxSize ∧ a.select.readable .sockfd = true then (a.readSock.upTo (maxSize - s.friptr)).count else 0
  writable := a.select.writable .stdout
  answer := a.writeStdout

/-- From stdin to the socket. -/
def up (s : StrCli) (a : Answers) : Leg where
  queued := s.toiptr - s.tooptr
  given :=
    if s.stdineof = false ∧ s.toiptr < maxSize ∧ a.select.readable .stdin = true then
      (a.readStdin.upTo (maxSize - s.toiptr)).count
    else 0
  writable := a.select.writable .sockfd
  answer := a.writeSock

end StrCli

/-! ## What each block does to the cursors -/

section Blocks

variable {s s' : StrCli}

/-- What the read set holds after `select`. -/
theorem mem_rset_select (s : StrCli) (a : SelectAnswer) :
    (Fd.stdin ∈ (s.buildSets.select a).rset ↔
      s.stdineof = false ∧ s.toiptr < maxSize ∧ a.readable .stdin = true) ∧
    (Fd.sockfd ∈ (s.buildSets.select a).rset ↔ s.friptr < maxSize ∧ a.readable .sockfd = true) := by
  cases a <;> grind [StrCli.select, StrCli.buildSets, StrCli.call, SelectAnswer.readable]

/-- What the write set holds after `select`. -/
theorem mem_wset_select (s : StrCli) (a : SelectAnswer) :
    (Fd.sockfd ∈ (s.buildSets.select a).wset ↔ s.tooptr ≠ s.toiptr ∧ a.writable .sockfd = true) ∧
    (Fd.stdout ∈ (s.buildSets.select a).wset ↔ s.froptr ≠ s.friptr ∧ a.writable .stdout = true) := by
  cases a <;> grind [StrCli.select, StrCli.buildSets, StrCli.call, SelectAnswer.writable]

/-- `select` moves no cursor. -/
theorem select_cursors (s : StrCli) (a : SelectAnswer) :
    (s.buildSets.select a).toiptr = s.toiptr ∧ (s.buildSets.select a).tooptr = s.tooptr ∧
      (s.buildSets.select a).friptr = s.friptr ∧ (s.buildSets.select a).froptr = s.froptr := by
  cases a <;> exact ⟨rfl, rfl, rfl, rfl⟩

/-- The block of stdin queues what it read and has it written in this pass. -/
theorem readStdin_next {a : ReadAnswer} (h : s.readStdin a = .next s') {g : ℕ}
    (hg : g = if Fd.stdin ∈ s.rset then (a.upTo (maxSize - s.toiptr)).count else 0) :
    s'.toiptr = s.toiptr + g ∧ s'.tooptr = s.tooptr ∧ s'.friptr = s.friptr ∧ s'.froptr = s.froptr ∧
      s'.rset = s.rset ∧ (Fd.sockfd ∈ s'.wset ↔ Fd.sockfd ∈ s.wset ∨ 0 < g) ∧
      (Fd.stdout ∈ s'.wset ↔ Fd.stdout ∈ s.wset) := by
  cases a <;> grind [StrCli.readStdin, ReadAnswer.upTo, ReadAnswer.count, StrCli.call]

/-- So does the block of the socket. -/
theorem readSock_next {a : ReadAnswer} (h : s.readSock a = .next s') {g : ℕ}
    (hg : g = if Fd.sockfd ∈ s.rset then (a.upTo (maxSize - s.friptr)).count else 0) :
    s'.friptr = s.friptr + g ∧ s'.froptr = s.froptr ∧ s'.toiptr = s.toiptr ∧ s'.tooptr = s.tooptr ∧
      (Fd.stdout ∈ s'.wset ↔ Fd.stdout ∈ s.wset ∨ 0 < g) ∧ (Fd.sockfd ∈ s'.wset ↔ Fd.sockfd ∈ s.wset) := by
  cases a <;> grind [StrCli.readSock, ReadAnswer.upTo, ReadAnswer.count, StrCli.call]

/-- The write to stdout empties its buffer exactly if it takes all it is offered. -/
theorem writeStdout_next {a : WriteAnswer} (h : s.writeStdout a = .next s') (hle : s.froptr ≤ s.friptr) :
    (s'.froptr = s'.friptr ↔ s.froptr = s.friptr ∨ Fd.stdout ∈ s.wset ∧ a.Takes (s.friptr - s.froptr)) ∧
      s'.toiptr = s.toiptr ∧ s'.tooptr = s.tooptr ∧ s'.wset = s.wset := by
  cases a <;> grind [StrCli.writeStdout, WriteAnswer.upTo, WriteAnswer.Takes, StrCli.call]

/-- So does the write to the socket. -/
theorem writeSock_next {a : WriteAnswer} (h : s.writeSock a = .next s') (hle : s.tooptr ≤ s.toiptr) :
    (s'.tooptr = s'.toiptr ↔ s.tooptr = s.toiptr ∨ Fd.sockfd ∈ s.wset ∧ a.Takes (s.toiptr - s.tooptr)) ∧
      s'.friptr = s.friptr ∧ s'.froptr = s.froptr := by
  cases a <;> grind [StrCli.writeSock, WriteAnswer.upTo, WriteAnswer.Takes, StrCli.call]

end Blocks

/-! ## A pass that goes on -/

/-- A pass that falls through its four blocks. -/
theorem body_next {s t : StrCli} {a : Answers} (h : s.body a = .next t) :
    ∃ s₁ s₂ s₃, (s.buildSets.select a.select).readStdin a.readStdin = .next s₁ ∧
      s₁.readSock a.readSock = .next s₂ ∧ s₂.writeStdout a.writeStdout = .next s₃ ∧
      s₃.writeSock a.writeSock = .next t := by
  unfold StrCli.body at h
  obtain ⟨s₁, h₁, h⟩ := Flow.andThen_eq_next.mp h
  obtain ⟨s₂, h₂, h⟩ := Flow.andThen_eq_next.mp h
  obtain ⟨s₃, h₃, h₄⟩ := Flow.andThen_eq_next.mp h
  exact ⟨s₁, s₂, s₃, h₁, h₂, h₃, h₄⟩

/-- **What a pass leaves**: a direction is empty behind it exactly when a write took all it was offered, or
nothing was queued and nothing came. -/
theorem body_empty_iff {s t : StrCli} (hrel : Relayed s) {a : Answers} (h : s.body a = .next t) :
    (t.froptr = t.friptr ↔ (s.down a).TakesAll ∨ s.froptr = s.friptr ∧ ¬ 0 < (s.down a).given) ∧
      (t.tooptr = t.toiptr ↔ (s.up a).TakesAll ∨ s.tooptr = s.toiptr ∧ ¬ 0 < (s.up a).given) := by
  obtain ⟨up, down, hsim⟩ := hrel
  have hfr := hsim.down_buf.le
  have hto := hsim.up_buf.le
  obtain ⟨s₁, s₂, s₃, h₁, h₂, h₃, h₄⟩ := body_next h
  obtain ⟨hstdin, hsock⟩ := mem_rset_select s a.select
  obtain ⟨hwsock, hwstdout⟩ := mem_wset_select s a.select
  obtain ⟨hti, hto₀, hfi, hfo⟩ := select_cursors s a.select
  have hupGiven : (s.up a).given = if Fd.stdin ∈ (s.buildSets.select a.select).rset then
      (a.readStdin.upTo (maxSize - (s.buildSets.select a.select).toiptr)).count else 0 := by
    simp only [StrCli.up, hstdin, hti]
  obtain ⟨hti₁, hto₁, hfi₁, hfo₁, hr₁, hwsock₁, hwstdout₁⟩ := readStdin_next h₁ hupGiven
  have hdownGiven : (s.down a).given =
      if Fd.sockfd ∈ s₁.rset then (a.readSock.upTo (maxSize - s₁.friptr)).count else 0 := by
    simp only [StrCli.down, hr₁, hsock, hfi₁, hfi]
  obtain ⟨hfi₂, hfo₂, hti₂, hto₂, hwstdout₂, hwsock₂⟩ := readSock_next h₂ hdownGiven
  obtain ⟨hfr₃, hti₃, hto₃, hw₃⟩ := writeStdout_next h₃ (by omega)
  obtain ⟨hto₄, hfi₄, hfo₄⟩ := writeSock_next h₄ (by omega)
  have hdown := (s.down a).nothing_left_iff
  have hup := (s.up a).nothing_left_iff
  rw [show (s.down a).queued = s.friptr - s.froptr from rfl] at hdown
  rw [show (s.up a).queued = s.toiptr - s.tooptr from rfl] at hup
  constructor
  · have hoffer : s₂.friptr - s₂.froptr = s.friptr - s.froptr + (s.down a).given := by omega
    have hempty : s₂.froptr = s₂.friptr ↔ s.friptr - s.froptr + (s.down a).given = 0 := by omega
    have hqueued : s.froptr ≠ s.friptr ↔ 0 < s.friptr - s.froptr := by omega
    rw [hfi₄, hfo₄, hfr₃, hwstdout₂, hwstdout₁, hwstdout, hoffer, hempty, hqueued]
    refine hdown.trans (or_congr Iff.rfl (and_congr ?_ Iff.rfl))
    omega
  · have hoffer : s₃.toiptr - s₃.tooptr = s.toiptr - s.tooptr + (s.up a).given := by omega
    have hempty : s₃.tooptr = s₃.toiptr ↔ s.toiptr - s.tooptr + (s.up a).given = 0 := by omega
    have hqueued : s.tooptr ≠ s.toiptr ↔ 0 < s.toiptr - s.tooptr := by omega
    rw [hto₄, hw₃, hwsock₂, hwsock₁, hwsock, hoffer, hempty, hqueued]
    refine hup.trans (or_congr Iff.rfl (and_congr ?_ Iff.rfl))
    omega

/-! ## The pass that returns -/

theorem readStdin_ne_ret (s s' : StrCli) (a : ReadAnswer) : s.readStdin a ≠ .ret s' := by
  cases a <;> grind [StrCli.readStdin, ReadAnswer.upTo]

theorem writeStdout_ne_ret (s s' : StrCli) (a : WriteAnswer) : s.writeStdout a ≠ .ret s' := by
  cases a <;> grind [StrCli.writeStdout, WriteAnswer.upTo]

theorem writeSock_ne_ret (s s' : StrCli) (a : WriteAnswer) : s.writeSock a ≠ .ret s' := by
  cases a <;> grind [StrCli.writeSock, WriteAnswer.upTo]

/-- The only `return`: the socket ended after stdin did; nothing moved in this block. -/
theorem readSock_ret {s s' : StrCli} {a : ReadAnswer} (h : s.readSock a = .ret s') :
    s.stdineof = true ∧ s' = s.call (.read .sockfd (maxSize - s.friptr) (.data [])) := by
  cases a <;> grind [StrCli.readSock, ReadAnswer.upTo, StrCli.call]

/-- If stdin has ended by the end of its block, the block moved no cursor. -/
theorem readStdin_ended {s s' : StrCli} (hw : Watched s) {a : ReadAnswer}
    (h : s.readStdin a = .next s') (heof : s'.stdineof = true) :
    (s'.tooptr = s'.toiptr ↔ s.tooptr = s.toiptr) ∧ (s'.froptr = s'.friptr ↔ s.froptr = s.friptr) := by
  have := hw.stdin
  cases a <;> grind [StrCli.readStdin, ReadAnswer.upTo, StrCli.call]

/-- A pass that returns leaves the cursors as they were at its head. -/
theorem body_ret {s s' : StrCli} (hrel : Relayed s) {a : Answers} (h : s.body a = .ret s') :
    (s'.tooptr = s'.toiptr ↔ s.tooptr = s.toiptr) ∧ (s'.froptr = s'.friptr ↔ s.froptr = s.friptr) := by
  have hw := (select_relayed hrel a.select).2
  obtain ⟨hti, hto, hfi, hfo⟩ := select_cursors s a.select
  unfold StrCli.body at h
  rcases Flow.andThen_eq_ret.mp h with h₁ | ⟨s₁, h₁, h⟩
  · exact absurd h₁ (readStdin_ne_ret _ s' _)
  rcases Flow.andThen_eq_ret.mp h with h₂ | ⟨s₂, -, h⟩
  · -- the only block that returns; the write blocks are not reached
    obtain ⟨heof, rfl⟩ := readSock_ret h₂
    have hkeep := readStdin_ended hw h₁ heof
    rw [hti, hto, hfi, hfo] at hkeep
    exact hkeep
  rcases Flow.andThen_eq_ret.mp h with h₃ | ⟨s₃, -, h₄⟩
  · exact absurd h₃ (writeStdout_ne_ret s₂ s' _)
  · exact absurd h₄ (writeSock_ne_ret s₃ s' _)

/-- No block `continue`s. -/
theorem body_ne_again (s t : StrCli) (a : Answers) : s.body a ≠ .again t := by
  have hstdin (s : StrCli) (a : ReadAnswer) : s.readStdin a ≠ .again t := by
    cases a <;> grind [StrCli.readStdin, ReadAnswer.upTo]
  have hsock (s : StrCli) (a : ReadAnswer) : s.readSock a ≠ .again t := by
    cases a <;> grind [StrCli.readSock, ReadAnswer.upTo]
  have hstdout (s : StrCli) (a : WriteAnswer) : s.writeStdout a ≠ .again t := by
    cases a <;> grind [StrCli.writeStdout, WriteAnswer.upTo]
  have hwrite (s : StrCli) (a : WriteAnswer) : s.writeSock a ≠ .again t := by
    cases a <;> grind [StrCli.writeSock, WriteAnswer.upTo]
  intro h
  rcases Flow.andThen_eq_again.mp h with h₁ | ⟨s₁, -, h⟩
  · exact hstdin _ _ h₁
  rcases Flow.andThen_eq_again.mp h with h₂ | ⟨s₂, -, h⟩
  · exact hsock _ _ h₂
  rcases Flow.andThen_eq_again.mp h with h₃ | ⟨s₃, -, h₄⟩
  · exact hstdout _ _ h₃
  · exact hwrite _ _ h₄

/-! ## The whole run -/

/-- Everything the relay read has been written on. -/
def Complete (l : List Call) : Prop :=
  bytesRead .sockfd l = bytesWritten .stdout l ∧ bytesRead .stdin l = bytesWritten .sockfd l

/-- In terms of the cursors: both directions are empty. -/
theorem Sim.complete_iff {s : StrCli} {up down : Channel UInt8} (h : Sim s up down) :
    Complete s.calls ↔ s.froptr = s.friptr ∧ s.tooptr = s.toiptr := by
  unfold Complete
  rw [← h.down_consumed, ← h.down_delivered, ← h.up_consumed, ← h.up_delivered,
    down.consumed_eq_delivered_iff, up.consumed_eq_delivered_iff, h.down_buf.eq_nil_iff,
    h.up_buf.eq_nil_iff]

/-- A pass, as its loop head and the kernel's answers. -/
def pass : Flow StrCli → Answers → List (StrCli × Answers)
  | .next s, a => [(s, a)]
  | _, _ => []

/-- Behind every read that gave bytes, in its pass or a later one, a write took all it was offered. -/
def Flushed (leg : StrCli → Answers → Leg) (ps : List (StrCli × Answers)) : Prop :=
  Followed (fun p => 0 < (leg p.1 p.2).given) (fun p => (leg p.1 p.2).TakesAll) ps

/-- One more pass. -/
theorem flushed_snoc {leg : StrCli → Answers → Leg} {ps : List (StrCli × Answers)} {s : StrCli} {a : Answers} :
    Flushed leg (ps ++ [(s, a)]) ↔ (leg s a).TakesAll ∨ Flushed leg ps ∧ ¬ 0 < (leg s a).given :=
  Followed.append_singleton

/-- **At every loop head, a direction is empty exactly when all it was given was flushed.** -/
theorem head_empty_iff (toBuf frBuf : Vector UInt8 maxSize) {s : StrCli} {ps : List (StrCli × Answers)}
    (hs : ((strCli toBuf frBuf).observe pass).Reachable (.next s, ps)) :
    (s.froptr = s.friptr ↔ Flushed StrCli.down ps) ∧ (s.tooptr = s.toiptr ↔ Flushed StrCli.up ps) := by
  have key := whileLoop_observe_invariant
    (P := fun f ps => ∀ t, f = .next t →
      (t.froptr = t.friptr ↔ Flushed StrCli.down ps) ∧ (t.tooptr = t.toiptr ↔ Flushed StrCli.up ps))
    ?_ ?_ hs
  · exact key s rfl
  · rintro t ⟨⟩
    exact ⟨iff_of_true rfl Followed.nil, iff_of_true rfl Followed.nil⟩
  · intro s ps a hhead hinv _ t ht
    obtain ⟨hdown, hup⟩ := hinv s rfl
    have hnext : s.body a = .next t := by
      cases hb : s.body a with
      | again u => exact absurd hb (body_ne_again s u a)
      | next u => rw [hb] at ht; exact ht
      | ret u | exit m u | undef u => rw [hb] at ht; cases ht
    have hrel : Relayed s := strCli_relayed hhead
    obtain ⟨hfr, hto⟩ := body_empty_iff hrel hnext
    constructor
    · rw [hfr, hdown]
      exact flushed_snoc.symm
    · rw [hto, hup]
      exact flushed_snoc.symm

/-- **When the normal return is complete.**  Everything that was read has been written exactly when, in each
direction, behind every read that gave bytes a write took all it was offered, in the same pass or a later one. -/
theorem strCli_return_complete_iff (toBuf frBuf : Vector UInt8 maxSize) (s s' : StrCli) (a : Answers)
    (ps : List (StrCli × Answers)) (hs : ((strCli toBuf frBuf).observe pass).Reachable (.next s, ps))
    (hret : s.body a = .ret s') :
    Complete s'.calls ↔ Flushed StrCli.down ps ∧ Flushed StrCli.up ps := by
  have hrel : Relayed s := strCli_relayed (System.reachable_of_observe hs)
  have hend : (s.body a).Holds Relayed := body_relayed hrel a
  rw [hret] at hend
  obtain ⟨up, down, hsim⟩ : Relayed s' := hend
  obtain ⟨hto, hfr⟩ := body_ret hrel hret
  obtain ⟨hdown, hup⟩ := head_empty_iff toBuf frBuf hs
  rw [hsim.complete_iff, hfr, hto, hdown, hup]

/-- Stdin gives three bytes, and the socket takes two of them; then it takes the third and gives two, of which
stdout takes one; then stdin ends and stdout takes the other. -/
def bothWays : List Answers :=
  [⟨.ready {.stdin} ∅, .data [97, 98, 99], .wouldBlock, .wouldBlock, .wrote 2⟩,
   ⟨.ready {.sockfd} {.sockfd}, .wouldBlock, .data [104, 105], .wrote 1, .wrote 1⟩,
   ⟨.ready {.stdin} {.stdout}, .data [], .wouldBlock, .wrote 1, .wouldBlock⟩]

/-- The socket ends, and nothing else happens. -/
def sockEnds : Answers := ⟨.ready {.sockfd} ∅, .wouldBlock, .data [], .wouldBlock, .wouldBlock⟩

/-- Both directions relay bytes, with partial writes, and the return is complete. -/
theorem strCli_return_complete_iff_bothWays :
    ∃ s s' ps, ((strCli (Vector.replicate _ 0) (Vector.replicate _ 0)).observe pass).Reachable (.next s, ps) ∧
      s.body sockEnds = .ret s' ∧ bytesRead .stdin s'.calls = [97, 98, 99] ∧
      bytesRead .sockfd s'.calls = [104, 105] ∧ Complete s'.calls := by
  have hs := System.reachable_of_run ((strCli (Vector.replicate _ 0) (Vector.replicate _ 0)).observe pass)
    bothWays rfl
  refine ⟨_, _, _, hs, rfl, rfl, rfl, ?_⟩
  refine (strCli_return_complete_iff _ _ _ _ sockEnds _ hs rfl).mpr ⟨?_, ?_⟩
  · -- the last pass takes what stdout still owed
    exact flushed_snoc.mpr (.inl (by decide))
  · -- the last pass adds nothing, and the one before takes all
    exact flushed_snoc.mpr (.inr ⟨flushed_snoc.mpr (.inl (by decide)), by decide⟩)

/-- Stdin ends; the socket's two bytes meet a slow stdout; the socket ends while stdout is still slow. -/
def slowStdout : List Answers :=
  [⟨.ready {.stdin} ∅, .data [], .wouldBlock, .wouldBlock, .wouldBlock⟩,
   ⟨.ready {.sockfd} ∅, .wouldBlock, .data [104, 105], .wouldBlock, .wouldBlock⟩,
   ⟨.ready {.sockfd} ∅, .wouldBlock, .data [], .wouldBlock, .wouldBlock⟩]

/-- The relay returns normally and the two bytes of the socket were never written. -/
theorem strCli_return_loses_bytes :
    ∃ s', (strCli (Vector.replicate _ 0) (Vector.replicate _ 0)).runFrom
        (.next (StrCli.start (Vector.replicate _ 0) (Vector.replicate _ 0))) slowStdout = some (.ret s') ∧
      bytesRead .sockfd s'.calls = [104, 105] ∧ bytesWritten .stdout s'.calls = [] ∧
      ¬ Complete s'.calls := by
  refine ⟨_, rfl, rfl, rfl, ?_⟩
  rintro ⟨h, -⟩
  exact absurd h (by decide)

end NetProg.Relay
