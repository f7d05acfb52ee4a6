/-
# NetProg.Relay.ChildOutput -- what the child of `fork_str_cli` writes to stdout.

The child reads into `recvline` and calls `fputs (recvline, stdout)`, which writes up to the first NUL.  `read`
stores no NUL, and `recvline` is neither initialised nor cleared: what ends a chunk is what the buffer held
behind it, from the start or from an earlier, longer chunk.  Without a NUL in the buffer `fputs` reads past its
end, which is undefined.

The signal to the parent is in `NetProg.Relay.ForkStrCli`.
-/
import NetProg.Base.CString
import NetProg.Base.EventLog
import NetProg.Base.Loop
import NetProg.Relay.StrCli

namespace NetProg.ForkStrCli

open Relay (maxSize)

/-- `read`: `-1` with `errno` equal to EINTR or not, `0`, or the bytes stored. -/
inductive ReadResult where
  | error (eintr : Bool)
  | eof
  | data (bs : List UInt8)
  deriving DecidableEq, Repr

/-- At most `sizeof (recvline)` bytes are stored, and `0` is the end of the stream. -/
def ReadResult.Admits : ReadResult → Prop
  | data bs => 1 ≤ bs.length ∧ bs.length ≤ maxSize
  | _ => True

instance : (r : ReadResult) → Decidable r.Admits
  | .error _ => inferInstanceAs (Decidable True)
  | .eof => inferInstanceAs (Decidable True)
  | .data bs => inferInstanceAs (Decidable (1 ≤ bs.length ∧ bs.length ≤ maxSize))

/-- The buffer, the chunks read so far and what was written to stdout. -/
structure Child where
  recvline : Vector UInt8 maxSize
  chunks : List (List UInt8)
  printed : List UInt8

namespace Child

def start (recvline : Vector UInt8 maxSize) : Child := ⟨recvline, [], []⟩

/-- `n = read (sockfd, recvline, sizeof (recvline))`. -/
def receive (s : Child) (bs : List UInt8) : Child :=
  { s with recvline := store s.recvline 0 bs, chunks := s.chunks ++ [bs] }

@[simp] theorem printed_receive (s : Child) (bs : List UInt8) : (s.receive bs).printed = s.printed := by
  simp only [receive]

/-- `fputs (recvline, stdout)`. -/
def puts (s : Child) : Flow Child :=
  match cString s.recvline.toList with
  | some t => .next { s with printed := s.printed ++ t }
  | none => .undef s

theorem puts_next {s : Child} {t : List UInt8} (h : cString s.recvline.toList = some t) :
    s.puts = .next { s with printed := s.printed ++ t } := by
  simp only [puts, h]

theorem puts_undef {s : Child} (h : cString s.recvline.toList = none) : s.puts = .undef s := by
  simp only [puts, h]

@[simp] theorem chunks_puts (s : Child) : s.puts.state.chunks = s.chunks := by
  unfold puts
  split <;> rfl

/-- One pass of the `while (1)`; at the end of the stream it breaks and calls `exit (EXIT_SUCCESS)`. -/
def body (s : Child) : ReadResult → Flow Child
  | .error true => .again s
  | .error false => .exit "read" s
  | .eof => .exit "" s
  | .data bs => (s.receive bs).puts

end Child

/-- The child, with what `recvline` holds at the start. -/
def child (recvline : Vector UInt8 maxSize) : System (Flow Child) ReadResult :=
  whileLoop Child.body (fun _ r => r.Admits) (Child.start recvline)

/-- Everything received was written, nothing else was, and `fputs` stayed in the buffer. -/
def PrintsReceived (f : Flow Child) : Prop :=
  f.isUndef = false ∧ f.state.printed = f.state.chunks.flatten

/-- A chunk that leaves room, with a NUL behind it from the start that no earlier chunk has reached. -/
def Ends (recvline : Vector UInt8 maxSize) (earlier : List (List UInt8)) (chunk : List UInt8) : Prop :=
  chunk.length < maxSize ∧ recvline.toList[chunk.length]? = some 0 ∧ ∀ d ∈ earlier, d.length ≤ chunk.length

/-- What is behind a chunk is written after it: nothing else exactly when the chunk `Ends`. -/
theorem ends_iff {recvline : Vector UInt8 maxSize} {earlier : List (List UInt8)} {chunk : List UInt8}
    (hnul : ∀ d ∈ earlier, (0 : UInt8) ∉ d) :
    Ends recvline earlier chunk ↔
      cString ((earlier.foldl (store · 0 ·) recvline).toList.drop chunk.length) = some [] := by
  rw [cString_eq_nil_iff, List.getElem?_drop, Nat.add_zero]
  by_cases hk : chunk.length < maxSize
  · rw [getElem?_stores_eq_zero_iff recvline hk hnul]
    exact and_iff_right hk
  · have hout : (earlier.foldl (store · 0 ·) recvline).toList[chunk.length]? = none := by
      rw [List.getElem?_eq_none_iff, Vector.length_toList]
      omega
    rw [hout]
    constructor
    · rintro ⟨hlt, -⟩
      exact absurd hlt hk
    · rintro ⟨⟩

/-- The buffer is what the chunks left; no less was written than received, and the same amount only if every
chunk `Ends`. -/
structure Written (recvline : Vector UInt8 maxSize) (s : Child) : Prop where
  buffer : s.recvline = s.chunks.foldl (store · 0 ·) recvline
  le : s.chunks.flatten.length ≤ s.printed.length
  ends : s.printed.length = s.chunks.flatten.length → Each (Ends recvline) s.chunks
  eq : Each (Ends recvline) s.chunks → s.printed = s.chunks.flatten

theorem Written.start (recvline : Vector UInt8 maxSize) : Written recvline (Child.start recvline) where
  buffer := rfl
  le := Nat.le_refl _
  ends := fun _ => Each.nil
  eq := fun _ => rfl

section Step

variable {recvline : Vector UInt8 maxSize} {s : Child} {bs : List UInt8}

theorem cString_receive (hbs : (0 : UInt8) ∉ bs) (hfit : bs.length ≤ maxSize) :
    cString (s.receive bs).recvline.toList =
      (cString (s.recvline.toList.drop bs.length)).map (bs ++ ·) := by
  show cString (store s.recvline 0 bs).toList = _
  rw [toList_store _ hfit, cString_append hbs]

/-- `fputs` has written the chunk and `rest`. -/
theorem Written.puts (h : Written recvline s) (hnul : ∀ d ∈ s.chunks, (0 : UInt8) ∉ d) {rest : List UInt8}
    (hrest : cString (s.recvline.toList.drop bs.length) = some rest) :
    Written recvline { s.receive bs with printed := s.printed ++ (bs ++ rest) } := by
  have hends : Ends recvline s.chunks bs ↔ rest = [] := by
    rw [ends_iff hnul, ← h.buffer, hrest, Option.some.injEq]
  have hchunks : (s.chunks ++ [bs]).flatten = s.chunks.flatten ++ bs := by simp
  have hle := h.le
  refine ⟨?_, ?_, ?_, ?_⟩
  · show store s.recvline 0 bs = (s.chunks ++ [bs]).foldl (store · 0 ·) recvline
    rw [List.foldl_append, ← h.buffer]
    rfl
  · show (s.chunks ++ [bs]).flatten.length ≤ (s.printed ++ (bs ++ rest)).length
    rw [hchunks]
    simp only [List.length_append]
    omega
  · intro hlength
    replace hlength : (s.printed ++ (bs ++ rest)).length = (s.chunks ++ [bs]).flatten.length := hlength
    rw [hchunks] at hlength
    simp only [List.length_append] at hlength
    have hrest0 : rest = [] := by
      apply List.length_eq_zero_iff.mp
      omega
    exact (h.ends (by omega)).snoc (hends.mpr hrest0)
  · intro heach
    obtain ⟨hbefore, hlast⟩ := Each.append_singleton.mp heach
    show s.printed ++ (bs ++ rest) = (s.chunks ++ [bs]).flatten
    rw [hchunks, hends.mp hlast, List.append_nil, h.eq hbefore]

/-- `fputs` runs past the end: the chunk does not end. -/
theorem Written.not_each (h : Written recvline s) (hnul : ∀ d ∈ s.chunks, (0 : UInt8) ∉ d)
    (hrest : cString (s.recvline.toList.drop bs.length) = none) :
    ¬ Each (Ends recvline) (s.chunks ++ [bs]) := by
  intro heach
  have hlast := (Each.append_singleton.mp heach).2
  rw [ends_iff hnul, ← h.buffer, hrest] at hlast
  cases hlast

end Step

/-- What holds of a run in which no NUL was received. -/
def Outcome (recvline : Vector UInt8 maxSize) : Flow Child → Prop
  | .undef s => ¬ Each (Ends recvline) s.chunks
  | .next s | .again s | .ret s | .exit _ s => Written recvline s

theorem Outcome.loopBack {recvline : Vector UInt8 maxSize} {f : Flow Child} (h : Outcome recvline f) :
    Outcome recvline f.loopBack := by
  cases f <;> exact h

theorem Outcome.body {recvline : Vector UInt8 maxSize} {s : Child} (h : Written recvline s) {r : ReadResult}
    (hadmits : r.Admits) (hnul : ∀ c ∈ (s.body r).state.chunks, (0 : UInt8) ∉ c) :
    Outcome recvline (s.body r) := by
  cases r with
  | error eintr => cases eintr <;> exact h
  | eof => exact h
  | data bs =>
    replace hnul : ∀ c ∈ (s.receive bs).puts.state.chunks, (0 : UInt8) ∉ c := hnul
    rw [Child.chunks_puts, Child.receive, List.forall_mem_append, List.forall_mem_singleton] at hnul
    have hstring := cString_receive (s := s) hnul.2 hadmits.2
    show Outcome recvline (s.receive bs).puts
    cases hrest : cString (s.recvline.toList.drop bs.length) with
    | none =>
      rw [hrest, Option.map_none] at hstring
      rw [Child.puts_undef hstring]
      exact h.not_each hnul.1 hrest
    | some rest =>
      rw [hrest, Option.map_some] at hstring
      rw [Child.puts_next hstring, Child.printed_receive]
      exact h.puts hnul.1 hrest

theorem outcome_reachable {recvline : Vector UInt8 maxSize} {f : Flow Child} (hf : (child recvline).Reachable f)
    (hnul : ∀ c ∈ f.state.chunks, (0 : UInt8) ∉ c) : Outcome recvline f := by
  revert hnul
  refine (child recvline).invariant
    (P := fun f => (∀ c ∈ f.state.chunks, (0 : UInt8) ∉ c) → Outcome recvline f) ?_ ?_ hf
  · intro _
    exact Written.start recvline
  · intro f r f' _ ih hstep hnul
    obtain ⟨s, rfl, hadmits, rfl⟩ := whileLoop_step.mp hstep
    rw [Flow.state_loopBack] at hnul
    have hbefore : ∀ c ∈ s.chunks, (0 : UInt8) ∉ c := by
      intro c hc
      refine hnul c ?_
      cases r with
      | error eintr => cases eintr <;> exact hc
      | eof => exact hc
      | data bs =>
        show c ∈ (s.receive bs).puts.state.chunks
        rw [Child.chunks_puts]
        exact List.mem_append_left _ hc
    exact (Outcome.body (ih hbefore) hadmits hnul).loopBack

/-! ## Into a cleared buffer -/

/-- The chunk that a child with a cleared buffer reads first is written as it is. -/
theorem reachable_first {t : List UInt8} (hpos : 1 ≤ t.length) (hfit : t.length < maxSize)
    (hnul : (0 : UInt8) ∉ t) :
    (child (cleared maxSize)).Reachable (.next ⟨store (cleared maxSize) 0 t, [t], t⟩) := by
  have hpass : (child (cleared maxSize)).Reachable
      ((Child.start (cleared maxSize)).body (.data t)).loopBack :=
    AtHead.start.pass ⟨hpos, Nat.le_of_lt hfit⟩
  have hstring : cString ((Child.start (cleared maxSize)).receive t).recvline.toList = some t := by
    show cString (store (cleared maxSize) 0 t).toList = some t
    rw [cString_store_cleared (Nat.le_of_lt hfit), untilNul_of_not_mem hnul, if_pos hfit]
  have hbody : Child.body (Child.start (cleared maxSize)) (.data t) =
      .next ⟨store (cleared maxSize) 0 t, [t], t⟩ := by
    show ((Child.start (cleared maxSize)).receive t).puts = _
    rw [Child.puts_next hstring]
    rfl
  rw [hbody] at hpass
  exact hpass

/-- Of a chunk before it, what the second chunk does not reach is written once more. -/
theorem reachable_second {t u : List UInt8} (htpos : 1 ≤ t.length) (htfit : t.length < maxSize)
    (htnul : (0 : UInt8) ∉ t) (hupos : 1 ≤ u.length) (hufit : u.length < maxSize) (hunul : (0 : UInt8) ∉ u) :
    ∃ recvline, (child (cleared maxSize)).Reachable
      (.next ⟨recvline, [t, u], t ++ (u ++ t.drop u.length)⟩) := by
  have hadmits : ReadResult.Admits (.data u) := ⟨hupos, Nat.le_of_lt hufit⟩
  have hpass : (child (cleared maxSize)).Reachable (Child.body _ (.data u)).loopBack :=
    AtHead.pass (reachable_first htpos htfit htnul) hadmits
  generalize hs : (⟨store (cleared maxSize) 0 t, [t], t⟩ : Child) = s at hpass
  have hdrop : s.recvline.toList.drop u.length =
      t.drop u.length ++ List.replicate (maxSize - t.length - (u.length - t.length)) 0 := by
    rw [← hs]
    show (store (cleared maxSize) 0 t).toList.drop u.length = _
    rw [toList_store _ (Nat.le_of_lt htfit), List.drop_append, drop_cleared, List.drop_replicate]
  have hstring : cString (s.receive u).recvline.toList =
      (cString (s.recvline.toList.drop u.length)).map (u ++ ·) := cString_receive hunul (Nat.le_of_lt hufit)
  have hrest : (0 : UInt8) ∉ t.drop u.length := fun hin => htnul (List.mem_of_mem_drop hin)
  rw [hdrop, cString_append_zeros hrest (by omega), Option.map_some] at hstring
  have hbody : s.body (.data u) = (s.receive u).puts := rfl
  rw [hbody, Child.puts_next hstring, Child.printed_receive] at hpass
  subst hs
  exact ⟨_, hpass⟩

/-- **The child writes what it received, and `fputs` stays in the buffer, if and only if every chunk leaves room
and has a NUL behind it from the start that no earlier chunk has reached.** -/
theorem printsReceived_iff (recvline : Vector UInt8 maxSize) {f : Flow Child}
    (hf : (child recvline).Reachable f) (hnul : ∀ c ∈ f.state.chunks, (0 : UInt8) ∉ c) :
    PrintsReceived f ↔ Each (Ends recvline) f.state.chunks := by
  have hout := outcome_reachable hf hnul
  cases f with
  | undef s =>
    constructor
    · rintro ⟨hdefined, -⟩
      cases hdefined
    · intro heach
      exact absurd heach hout
  | next s | again s | ret s | exit msg s =>
    constructor
    · rintro ⟨-, heq⟩
      exact hout.ends (congrArg List.length heq)
    · intro heach
      exact ⟨rfl, hout.eq heach⟩

/-- "a", then "bc", in a cleared buffer. -/
theorem printsReceived_growing : ∃ f, (child (cleared maxSize)).Reachable f ∧ PrintsReceived f ∧
    f.state.chunks = [[97], [98, 99]] ∧ f.state.printed = [97, 98, 99] := by
  obtain ⟨recvline, hf⟩ := reachable_second (t := [97]) (u := [98, 99]) (by decide) (by decide) (by decide)
    (by decide) (by decide) (by decide)
  refine ⟨_, hf, (printsReceived_iff (cleared maxSize) hf ?_).mpr ?_, rfl, rfl⟩
  · show ∀ c ∈ [[97], [98, 99]], (0 : UInt8) ∉ c
    decide
  · show Each (Ends (cleared maxSize)) (([] ++ [[97]]) ++ [[98, 99]])
    have hnul : ∀ k, k < maxSize → (cleared maxSize).toList[k]? = some 0 := by
      intro k hk
      simp [cleared, hk]
    refine (Each.nil.snoc ⟨by decide, hnul 1 (by decide), ?_⟩).snoc ⟨by decide, hnul 2 (by decide), ?_⟩
    · simp
    · simp

/-- "abc", then "d", in a cleared buffer: what is written is "abcdbc". -/
theorem prints_left_over : ∃ f, (child (cleared maxSize)).Reachable f ∧
    f.state.chunks = [[97, 98, 99], [100]] ∧ f.state.printed = [97, 98, 99, 100, 98, 99] ∧
    ¬ PrintsReceived f := by
  obtain ⟨recvline, hf⟩ := reachable_second (t := [97, 98, 99]) (u := [100]) (by decide) (by decide) (by decide)
    (by decide) (by decide) (by decide)
  refine ⟨_, hf, rfl, rfl, ?_⟩
  rintro ⟨-, heq⟩
  replace heq : ([97, 98, 99, 100, 98, 99] : List UInt8) = [97, 98, 99, 100] := heq
  exact absurd heq (by decide)

end NetProg.ForkStrCli
