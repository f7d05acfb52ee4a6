/-
# NetProg.Unix.Clients -- `str_cli` of `C/unix_stream_client.c` and `dg_cli` of `C/unix_dgram_client.c`.

One loop twice: read a line, send it, receive the answer, print it.  Both calls may be interrupted, and both
`continue` then goes back to `fgets`: a line that was not sent is dropped, and an answer that was not received
is left to the next round, which prints it in place of its own.  So the lines and the answers stay paired only
as long as no call fails (`paired_iff`), and `fgets`, `strlen` and `%s` keep the line and its answer whole.

The server is a function from the message to its answer; `replies` are the answers on their way.
-/
import NetProg.Base.CString
import NetProg.Base.History
import NetProg.Base.Loop
import NetProg.Base.Stdio

namespace NetProg.UnixClient

/-- `#define BUF_SIZE 256`, in both files. -/
def bufSize : ℕ := 256

/-- What a send or a receive call returns: `-1`, with `errno` equal to EINTR or not, or something else. -/
inductive CallAnswer where
  | ok
  | error (eintr : Bool)
  deriving DecidableEq, Repr

/-- The kernel's answers in one round. -/
structure Answers where
  send : CallAnswer
  recv : CallAnswer
  deriving DecidableEq, Repr

/-- What the two programs do differently: the names of the calls, whether an empty message is delivered, and
what is printed behind an answer. -/
structure Program where
  sendName : String
  recvName : String
  deliversEmpty : Bool
  suffix : List UInt8

/-- What is left of the input, the lines that `fgets` returned, the messages sent, the answers on their way,
and the texts printed. -/
structure Cli where
  input : List UInt8
  lines : List (List UInt8)
  sent : List (List UInt8)
  replies : List (List UInt8)
  printed : List (List UInt8)
  deriving DecidableEq, Repr

namespace Cli

def start (text : List UInt8) : Cli := ⟨text, [], [], [], []⟩

/-- What `fgets (sendline, sizeof(sendline), fp)` stores. -/
def line (s : Cli) : List UInt8 := (fgets (bufSize - 1) s.input).1

def getLine (s : Cli) : Cli :=
  { s with input := (fgets (bufSize - 1) s.input).2, lines := s.lines ++ [s.line] }

variable (p : Program) (reply : List UInt8 → List UInt8)

/-- The first `strlen (sendline)` bytes are sent, and the server answers. -/
def deliver (s : Cli) (m : List UInt8) : Cli :=
  { s with
    sent := s.sent ++ [m]
    replies := if m = [] ∧ p.deliversEmpty = false then s.replies else s.replies ++ [reply m] }

/-- An answer is received into the cleared `recvline`, and printed as a string. -/
def receive (s : Cli) : Flow Cli :=
  match s.replies with
  -- without an answer the call does not return
  | [] => .next s
  | r :: rs =>
    match cString (store (cleared bufSize) 0 r).toList with
    | some t => .next { s with replies := rs, printed := s.printed ++ [t ++ p.suffix] }
    | none => .undef { s with replies := rs }

/-- One round. -/
def round (s : Cli) (a : Answers) : Flow Cli :=
  if s.input = [] then .ret s
  else
    match a.send with
    | .error true => .again s.getLine
    | .error false => .exit p.sendName s.getLine
    | .ok =>
      match a.recv with
      | .error true => .again (s.getLine.deliver p reply (untilNul s.line))
      | .error false => .exit p.recvName (s.getLine.deliver p reply (untilNul s.line))
      | .ok => (s.getLine.deliver p reply (untilNul s.line)).receive p

/-- A receive call returns an answer when there is one. -/
def Admits (s : Cli) (a : Answers) : Prop :=
  s.input ≠ [] → a.send = .ok → a.recv = .ok → (s.getLine.deliver p reply (untilNul s.line)).replies ≠ []

instance (s : Cli) (a : Answers) : Decidable (s.Admits p reply a) :=
  inferInstanceAs (Decidable (_ → _ → _ → _))

/-- What the calls of a round return. -/
def returned (s : Cli) (a : Answers) : List CallAnswer :=
  if s.input = [] then []
  else
    match a.send with
    | .ok => [.ok, a.recv]
    | .error eintr => [.error eintr]

end Cli

/-- A client whose input is `text`, and what its calls returned. -/
def client (p : Program) (reply : List UInt8 → List UInt8) (text : List UInt8) :
    System (Flow Cli × List CallAnswer) Answers :=
  (whileLoop (Cli.round p reply) (Cli.Admits p reply) (Cli.start text)).observe fun f a => f.state.returned a

/-- `str_cli`: a `write` of nothing sends nothing. -/
def strCli : Program where
  sendName := "write"
  recvName := "read"
  deliversEmpty := false
  suffix := []

/-- `dg_cli`; it closes the socket before it exits. -/
def dgCli : Program where
  sendName := "sendto"
  recvName := "recvfrom"
  deliversEmpty := true
  suffix := [46, newline]

/-! ## The law -/

/-- The text that is printed for an answer that is a string in the buffer. -/
def Program.display (p : Program) (r : List UInt8) : List UInt8 := untilNul r ++ p.suffix

/-- As far as the input was read: each line was sent once, and the answers were printed in order. -/
structure Paired (p : Program) (reply : List UInt8 → List UInt8) (text : List UInt8) (s : Cli) : Prop where
  sent : s.sent = (textLines text).take s.lines.length
  printed : s.printed = ((textLines text).take s.lines.length).map fun line => p.display (reply line)

/-- A NUL ends the answer inside `recvline`. -/
def Ends (r : List UInt8) : Prop := (untilNul r).length < bufSize

instance (r : List UInt8) : Decidable (Ends r) := inferInstanceAs (Decidable (_ < _))

/-- The line is a string that fits into `sendline`, and its answer one that fits into `recvline`. -/
structure Whole (reply : List UInt8 → List UInt8) (line : List UInt8) : Prop where
  no_nul : (0 : UInt8) ∉ line
  fits : line.length ≤ bufSize - 1
  ends : Ends (reply line)

/-! ## One round -/

section Round

variable (p : Program) (reply : List UInt8 → List UInt8) {s : Cli} (a : Answers)

theorem receive_input_lines_sent (p : Program) (s : Cli) : (s.receive p).state.input = s.input ∧
    (s.receive p).state.lines = s.lines ∧ (s.receive p).state.sent = s.sent := by
  rw [Cli.receive]
  split
  · exact ⟨rfl, rfl, rfl⟩
  · split <;> exact ⟨rfl, rfl, rfl⟩

/-- What a round that read a line does: the send fails, the receive fails, or both calls are done. -/
theorem round_cases (hinput : s.input ≠ []) :
    ((s.round p reply a).state = s.getLine ∧ ¬ ∀ r ∈ s.returned a, r = .ok) ∨
      ((s.round p reply a).state = s.getLine.deliver p reply (untilNul s.line) ∧
        ¬ ∀ r ∈ s.returned a, r = .ok) ∨
      (a = ⟨.ok, .ok⟩ ∧
        s.round p reply a = (s.getLine.deliver p reply (untilNul s.line)).receive p) := by
  obtain ⟨snd, rcv⟩ := a
  simp only [Cli.round, Cli.returned, if_neg hinput]
  cases snd with
  | error eintr => cases eintr <;> exact .inl ⟨rfl, by simp⟩
  | ok =>
    cases rcv with
    | error eintr => cases eintr <;> exact .inr (.inl ⟨rfl, by simp⟩)
    | ok => exact .inr (.inr ⟨rfl, rfl⟩)

/-- Every round but the last reads one line, whatever the calls return. -/
theorem round_lines (hinput : s.input ≠ []) : (s.round p reply a).state.lines = s.lines ++ [s.line] ∧
    (s.round p reply a).state.input = (fgets (bufSize - 1) s.input).2 := by
  rcases round_cases p reply a hinput with ⟨hstate, -⟩ | ⟨hstate, -⟩ | ⟨rfl, hround⟩
  · rw [hstate]
    exact ⟨rfl, rfl⟩
  · rw [hstate]
    exact ⟨rfl, rfl⟩
  · obtain ⟨hin, hlines, -⟩ := receive_input_lines_sent p (s.getLine.deliver p reply (untilNul s.line))
    rw [hround]
    exact ⟨hlines, hin⟩

/-- It sends at most that line, up to a NUL. -/
theorem round_sent (hinput : s.input ≠ []) :
    ∀ m ∈ (s.round p reply a).state.sent, m ∈ s.sent ∨ m = untilNul s.line := by
  have hdelivered : ∀ m ∈ (s.getLine.deliver p reply (untilNul s.line)).sent,
      m ∈ s.sent ∨ m = untilNul s.line := by
    intro m hm
    rcases List.mem_append.mp hm with hold | hnew
    · exact .inl hold
    · exact .inr (List.mem_singleton.mp hnew)
  rcases round_cases p reply a hinput with ⟨hstate, -⟩ | ⟨hstate, -⟩ | ⟨rfl, hround⟩
  · rw [hstate]
    exact fun m hm => .inl hm
  · rw [hstate]
    exact hdelivered
  · rw [hround, (receive_input_lines_sent p _).2.2]
    exact hdelivered

/-- It prints at most one text, and none when a call fails. -/
theorem round_printed (hinput : s.input ≠ []) :
    (s.round p reply a).state.printed.length ≤ s.printed.length + 1 ∧
      ((¬ ∀ r ∈ s.returned a, r = .ok) → (s.round p reply a).state.printed = s.printed) := by
  rcases round_cases p reply a hinput with ⟨hstate, -⟩ | ⟨hstate, -⟩ | ⟨rfl, hround⟩
  · rw [hstate]
    exact ⟨Nat.le_succ _, fun _ => rfl⟩
  · rw [hstate]
    exact ⟨Nat.le_succ _, fun _ => rfl⟩
  · constructor
    · rw [hround, Cli.receive]
      split
      · exact Nat.le_succ _
      · split
        · exact (List.length_append).le
        · exact Nat.le_succ _
    · intro hfails
      refine absurd ?_ hfails
      simp [Cli.returned, hinput]

/-- It returns only at the end of the input. -/
theorem input_of_round {p : Program} {reply : List UInt8 → List UInt8} {a : Answers} {s' : Cli}
    (hret : s.round p reply a = .ret s') : s'.input = [] := by
  rw [Cli.round] at hret
  split_ifs at hret with hinput
  · cases hret
    exact hinput
  · obtain ⟨snd, rcv⟩ := a
    cases snd with
    | error eintr => cases eintr <;> cases hret
    | ok =>
      cases rcv with
      | error eintr => cases eintr <;> cases hret
      | ok =>
        simp only [Cli.receive] at hret
        split at hret
        · cases hret
        · split at hret <;> cases hret

/-- Both calls are done, and no other answer is on its way: the answer to this line is printed, if it ends in
the buffer. -/
theorem receive_deliver (hreply : ∀ m, (reply m).length ≤ bufSize) {m : List UInt8}
    (hnone : s.replies = []) (hsome : (s.deliver p reply m).replies ≠ []) :
    (Ends (reply m) → (s.deliver p reply m).receive p = .next { s with
        sent := s.sent ++ [m], printed := s.printed ++ [p.display (reply m)] }) ∧
      (¬ Ends (reply m) → ((s.deliver p reply m).receive p).state.printed = s.printed) := by
  have hreplies : (s.deliver p reply m).replies = [reply m] := by
    simp only [Cli.deliver, hnone, List.nil_append] at hsome ⊢
    split_ifs at hsome ⊢
    · exact absurd rfl hsome
    · rfl
  have hstring : cString (store (cleared bufSize) 0 (reply m)).toList =
      if Ends (reply m) then some (untilNul (reply m)) else none := cString_store_cleared (hreply m)
  constructor
  · intro hends
    rw [if_pos hends] at hstring
    simp only [Cli.receive, hreplies, hstring]
    simp only [Cli.deliver, hnone, Program.display]
  · intro hends
    rw [if_neg hends] at hstring
    simp only [Cli.receive, hreplies, hstring]
    rfl

end Round

/-! ## The invariant -/

/-- Nothing went wrong: no call failed, and each message sent had an answer that ends in the buffer. -/
def Undisturbed (reply : List UInt8 → List UInt8) (s : Cli) (l : List CallAnswer) : Prop :=
  (∀ r ∈ l, r = .ok) ∧ ∀ line ∈ s.lines, Ends (reply (untilNul line))

/-- What holds of a session whose calls returned `l`.  A text is printed for every line as long as nothing
goes wrong, and there is one too few from then on. -/
structure Inv (p : Program) (reply : List UInt8 → List UInt8) (text : List UInt8) (s : Cli)
    (l : List CallAnswer) : Prop where
  count : (textLines text).length ≤ s.lines.length + (textLines s.input).length
  lines : (∀ line ∈ (textLines text).take s.lines.length, line.length ≤ bufSize - 1) →
    s.lines = (textLines text).take s.lines.length ∧
      textLines s.input = (textLines text).drop s.lines.length
  strings : ∀ m ∈ s.sent, (0 : UInt8) ∉ m ∧ m.length ≤ bufSize - 1
  kept : Undisturbed reply s l → s.sent = s.lines.map untilNul ∧ s.replies = [] ∧
    s.printed = s.lines.map fun line => p.display (reply (untilNul line))
  behind : ¬ Undisturbed reply s l → s.printed.length < s.lines.length

section Invariant

variable {p : Program} {reply : List UInt8 → List UInt8} {text : List UInt8} {s : Cli}
  {l : List CallAnswer}

theorem Inv.start (p : Program) (reply : List UInt8 → List UInt8) (text : List UInt8) :
    Inv p reply text (Cli.start text) [] where
  count := by simp [Cli.start]
  lines := fun _ => ⟨rfl, rfl⟩
  strings := by simp [Cli.start]
  kept := fun _ => ⟨rfl, rfl, rfl⟩
  behind := fun h => absurd ⟨by simp, by simp [Cli.start]⟩ h

/-- There is at most one text for each line. -/
theorem Inv.printed_le (h : Inv p reply text s l) : s.printed.length ≤ s.lines.length := by
  by_cases hgood : Undisturbed reply s l
  · rw [(h.kept hgood).2.2, List.length_map]
  · exact Nat.le_of_lt (h.behind hgood)

/-- The next line of the input is the next line of the text. -/
theorem Inv.lines_step (h : Inv p reply text s l) (hinput : s.input ≠ [])
    (hfit : ∀ line ∈ (textLines text).take (s.lines.length + 1), line.length ≤ bufSize - 1) :
    s.lines ++ [s.line] = (textLines text).take (s.lines.length + 1) ∧
      textLines (fgets (bufSize - 1) s.input).2 = (textLines text).drop (s.lines.length + 1) := by
  obtain ⟨hread, hrest⟩ := h.lines fun line hline =>
    hfit line (List.take_subset_take_left _ (Nat.le_succ _) hline)
  cases hnext : textLines s.input with
  | nil => exact absurd hnext (textLines_ne_nil hinput)
  | cons line rest =>
    rw [hnext] at hrest
    have hline : (textLines text)[s.lines.length]? = some line := by
      rw [← List.head?_drop, ← hrest]
      rfl
    have htake : (textLines text).take (s.lines.length + 1) =
        (textLines text).take s.lines.length ++ [line] := by
      rw [List.take_add_one, hline]
      rfl
    have hlen : line.length ≤ bufSize - 1 := by
      apply hfit
      rw [htake]
      exact List.mem_append_right _ List.mem_cons_self
    obtain ⟨hfirst, hothers⟩ := fgets_of_textLines hnext hlen
    constructor
    · rw [htake, ← hread]
      exact congrArg (s.lines ++ [·]) hfirst
    · rw [hothers, ← List.drop_drop, ← hrest]
      rfl

/-- **One round keeps the invariant.** -/
theorem Inv.round (hreply : ∀ m, (reply m).length ≤ bufSize) (h : Inv p reply text s l) {a : Answers}
    (ha : s.Admits p reply a) : Inv p reply text (s.round p reply a).state (l ++ s.returned a) := by
  by_cases hinput : s.input = []
  · have hround : s.round p reply a = .ret s := if_pos hinput
    have hnone : s.returned a = [] := if_pos hinput
    rw [hround, hnone, List.append_nil]
    exact h
  obtain ⟨hlines, hrest⟩ := round_lines p reply a hinput
  obtain ⟨hone, hfails⟩ := round_printed p reply a hinput
  have hlen : (s.round p reply a).state.lines.length = s.lines.length + 1 := by
    rw [hlines, List.length_append, List.length_singleton]
  have hunfold : Undisturbed reply (s.round p reply a).state (l ++ s.returned a) ↔
      Undisturbed reply s l ∧ (∀ r ∈ s.returned a, r = .ok) ∧ Ends (reply (untilNul s.line)) := by
    rw [Undisturbed, hlines, List.forall_mem_append, List.forall_mem_append, List.forall_mem_singleton]
    exact and_and_and_comm
  have hsteps : Undisturbed reply s l → (∀ r ∈ s.returned a, r = .ok) →
      (s.round p reply a = (s.getLine.deliver p reply (untilNul s.line)).receive p) ∧
        s.getLine.replies = [] ∧ (s.getLine.deliver p reply (untilNul s.line)).replies ≠ [] := by
    intro hgood hok
    rcases round_cases p reply a hinput with ⟨-, hnot⟩ | ⟨-, hnot⟩ | ⟨rfl, hround⟩
    · exact absurd hok hnot
    · exact absurd hok hnot
    · exact ⟨hround, (h.kept hgood).2.1, ha hinput rfl rfl⟩
  constructor
  case count =>
    have hcount := h.count
    have hmore := length_textLines_le (bufSize - 1) s.input
    rw [hlen, hrest]
    omega
  case lines =>
    rw [hlen, hlines, hrest]
    exact h.lines_step hinput
  case strings =>
    intro m hm
    rcases round_sent p reply a hinput m hm with hold | rfl
    · exact h.strings m hold
    · exact ⟨not_mem_untilNul _, (length_untilNul_le _).trans (length_fgets_le _ _)⟩
  case kept =>
    intro hgood
    obtain ⟨hbefore, hok, hends⟩ := hunfold.mp hgood
    obtain ⟨hsent, hnone, hprinted⟩ := h.kept hbefore
    obtain ⟨hround, hempty, hsome⟩ := hsteps hbefore hok
    rw [hround, (receive_deliver p reply hreply hempty hsome).1 hends]
    refine ⟨?_, hnone, ?_⟩
    · show s.sent ++ [untilNul s.line] = (s.lines ++ [s.line]).map untilNul
      rw [List.map_append, hsent]
      rfl
    · show s.printed ++ [p.display (reply (untilNul s.line))] = (s.lines ++ [s.line]).map _
      rw [List.map_append, hprinted]
      rfl
  case behind =>
    intro hbad
    rw [hlen]
    by_cases hbefore : Undisturbed reply s l
    · -- the round printed nothing
      suffices hsame : (s.round p reply a).state.printed = s.printed by
        rw [hsame]
        exact Nat.lt_succ_of_le h.printed_le
      by_cases hok : ∀ r ∈ s.returned a, r = .ok
      · obtain ⟨hround, hempty, hsome⟩ := hsteps hbefore hok
        rw [hround]
        refine (receive_deliver p reply hreply hempty hsome).2 fun hends => ?_
        exact hbad (hunfold.mpr ⟨hbefore, hok, hends⟩)
      · exact hfails hok
    · have hless := h.behind hbefore
      omega

theorem printed_for_each_line (hreply : ∀ m, (reply m).length ≤ bufSize) {f : Flow Cli}
    (hf : (client p reply text).Reachable (f, l)) : Inv p reply text f.state l := by
  refine whileLoop_observe_invariant (P := fun f l => Inv p reply text f.state l) (.start p reply text) ?_ hf
  intro s l a _ h ha
  rw [Flow.state_loopBack]
  exact h.round hreply ha

end Invariant

/-! ## The main result -/

section Session

variable {p : Program} {reply : List UInt8 → List UInt8} {text : List UInt8} {s : Cli}
  {l : List CallAnswer}

theorem Inv.paired_iff (h : Inv p reply text s l) : Paired p reply text s ↔
    (∀ r ∈ l, r = .ok) ∧ ∀ line ∈ (textLines text).take s.lines.length, Whole reply line := by
  constructor
  · rintro ⟨hsent, hprinted⟩
    rw [← hsent] at hprinted ⊢
    obtain ⟨hread, -⟩ := h.lines fun line hline => (h.strings line (hsent ▸ hline)).2
    have hgood : Undisturbed reply s l := by
      by_contra hbad
      have hless := h.behind hbad
      rw [hprinted, List.length_map, hsent, ← hread] at hless
      exact Nat.lt_irrefl _ hless
    refine ⟨hgood.1, fun line hline => ?_⟩
    obtain ⟨hnul, hlen⟩ := h.strings line hline
    refine ⟨hnul, hlen, ?_⟩
    rw [hsent, ← hread] at hline
    have hends := hgood.2 line hline
    rwa [untilNul_of_not_mem hnul] at hends
  · rintro ⟨hok, hwhole⟩
    obtain ⟨hread, -⟩ := h.lines fun line hline => (hwhole line hline).fits
    rw [← hread] at hwhole
    have hstrings : ∀ line ∈ s.lines, untilNul line = line := fun line hline =>
      untilNul_of_not_mem (hwhole line hline).no_nul
    have hgood : Undisturbed reply s l := by
      refine ⟨hok, fun line hline => ?_⟩
      rw [hstrings line hline]
      exact (hwhole line hline).ends
    obtain ⟨hsent, -, hprinted⟩ := h.kept hgood
    constructor
    · rw [hsent, ← hread]
      exact (List.map_congr_left hstrings).trans (List.map_id' _)
    · rw [hprinted, ← hread]
      refine List.map_congr_left fun line hline => ?_
      rw [hstrings line hline]

/-- The loop returns at the end of the input. -/
theorem input_of_ret {f : Flow Cli} (hf : (client p reply text).Reachable (f, l)) (hret : f = .ret s) :
    s.input = [] := by
  have hends : ∀ s, f = .ret s → s.input = [] := by
    refine whileLoop_observe_invariant (P := fun f _ => ∀ s, f = .ret s → s.input = []) ?_ ?_ hf
    · rintro s ⟨⟩
    · exact fun s₀ l a _ _ _ s hs => input_of_round (Flow.loopBack_eq_ret.mp hs)
  exact hends s hret

end Session

/-- What holds of every session of a client: it is paired so far exactly when no call has failed and the lines
read, and their answers, are strings that fit; it returns behind the last line; and every round but that one
takes a line off the input, so that there are no more rounds than bytes. -/
structure SessionLaws (p : Program) (reply : List UInt8 → List UInt8) (text : List UInt8) (f : Flow Cli)
    (l : List CallAnswer) : Prop where
  paired_iff : Paired p reply text f.state ↔ (∀ r ∈ l, r = .ok) ∧
    ∀ line ∈ (textLines text).take f.state.lines.length, Whole reply line
  complete : ∀ s, f = .ret s → (textLines text).take s.lines.length = textLines text
  progress : ∀ a, f.state.round p reply a = .ret f.state ∨
    (f.state.round p reply a).state.input.length < f.state.input.length

theorem sessionLaws {p : Program} {reply : List UInt8 → List UInt8}
    (hreply : ∀ m, (reply m).length ≤ bufSize) {text : List UInt8} {f : Flow Cli} {l : List CallAnswer}
    (hf : (client p reply text).Reachable (f, l)) :
    SessionLaws p reply text f l where
  paired_iff := (printed_for_each_line hreply hf).paired_iff
  complete := by
    rintro s rfl
    have hcount := (printed_for_each_line hreply hf).count
    rw [Flow.state, input_of_ret hf rfl, textLines_nil, List.length_nil] at hcount
    exact List.take_of_length_le hcount
  progress := by
    intro a
    by_cases hinput : f.state.input = []
    · exact .inl (if_pos hinput)
    · right
      rw [(round_lines p reply a hinput).2]
      exact length_fgets_snd_lt (by decide) hinput

/-- **When the two clients keep lines and answers paired.**  For every input, every server whose answers can
be received whole, and every pattern of failed and interrupted calls. -/
theorem clients_paired_iff (reply : List UInt8 → List UInt8) (hreply : ∀ m, (reply m).length ≤ bufSize)
    (text : List UInt8) (f : Flow Cli) (l : List CallAnswer) :
    ((client strCli reply text).Reachable (f, l) → SessionLaws strCli reply text f l) ∧
      ((client dgCli reply text).Reachable (f, l) → SessionLaws dgCli reply text f l) :=
  ⟨sessionLaws hreply, sessionLaws hreply⟩

/-- A server that answers with the first byte. -/
def firstByte (m : List UInt8) : List UInt8 := m.take 1

/-- "a" and "b". -/
def twoLines : List UInt8 := [97, newline, 98, newline]

/-- Both are sent and answered. -/
theorem clients_paired_iff_two : ∃ f l, (client strCli firstByte twoLines).Reachable (f, l) ∧
    f.state.sent = [[97, newline], [98, newline]] ∧ Paired strCli firstByte twoLines f.state := by
  obtain ⟨⟨f, l⟩, hf, hrun⟩ := (client strCli firstByte twoLines).exists_reachable_of_run
    [⟨.ok, .ok⟩, ⟨.ok, .ok⟩, ⟨.ok, .ok⟩]
    (fun q => q.1.state.sent == [[97, newline], [98, newline]] && q.2 == [.ok, .ok, .ok, .ok])
    (by decide +kernel)
  simp only [Bool.and_eq_true, beq_iff_eq] at hrun
  obtain ⟨hsent, hreturned⟩ := hrun
  have hfirst : ∀ m, (firstByte m).length ≤ bufSize := by
    intro m
    exact (List.length_take_le 1 m).trans (by decide)
  have hwhole : ∀ line ∈ textLines twoLines, Whole firstByte line := by
    rw [show textLines twoLines = [[97, newline], [98, newline]] from rfl, List.forall_mem_cons,
      List.forall_mem_singleton]
    exact ⟨⟨by decide, by decide, by decide⟩, by decide, by decide, by decide⟩
  have hlaws := (clients_paired_iff firstByte hfirst twoLines f l).1 hf
  refine ⟨f, l, hf, hsent, hlaws.paired_iff.mpr ⟨?_, fun line hline => ?_⟩⟩
  · rw [hreturned]
    decide
  · exact hwhole line (List.mem_of_mem_take hline)

/-- The receive call behind "a" is interrupted: "b" gets the answer to "a", in both clients. -/
theorem clients_shift :
    (∃ f l, (client strCli firstByte twoLines).Reachable (f, l) ∧ l = [.ok, .error true, .ok, .ok] ∧
        f.state.printed = [[97]] ∧ ¬ Paired strCli firstByte twoLines f.state) ∧
      ∃ f l, (client dgCli firstByte twoLines).Reachable (f, l) ∧ l = [.ok, .error true, .ok, .ok] ∧
        f.state.printed = [[97, 46, newline]] ∧ ¬ Paired dgCli firstByte twoLines f.state := by
  constructor
  · have hf := System.reachable_of_run (client strCli firstByte twoLines)
      [⟨.ok, .error true⟩, ⟨.ok, .ok⟩] rfl
    exact ⟨_, _, hf, rfl, by decide +kernel, fun hpaired => absurd hpaired.printed (by decide +kernel)⟩
  · have hf := System.reachable_of_run (client dgCli firstByte twoLines)
      [⟨.ok, .error true⟩, ⟨.ok, .ok⟩] rfl
    exact ⟨_, _, hf, rfl, by decide +kernel, fun hpaired => absurd hpaired.printed (by decide +kernel)⟩

end NetProg.UnixClient
