/-
# NetProg.Lua.Client -- `Lua/client.lua`, and the replies of `Lua/server.lua`.

The client reads a line from the user, sends it, and then prints what `sock:receive ()` returns as long as
`select` finds the socket readable.  The socket does not block: when no full line has arrived, `receive` takes
what is there, and returns nil, "timeout" and these bytes.  The loop reads the first two results only, and
since `recvt` is still not empty it calls `receive` again at once.

So a line is printed whole exactly if `receive` never takes the beginning of one.  The server sends the
beginning of each reply for itself (`reply`).
-/
import NetProg.Base.Lines
import NetProg.Base.Stdio
import NetProg.Base.System
import NetProg.Server.EchoServers

namespace NetProg.LuaClient

open SelectServer (cstr)

/-! ## Receiving a line -/

/-- The carriage return. -/
def cr : UInt8 := 13

/-- `receive` leaves every carriage return out. -/
def withoutCr (bytes : List UInt8) : List UInt8 := bytes.filter (· ≠ cr)

inductive Status where
  | timeout
  | closed
  deriving DecidableEq, Repr

/-- The three results of `receive`, and what stays to be received. -/
structure Received where
  response : Option (List UInt8)
  status : Option Status
  third : List UInt8
  rest : List UInt8
  deriving DecidableEq, Repr

/-- A socket with timeout 0, as LuaSocket documents it.  What has arrived, and whether the other end is closed,
determine what `receive ()` returns: the first line, and otherwise all that has arrived as third result. -/
structure LuaSocket where
  receive : List UInt8 → Bool → Received
  receive_line : ∀ line rest closed, newline ∉ line →
    receive (line ++ newline :: rest) closed = ⟨some (withoutCr line), none, [], rest⟩
  receive_timeout : ∀ present, newline ∉ present →
    receive present false = ⟨none, some .timeout, withoutCr present, []⟩
  receive_closed : ∀ present, newline ∉ present →
    receive present true = ⟨none, some .closed, withoutCr present, []⟩

/-! ## The client -/

/-- The client is at `io.read`, at `select`, at `receive`, or ended by an error. -/
inductive Pc where
  | read
  | select
  | receive
  | raised
  deriving DecidableEq, Repr

/-- What the client sent and printed, the bytes that have arrived, whether the server has closed, and the bytes
that `receive` has taken. -/
structure Client where
  pc : Pc
  sent : List UInt8
  arrived : List UInt8
  closed : Bool
  received : List UInt8
  printed : List (List UInt8)
  deriving DecidableEq, Repr

/-- Bytes arrive or the server closes; and the calls of the client, where `io.read` returns nil at the end of
the input, and a send may fail. -/
inductive Ev where
  | arrive (bytes : List UInt8)
  | close
  | read (input : Option (List UInt8)) (sent : Bool)
  | select
  | receive
  deriving DecidableEq, Repr

namespace Client

def start : Client := ⟨.read, [], [], false, [], []⟩

/-- `input = io.read()`, and the send. -/
def read (s : Client) (input : Option (List UInt8)) (sent : Bool) : Client :=
  match input with
  | none => { s with pc := .raised }
  | some input =>
    if 0 < input.length then
      if sent then { s with pc := .select, sent := s.sent ++ (input ++ [newline]) }
      else { s with pc := .raised }
    else { s with pc := .select }

/-- `recvt` is empty when nothing came in the second that `select` waits. -/
def select (s : Client) : Client :=
  { s with pc := if s.arrived ≠ [] ∨ s.closed = true then .receive else .read }

/-- One turn of the loop over `receive`. -/
def receive (sock : LuaSocket) (s : Client) : Client :=
  let r := sock.receive s.arrived s.closed
  let s := { s with
    arrived := r.rest
    received := s.received ++ s.arrived.take (s.arrived.length - r.rest.length) }
  if r.status ≠ some .closed then
    match r.response with
    | some response => { s with pc := .select, printed := s.printed ++ [response] }
    | none => s
  else { s with pc := .read }

def step (sock : LuaSocket) (s : Client) : Ev → Option Client
  | .arrive bytes => if s.closed = false then some { s with arrived := s.arrived ++ bytes } else none
  | .close => if s.closed = false then some { s with closed := true } else none
  | .read input sent => if s.pc = .read then some (s.read input sent) else none
  | .select => if s.pc = .select then some s.select else none
  | .receive => if s.pc = .receive then some (s.receive sock) else none

end Client

def client (sock : LuaSocket) : System Client Ev := ⟨Client.start, Client.step sock⟩

/-! ## What one receive does -/

section Receive

variable {sock : LuaSocket} {s : Client}

/-- A full line is taken and printed. -/
theorem receive_of_line {line rest : List UInt8} (hline : newline ∉ line)
    (harrived : s.arrived = line ++ newline :: rest) :
    s.receive sock = { s with
      pc := .select
      arrived := rest
      received := s.received ++ line ++ [newline]
      printed := s.printed ++ [withoutCr line] } := by
  have htaken : (line ++ newline :: rest).take ((line ++ newline :: rest).length - rest.length) =
      line ++ [newline] := by
    have hlen : (line ++ newline :: rest).length - rest.length = (line ++ [newline]).length := by
      simp only [List.length_append, List.length_cons, List.length_nil]
      omega
    rw [hlen, List.append_cons line newline rest]
    exact List.take_left
  simp only [Client.receive, harrived, sock.receive_line line rest s.closed hline, htaken, List.append_assoc]
  rfl

/-- Without one, everything is taken and nothing is printed. -/
theorem receive_of_no_line (hno : newline ∉ s.arrived) :
    s.receive sock = { s with
      pc := if s.closed = true then .read else s.pc
      arrived := []
      received := s.received ++ s.arrived } := by
  cases hclosed : s.closed with
  | false => simp [Client.receive, hclosed, sock.receive_timeout s.arrived hno]
  | true => simp [Client.receive, hclosed, sock.receive_closed s.arrived hno]

end Receive

/-! ## Whole lines -/

/-- The complete lines of a stream, as `receive` returns them. -/
def lines (stream : List UInt8) : List (List UInt8) := (completeLines newline stream).map withoutCr

/-- A `receive` that finds no full line finds nothing at all, or the end of the stream. -/
def Whole (s : Client) (e : Ev) : Prop :=
  match e with
  | .receive => newline ∈ s.arrived ∨ s.closed = true ∨ withoutCr s.arrived = []
  | _ => True

instance (s : Client) (e : Ev) : Decidable (Whole s e) := by
  unfold Whole
  split <;> infer_instance

/-- What was printed are the complete lines, and no beginning of a line was taken, except for one that will
never be completed. -/
structure Exact (s : Client) : Prop where
  printed : s.printed = lines s.received
  fresh : withoutCr (unfinished newline s.received) = [] ∨ s.closed = true ∧ s.arrived = []

section Whole

variable {sock : LuaSocket} {s s' : Client}

theorem withoutCr_append (a b : List UInt8) : withoutCr (a ++ b) = withoutCr a ++ withoutCr b :=
  List.filter_append a b

/-- What the line that is completed here looks like in the stream. -/
theorem lines_append_line (stream : List UInt8) {line : List UInt8} (hline : newline ∉ line) :
    lines (stream ++ line ++ [newline]) =
      lines stream ++ [withoutCr (unfinished newline stream) ++ withoutCr line] := by
  rw [lines, completeLines_append_sep stream hline, List.map_append, List.map_singleton, withoutCr_append]
  rfl

theorem lines_append_of_no_line (stream : List UInt8) {bytes : List UInt8} (hno : newline ∉ bytes) :
    lines (stream ++ bytes) = lines stream := by
  rw [lines, completeLines_append stream hno]
  rfl

/-- Only `receive` takes bytes or prints, and nothing arrives from a server that has closed. -/
theorem step_cases {e : Ev} (hstep : s.step sock e = some s') :
    e = .receive ∧ s' = s.receive sock ∨
    e ≠ .receive ∧ s'.printed = s.printed ∧ s'.received = s.received ∧
      (s.closed = true → s'.closed = true ∧ s'.arrived = s.arrived) := by
  cases e with
  | arrive bytes =>
    simp only [Client.step] at hstep
    split_ifs at hstep with hopen
    cases hstep
    refine .inr ⟨Ev.noConfusion, rfl, rfl, fun hclosed => ?_⟩
    rw [hopen] at hclosed
    cases hclosed
  | close =>
    simp only [Client.step] at hstep
    split_ifs at hstep
    cases hstep
    exact .inr ⟨Ev.noConfusion, rfl, rfl, fun _ => ⟨rfl, rfl⟩⟩
  | read input sent =>
    simp only [Client.step] at hstep
    split_ifs at hstep
    cases hstep
    unfold Client.read
    split
    · exact .inr ⟨Ev.noConfusion, rfl, rfl, fun hclosed => ⟨hclosed, rfl⟩⟩
    · split_ifs
      all_goals exact .inr ⟨Ev.noConfusion, rfl, rfl, fun hclosed => ⟨hclosed, rfl⟩⟩
  | select =>
    simp only [Client.step] at hstep
    split_ifs at hstep
    cases hstep
    exact .inr ⟨Ev.noConfusion, rfl, rfl, fun hclosed => ⟨hclosed, rfl⟩⟩
  | receive =>
    simp only [Client.step] at hstep
    split_ifs at hstep
    cases hstep
    exact .inl ⟨rfl, rfl⟩

/-- What `receive` does to the stream and to the output. -/
theorem receive_cases (sock : LuaSocket) (s : Client) :
    (∃ line, newline ∉ line ∧ newline ∈ s.arrived ∧
      (s.receive sock).received = s.received ++ line ++ [newline] ∧
      (s.receive sock).printed = s.printed ++ [withoutCr line]) ∨
    newline ∉ s.arrived ∧ (s.receive sock).received = s.received ++ s.arrived ∧
      (s.receive sock).printed = s.printed ∧ (s.receive sock).arrived = [] ∧
      (s.receive sock).closed = s.closed := by
  by_cases hin : newline ∈ s.arrived
  · obtain ⟨line, rest, harrived, hline⟩ := List.eq_append_cons_of_mem hin
    rw [receive_of_line hline harrived]
    exact .inl ⟨line, hline, hin, rfl, rfl⟩
  · rw [receive_of_no_line hin]
    exact .inr ⟨hin, rfl, rfl, rfl, rfl⟩

theorem Exact.start : Exact Client.start where
  printed := rfl
  fresh := .inl rfl

theorem Exact.receive (h : Exact s) (hwhole : Whole s .receive) : Exact (s.receive sock) := by
  rcases receive_cases sock s with
    ⟨line, hline, hin, hreceived, hprinted⟩ | ⟨hno, hreceived, hprinted, harrived, hclosed⟩
  · have hfresh : withoutCr (unfinished newline s.received) = [] :=
      h.fresh.resolve_right fun hend => List.ne_nil_of_mem hin hend.2
    constructor
    · rw [hreceived, hprinted, lines_append_line _ hline, hfresh, h.printed]
      rfl
    · left
      rw [hreceived, unfinished_append_sep]
      rfl
  · constructor
    · rw [hreceived, hprinted, lines_append_of_no_line _ hno, h.printed]
    · rw [hreceived, harrived, hclosed, unfinished_append _ hno, withoutCr_append]
      rcases hwhole with hin | hend | hnothing
      · exact absurd hin hno
      · exact .inr ⟨hend, rfl⟩
      · rcases h.fresh with hfresh | hend
        · left
          rw [hfresh, hnothing]
          rfl
        · exact .inr ⟨hend.1, rfl⟩

theorem Exact.step (h : Exact s) {e : Ev} (hwhole : Whole s e) (hstep : s.step sock e = some s') :
    Exact s' := by
  rcases step_cases hstep with ⟨rfl, rfl⟩ | ⟨-, hprinted, hreceived, hclosed⟩
  · exact h.receive hwhole
  · constructor
    · rw [hprinted, hreceived, h.printed]
    · rw [hreceived]
      rcases h.fresh with hfresh | hend
      · exact .inl hfresh
      · obtain ⟨hclosed', harrived⟩ := hclosed hend.1
        exact .inr ⟨hclosed', harrived.trans hend.2⟩

/-! ## Torn lines -/

/-- As many lines were printed as were completed. -/
def Counted (s : Client) : Prop := s.printed.length = (lines s.received).length

/-- The beginning of a line was taken when `k` lines were printed: the line is not complete yet, or what was
printed is wrong. -/
def Torn (k : ℕ) (s : Client) : Prop :=
  s.printed.length ≤ k ∧ withoutCr (unfinished newline s.received) ≠ [] ∨ s.printed ≠ lines s.received

theorem Counted.step (h : Counted s) {e : Ev} (hstep : s.step sock e = some s') : Counted s' := by
  unfold Counted at h ⊢
  rcases step_cases hstep with ⟨rfl, rfl⟩ | ⟨-, hprinted, hreceived, -⟩
  · rcases receive_cases sock s with
      ⟨line, hline, -, hreceived, hprinted⟩ | ⟨hno, hreceived, hprinted, -, -⟩
    · rw [hreceived, hprinted, lines_append_line _ hline, List.length_append, List.length_append, h]
      rfl
    · rw [hreceived, hprinted, lines_append_of_no_line _ hno, h]
  · rw [hprinted, hreceived, h]

theorem counted (h : (client sock).Reachable s) : Counted s := by
  refine (client sock).invariant (P := Counted) rfl ?_ h
  intro s e s' _ hs hstep
  exact hs.step hstep

/-- **A torn line is never mended.** -/
theorem Torn.step {k : ℕ} (hcounted : Counted s) (h : Torn k s) {e : Ev}
    (hstep : s.step sock e = some s') : Torn k s' := by
  unfold Torn at h ⊢
  rcases step_cases hstep with ⟨rfl, rfl⟩ | ⟨-, hprinted, hreceived, -⟩
  · rcases receive_cases sock s with
      ⟨line, hline, -, hreceived, hprinted⟩ | ⟨hno, hreceived, hprinted, -, -⟩
    · right
      rw [hreceived, hprinted, lines_append_line _ hline]
      intro heq
      obtain ⟨hsame, hlast⟩ := List.append_inj heq hcounted
      have hnothing : withoutCr (unfinished newline s.received) = [] := by
        simpa using List.singleton_inj.mp hlast
      rcases h with ⟨-, hbegun⟩ | hwrong
      · exact hbegun hnothing
      · exact hwrong hsame
    · rw [hreceived, hprinted, lines_append_of_no_line _ hno, unfinished_append _ hno, withoutCr_append]
      refine h.imp_left fun hbegun => ⟨hbegun.1, ?_⟩
      exact fun hnil => hbegun.2 (List.append_eq_nil_iff.mp hnil).1
  · rw [hprinted, hreceived]
    exact h

/-- The step that takes the beginning of a line. -/
theorem torn_of_not_whole {e : Ev} (hnot : ¬ Whole s e) (hstep : s.step sock e = some s') :
    Torn s'.printed.length s' := by
  rcases step_cases hstep with ⟨rfl, rfl⟩ | ⟨hne, -, -, -⟩
  · have hnot : ¬ (newline ∈ s.arrived ∨ s.closed = true ∨ withoutCr s.arrived = []) := hnot
    rw [not_or, not_or] at hnot
    obtain ⟨hno, -, hsome⟩ := hnot
    rcases receive_cases sock s with ⟨line, -, hin, -, -⟩ | ⟨hno, hreceived, hprinted, -, -⟩
    · exact absurd hin hno
    · left
      rw [hreceived, unfinished_append _ hno, withoutCr_append]
      exact ⟨Nat.le_refl _, fun hnil => hsome (List.append_eq_nil_iff.mp hnil).2⟩
  · cases e with
    | receive => exact absurd rfl hne
    | _ => exact absurd trivial hnot

end Whole

/-- **In a run in which no `receive` takes the beginning of a line only, the client prints the complete lines
of what it has received.**  After one that does, every later state in which another line was printed is
wrong. -/
theorem printed_lines (sock : LuaSocket) :
    (∀ s, ((client sock).restrict Whole).Reachable s → s.printed = lines s.received) ∧
    (∀ s e s', (client sock).Reachable s → ¬ Whole s e → (client sock).step s e = some s' →
      ∀ es t, (client sock).runFrom s' es = some t → s'.printed.length < t.printed.length →
        t.printed ≠ lines t.received) := by
  constructor
  · intro s h
    have hexact : Exact s := by
      refine (client sock).restrict_invariant .start ?_ h
      intro s e s' _ hs hwhole hstep
      exact hs.step hwhole hstep
    exact hexact.printed
  · intro s e s' h hnot hstep es t hrun hmore
    have htorn : Counted t ∧ Torn s'.printed.length t := by
      refine (client sock).runFrom_induction (P := fun s => Counted s ∧ Torn s'.printed.length s) es ?_
        ⟨(counted h).step hstep, torn_of_not_whole hnot hstep⟩ hrun
      intro s e t _ hs hstep
      exact ⟨hs.1.step hstep, hs.2.step hs.1 hstep⟩
    rcases htorn.2 with hfew | hwrong
    · omega
    · exact hwrong

/-! ## The server's replies -/

/-- A socket that behaves as documented. -/
def receiveLine : LuaSocket where
  receive present closed :=
    if newline ∈ present then
      ⟨some (withoutCr (present.takeWhile (· ≠ newline))), none, [],
        (present.dropWhile (· ≠ newline)).tail⟩
    else ⟨none, some (if closed then .closed else .timeout), withoutCr present, []⟩
  receive_line := by
    intro line rest closed hline
    have hpass : ∀ c ∈ line, decide (c ≠ newline) = true := by
      intro c hc
      rw [decide_eq_true_iff]
      rintro rfl
      exact hline hc
    have hin : newline ∈ line ++ newline :: rest := by simp
    rw [if_pos hin, List.takeWhile_append_of_pos hpass, List.dropWhile_append_of_pos hpass]
    simp
  receive_timeout := by
    intro present hno
    simp [hno]
  receive_closed := by
    intro present hno
    simp [hno]

/-- The two sends with which `server.lua` answers a line of the client at `conn_count`. -/
def reply (connCount : ℕ) (receive : List UInt8) : List (List UInt8) :=
  [cstr "Client " ++ (Nat.toDigits 10 connCount).map (fun c => c.toNat.toUInt8) ++ cstr " Send : ",
    receive ++ [newline]]

/-- A reply that has arrived whole; and one whose first send is received for itself. -/
theorem printed_lines_reply :
    (∃ s : Client, s.printed = lines s.received ∧ s.printed = [cstr "Client 1 Send : hi"]) ∧
    ∃ t, (client receiveLine).Reachable t ∧ t.printed ≠ lines t.received := by
  constructor
  · obtain ⟨s, hs, hp⟩ := ((client receiveLine).restrict Whole).exists_reachable_of_run
      [.read (some (cstr "hi")) true, .arrive (reply 1 (cstr "hi")).flatten, .select, .receive]
      (fun s => s.printed == [cstr "Client 1 Send : hi"]) (by decide)
    exact ⟨s, (printed_lines receiveLine).1 s hs, eq_of_beq hp⟩
  · let s : Client := ⟨.receive, cstr "hi\n", cstr "Client 1 Send : ", false, [], []⟩
    let s' : Client := ⟨.receive, cstr "hi\n", [], false, cstr "Client 1 Send : ", []⟩
    let t : Client := ⟨.select, cstr "hi\n", [], false, cstr "Client 1 Send : hi\n", [cstr "hi"]⟩
    have hs : (client receiveLine).Reachable s :=
      (client receiveLine).reachable_of_run
        [.read (some (cstr "hi")) true, .arrive (cstr "Client 1 Send : "), .select] (by decide)
    have hstep : (client receiveLine).step s .receive = some s' := by decide
    have hrun : (client receiveLine).runFrom s' [.arrive (cstr "hi\n"), .receive] = some t := by decide
    refine ⟨t, (client receiveLine).reachable_of_runFrom (.step _ hs hstep) _ hrun, ?_⟩
    exact (printed_lines receiveLine).2 s .receive s' hs (by decide) hstep _ t hrun (by decide)

/-- **The beginning of the reply is lost**: the client prints "hi", and was sent "Client 1 Send : hi". -/
theorem printed_ne_lines : ∃ s, (client receiveLine).Reachable s ∧
    s.received = (reply 1 (cstr "hi")).flatten ∧ s.printed = [cstr "hi"] ∧ s.printed ≠ lines s.received := by
  obtain ⟨s, hreach, hs⟩ := (client receiveLine).exists_reachable_of_run
    [.read (some (cstr "hi")) true, .arrive (cstr "Client 1 Send : "), .select, .receive,
      .arrive (cstr "hi\n"), .receive]
    (fun s => s.received == (reply 1 (cstr "hi")).flatten && s.printed == [cstr "hi"]) (by decide)
  simp only [Bool.and_eq_true, beq_iff_eq] at hs
  obtain ⟨hreceived, hprinted⟩ := hs
  refine ⟨s, hreach, hreceived, hprinted, ?_⟩
  rw [hprinted, hreceived]
  decide

end NetProg.LuaClient
