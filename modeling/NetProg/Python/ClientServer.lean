/-
# NetProg.Python.ClientServer -- `Python/select_client.py` and `Python/select_server.py` together.

The client makes all its connections, and then goes round by round: it sends one message on each connection, and
reads once from each.  A connection holds what was sent on it; a `recv` on either side takes any positive number
of the bytes that have arrived, and a `send` of the server any positive number of the bytes it was given.  A pass
of the server is one step: it reads before it sends, so that what the client does meanwhile could as well come
before the pass or behind it.

A run is followed until the client's `main` returns.  Its sockets close then, and what the server makes of that is
not part of this system: there a pass can raise (`NetProg.Python.PassFailures`).

The client's messages are ASCII, so a chunk decodes wherever it was cut, and `str.upper` maps one character to one.
Left out are the timeout of the server, which ends it when nothing happens for twenty seconds, and what `print`
writes.
-/
import Mathlib.Data.List.GetD
import NetProg.Base.Progress
import NetProg.Python.Chunks

namespace NetProg.PySelectServer

/-! ## The client -/

/-- What the client is to do: how many connections it makes and how many rounds it goes, and its message of each
round on each connection. -/
structure Script where
  conns : ℕ
  rounds : ℕ
  data : ℕ → ℕ → List Char
  ascii : ∀ j i, Ascii (data j i)
  nonempty : ∀ j i, data j i ≠ []

/-- `messages`. -/
def messages : List String := ["This is", "a message, it ", "will be send", "in parts."]

theorem ascii_toDigits (n : ℕ) : Ascii (Nat.toDigits 10 n) := by
  intro c hc
  have hdigit : c.isDigit = true := Nat.isDigit_of_mem_toDigits (by decide) (by decide) hc
  simp only [Char.isDigit, Bool.and_eq_true, decide_eq_true_eq] at hdigit
  exact UInt32.le_trans hdigit.2 (by decide)

theorem ascii_messages (j : ℕ) : Ascii (messages.getD j "").toList := by
  by_cases hj : j < messages.length
  · have hall : ∀ msg ∈ messages, Ascii msg.toList := by simp [messages, Ascii]
    rw [List.getD_eq_getElem _ _ hj]
    exact hall _ (List.getElem_mem hj)
  · rw [List.getD_eq_default _ _ (Nat.le_of_not_lt hj)]
    exact fun c hc => absurd hc (by simp)

/-- `'{0} from connection {1}'.format (msg, str (count))`, for `MAX_CONNECT` connections. -/
def selectClient (maxConnect : ℕ) : Script where
  conns := maxConnect
  rounds := messages.length
  data j i := (messages.getD j "").toList ++ (" from connection ".toList ++ Nat.toDigits 10 (j * maxConnect + i + 1))
  ascii j i := (ascii_messages j).append (.append (by simp [Ascii]) (ascii_toDigits _))
  nonempty j i := by simp

/-- The client is at `connect` of connection `i`, at `send` or `recv` of round `j` on it, or `main` has returned. -/
inductive Pc where
  | connect (i : ℕ)
  | send (j i : ℕ)
  | recv (j i : ℕ)
  | returned
  deriving DecidableEq, Repr

namespace Script

variable (c : Script)

/-- `for msg in messages`. -/
def round (j : ℕ) : Pc := if j < c.rounds then .send j 0 else .returned

/-- `for s in socks`: on with the next connection, or with what is behind the loop. -/
def each (i : ℕ) (next done : Pc) : Pc := if i + 1 < c.conns then next else done

def start : Pc := if 0 < c.conns then .connect 0 else .returned

/-- How many connections were made. -/
def connected : Pc → ℕ
  | .connect i => i
  | .send _ _ | .recv _ _ | .returned => c.conns

end Script

/-! ## The two programs -/

/-- The server, the client, and for each connection what the client has sent and received on it. -/
structure Net where
  srv : Flow Server
  pc : Pc
  sent : ℕ → List Char
  got : ℕ → List UInt8

/-- The calls of the client, `recv` with the number of bytes; or a pass of the server, before the client's end. -/
inductive Ev where
  | connect
  | send
  | recv (n : ℕ)
  | pass (e : Ready)
  deriving DecidableEq

/-- What the server has read on connection `i`, the socket `i + 1` of the server. -/
def heard (s : Server) (i : ℕ) : List UInt8 := (chunks s.log (i + 1)).flatten

/-- What the kernel took of its replies there. -/
def replied (s : Server) (i : ℕ) : List UInt8 := acceptedBytes s.log (i + 1)

/-- A connection is there to be accepted, or bytes are there to be read; no call fails. -/
def Readable (sent : ℕ → List Char) (connected : ℕ) (s : Server) (r : Sock × ReadAns) : Prop :=
  r.2.ok = true ∧ r.2.peer = true ∧
    match r.1 with
    | 0 => s.made ≤ connected
    | i + 1 => r.2.data ≠ [] ∧ r.2.data <+: (encode (sent i)).drop (heard s i).length

/-- No call fails, and `send` takes something. -/
def Writable (w : Sock × WriteAns) : Prop := w.2.peer = true ∧ ∃ n, w.2.sent = some n ∧ 0 < n

instance (sent : ℕ → List Char) (connected : ℕ) (s : Server) : (r : Sock × ReadAns) →
    Decidable (Readable sent connected s r)
  | (0, _) => inferInstanceAs (Decidable (_ ∧ _ ∧ _))
  | (_ + 1, _) => inferInstanceAs (Decidable (_ ∧ _ ∧ _ ∧ _))

instance (w : Sock × WriteAns) : Decidable (Writable w) :=
  decidable_of_iff (w.2.peer = true ∧ ∃ n ∈ w.2.sent, 0 < n) (by simp [Writable, Option.mem_def])

/-- What `select` and the calls behind it may return, with something to do. -/
def Answers (sent : ℕ → List Char) (connected : ℕ) (s : Server) (e : Ready) : Prop :=
  Admits s e ∧ (∀ r ∈ e.readable, Readable sent connected s r) ∧ (∀ w ∈ e.writable, Writable w) ∧
    e.exceptional = [] ∧ ¬ (e.readable = [] ∧ e.writable = [])

instance (sent : ℕ → List Char) (connected : ℕ) (s : Server) (e : Ready) : Decidable (Answers sent connected s e) :=
  inferInstanceAs (Decidable (_ ∧ _ ∧ _ ∧ _ ∧ _))

namespace Net

variable (c : Script)

def start : Net := ⟨.next .start, c.start, fun _ => [], fun _ => []⟩

/-- `s.send (data.encode ())`. -/
def send (n : Net) (j i : ℕ) : Net :=
  { n with
    sent := Function.update n.sent i (n.sent i ++ c.data j i)
    pc := c.each i (.send j (i + 1)) (.recv j 0) }

/-- `s.recv (1024)`. -/
def recv (n : Net) (s : Server) (j i k : ℕ) : Net :=
  { n with
    got := Function.update n.got i (n.got i ++ ((replied s i).drop (n.got i).length).take k)
    pc := c.each i (.recv j (i + 1)) (c.round (j + 1)) }

def step (n : Net) : Ev → Option Net
  | .connect =>
    match n.pc with
    | .connect i => some { n with pc := c.each i (.connect (i + 1)) (c.round 0) }
    | _ => none
  | .send =>
    match n.pc with
    | .send j i => some (n.send c j i)
    | _ => none
  | .recv k =>
    match n.pc, n.srv with
    | .recv j i, .next s =>
      if 0 < k ∧ k ≤ 1024 ∧ (n.got i).length + k ≤ (replied s i).length then some (n.recv c s j i k) else none
    | _, _ => none
  | .pass e =>
    match n.srv with
    | .next s =>
      if n.pc ≠ .returned ∧ Answers n.sent (c.connected n.pc) s e then
        some { n with srv := body asciiUpper s e }
      else none
    | _ => none

end Net

/-- A client with this script, and its server. -/
def net (c : Script) : System Net Ev := ⟨.start c, Net.step c⟩

end NetProg.PySelectServer
