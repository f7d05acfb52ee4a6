/-
# NetProg.Echo.BasicUdp -- `C/basic_udp_client.c` against `C/basic_udp_server.c`.

Any number of clients run `dg_cli` (as it is compiled, with `CONNECT`) against one `dg_echo`, which is the one of
`NetProg.Server.EchoServers`.  What is on its way between a client and the server is a bag of datagrams in each
direction (`Lane`): any of them may be the next to arrive.  `Faults` says what else the network does: it may lose
a datagram, it may deliver one twice, and the calls on a socket may be refused.

A connected socket receives from its server only, so a client and its datagrams are by themselves; what the
clients share is the server, with its buffers.  When `sprintf` has overrun those the server is gone (`undef`).
-/
import Mathlib.Data.List.Basic
import Mathlib.Logic.Function.Basic
import NetProg.Base.Stdio
import NetProg.Server.EchoServers

namespace NetProg.BasicUdp

open EchoServer (Echo Answers bufSize echoBack)

/-- What the network may do besides delivering in any order. -/
structure Faults where
  loses : Bool
  doubles : Bool
  refuses : Bool
  deriving DecidableEq, Repr

/-- The next statement of `dg_cli`, or how it ended. -/
inductive Pc where
  | fgets
  | write (sendMsg : List UInt8)
  | read
  | returned
  | writeFailed
  | readFailed
  | undef
  deriving DecidableEq, Repr

/-- What is left of the input, where `dg_cli` stands, the datagrams it wrote, and the replies it printed. -/
structure Cli where
  input : List UInt8
  pc : Pc
  sent : List (List UInt8)
  printed : List (List UInt8)
  deriving DecidableEq, Repr

/-- What `read (sockfd, recv_msg, sizeof(recv_msg))` leaves in the cleared `recv_msg`, as a string. -/
def received (d : List UInt8) : Option (List UInt8) := cString (store (cleared bufSize) 0 (d.take bufSize)).toList

namespace Cli

def start (text : List UInt8) : Cli := ⟨text, .fgets, [], []⟩

/-- `fgets (send_msg, sizeof(send_msg), fp)`; it returns NULL at the end of the input. -/
def getLine (s : Cli) : Cli :=
  if s.input = [] then { s with pc := .returned }
  else { s with pc := .write (fgets (bufSize - 1) s.input).1, input := (fgets (bufSize - 1) s.input).2 }

/-- `write (sockfd, send_msg, strlen (send_msg))`. -/
def writeMsg (s : Cli) (sendMsg : List UInt8) : Cli :=
  { s with pc := .read, sent := s.sent ++ [untilNul sendMsg] }

/-- `read`, and `printf ("... %s ...", recv_msg)`. -/
def readMsg (s : Cli) (d : List UInt8) : Cli :=
  match received d with
  | some t => { s with pc := .fgets, printed := s.printed ++ [t] }
  | none => { s with pc := .undef }

end Cli

/-- A client, and the datagrams on their way from and to it. -/
structure Lane where
  cli : Cli
  up : List (List UInt8)
  down : List (List UInt8)
  deriving DecidableEq, Repr

/-- A call of the client, or what the network does to one of its datagrams. -/
inductive LaneEv where
  | fgets
  | write
  | read (d : List UInt8)
  | refuse
  | loseUp (d : List UInt8)
  | loseDown (d : List UInt8)
  | doubleUp (d : List UInt8)
  | doubleDown (d : List UInt8)
  deriving DecidableEq, Repr

namespace Lane

def start (text : List UInt8) : Lane := ⟨.start text, [], []⟩

def step (f : Faults) (l : Lane) : LaneEv → Option Lane
  | .fgets => if l.cli.pc = .fgets then some { l with cli := l.cli.getLine } else none
  | .write =>
    match l.cli.pc with
    | .write sendMsg => some { l with cli := l.cli.writeMsg sendMsg, up := l.up ++ [untilNul sendMsg] }
    | _ => none
  | .read d =>
    if l.cli.pc = .read ∧ d ∈ l.down then some { l with cli := l.cli.readMsg d, down := l.down.erase d } else none
  | .refuse =>
    match l.cli.pc with
    | .write _ => if f.refuses then some { l with cli := { l.cli with pc := .writeFailed } } else none
    | .read => if f.refuses then some { l with cli := { l.cli with pc := .readFailed } } else none
    | _ => none
  | .loseUp d => if f.loses ∧ d ∈ l.up then some { l with up := l.up.erase d } else none
  | .loseDown d => if f.loses ∧ d ∈ l.down then some { l with down := l.down.erase d } else none
  | .doubleUp d => if f.doubles ∧ d ∈ l.up then some { l with up := l.up ++ [d] } else none
  | .doubleDown d => if f.doubles ∧ d ∈ l.down then some { l with down := l.down ++ [d] } else none

/-- The server has received `d`, and has sent `replies`. -/
def served (l : Lane) (d : List UInt8) (replies : List (List UInt8)) : Lane :=
  { l with up := l.up.erase d, down := l.down ++ replies }

end Lane

/-- The clients, by their addresses, and the server. -/
structure Net (α : Type*) where
  lane : α → Lane
  srv : Flow Echo

/-- A step of one lane, the server's round for the datagram `d` of the client `c`, or its `recvfrom` fails. -/
inductive Ev (α : Type*) where
  | lane (c : α) (e : LaneEv)
  | serve (c : α) (d : List UInt8)
  | srvRefuse

namespace Net

variable {α : Type*} [DecidableEq α]

def step (f : Faults) (n : Net α) : Ev α → Option (Net α)
  | .lane c e => ((n.lane c).step f e).map fun l => { n with lane := Function.update n.lane c l }
  | .serve c d =>
    match n.srv with
    | .next s =>
      if d ∈ (n.lane c).up then
        let g := EchoServer.BasicUdp.dgEcho s ⟨.data (d.take bufSize), .sent⟩
        some {
          lane := Function.update n.lane c ((n.lane c).served d (g.state.sent.drop s.sent.length))
          srv := g }
      else none
    | _ => none
  | .srvRefuse =>
    match n.srv with
    | .next s =>
      if f.refuses then some { n with srv := EchoServer.BasicUdp.dgEcho s ⟨.error false, .sent⟩ } else none
    | _ => none

end Net

/-- The clients with their inputs, and the server at the start of its loop. -/
def udp {α : Type*} [DecidableEq α] (f : Faults) (text : α → List UInt8) : System (Net α) (Ev α) :=
  ⟨⟨fun c => .start (text c), .next Echo.start⟩, Net.step f⟩

/-! ## A round of the server -/

/-- What the server sends for `m`. -/
def answer (m : List UInt8) : List UInt8 := echoBack ++ m

/-- The bytes before the first NUL leave room for `ECHO BACK : `. -/
def Short (d : List UInt8) : Prop := (untilNul d).length ≤ 243

instance (d : List UInt8) : Decidable (Short d) := inferInstanceAs (Decidable (_ ≤ _))

section Round

variable {s : Echo} {bs : List UInt8} (snd : EchoServer.SendAnswer)

/-- A short datagram is answered. -/
theorem dgEcho_short (hbs : bs.length ≤ bufSize) (hshort : Short bs) :
    ∃ s', EchoServer.BasicUdp.dgEcho s ⟨.data bs, snd⟩ = .next s' ∧ s'.sent = s.sent ++ [answer (untilNul bs)] := by
  have hformats : EchoServer.Formats echoBack bs := (EchoServer.formats_iff (by decide) hbs).mpr hshort
  obtain ⟨t, s', ht, hround, -, hsent⟩ := EchoServer.format_of_formats (s := s) (by decide) hformats
  have hstring : cString (s.clear.receive bs).recvMsg.toList = some (untilNul bs) := by
    have hlt : (untilNul bs).length < bufSize := Nat.lt_of_le_of_lt hshort (by decide)
    exact (cString_store_cleared hbs).trans (if_pos hlt)
  obtain rfl := Option.some.inj (ht.symm.trans hstring)
  refine ⟨s', ?_, hsent⟩
  simp only [EchoServer.BasicUdp.dgEcho, EchoServer.Echo.print_next ht, Flow.andThen_next, hround]

/-- Any other datagram ends it, and is not answered. -/
theorem dgEcho_long (hbs : bs.length ≤ bufSize) (hlong : ¬ Short bs) :
    (EchoServer.BasicUdp.dgEcho s ⟨.data bs, snd⟩).isUndef = true ∧
      (EchoServer.BasicUdp.dgEcho s ⟨.data bs, snd⟩).state.sent = s.sent := by
  have hnot : ¬ EchoServer.Formats echoBack bs := fun h => hlong ((EchoServer.formats_iff (by decide) hbs).mp h)
  have hround := EchoServer.format_of_not_formats (s := s) hnot
  have hsent : (s.clear.receive bs).sent = s.sent := by simp only [EchoServer.Echo.receive, EchoServer.Echo.clear]
  simp only [EchoServer.BasicUdp.dgEcho]
  cases ht : cString (s.clear.receive bs).recvMsg.toList with
  | some t =>
    rw [EchoServer.Echo.print_next ht, Flow.andThen_next, hround]
    exact ⟨rfl, hsent⟩
  | none =>
    rw [EchoServer.Echo.print_undef ht, Flow.andThen_undef, Flow.andThen_undef]
    exact ⟨rfl, hsent⟩

end Round

/-! ## The lanes -/

/-- What happens to a lane: a step of its own, or the server takes a datagram and answers it or not. -/
inductive Lane.Step (f : Faults) (l : Lane) : Lane → Prop where
  | own {e l'} (h : l.step f e = some l') : Step f l l'
  | answered {d} (hd : d ∈ l.up) (hshort : Short (d.take bufSize)) :
      Step f l (l.served d [answer (untilNul (d.take bufSize))])
  | swallowed {d} (hd : d ∈ l.up) (hlong : ¬ Short (d.take bufSize)) : Step f l (l.served d [])

/-- What one step of the net can do: a step of one lane, a round of the server for one lane, or `recvfrom`
fails. -/
inductive Net.Step {α : Type*} [DecidableEq α] (f : Faults) (n : Net α) : Net α → Prop where
  | own {c e l} (h : (n.lane c).step f e = some l) : Step f n { n with lane := Function.update n.lane c l }
  | answered {c d s s'} (hsrv : n.srv = .next s) (hd : d ∈ (n.lane c).up) (hshort : Short (d.take bufSize)) :
      Step f n ⟨Function.update n.lane c ((n.lane c).served d [answer (untilNul (d.take bufSize))]), .next s'⟩
  | swallowed {c d s g} (hsrv : n.srv = .next s) (hd : d ∈ (n.lane c).up) (hlong : ¬ Short (d.take bufSize))
      (hg : g.isUndef = true) : Step f n ⟨Function.update n.lane c ((n.lane c).served d []), g⟩
  | refused {s g} (hsrv : n.srv = .next s) (hrefuses : f.refuses = true) :
      Step f n { n with srv := .exit "recvfrom" g }

section Lanes

variable {α : Type*} [DecidableEq α] {f : Faults} {n n' : Net α} {e : Ev α}

theorem net_step (hstep : n.step f e = some n') : n.Step f n' := by
  cases e with
  | lane c e =>
    obtain ⟨l, hl, rfl⟩ := Option.map_eq_some_iff.mp hstep
    exact .own hl
  | serve c d =>
    simp only [Net.step] at hstep
    split at hstep
    · rename_i s hsrv
      split_ifs at hstep with hd
      obtain rfl := Option.some.inj hstep
      have hbs : (d.take bufSize).length ≤ bufSize := List.length_take_le _ _
      by_cases hshort : Short (d.take bufSize)
      · obtain ⟨s', hround, hsent⟩ := dgEcho_short (s := s) .sent hbs hshort
        rw [hround, Flow.state, hsent, List.drop_left]
        exact .answered hsrv hd hshort
      · obtain ⟨hundef, hsent⟩ := dgEcho_long (s := s) .sent hbs hshort
        rw [hsent, List.drop_length]
        exact .swallowed hsrv hd hshort hundef
    · cases hstep
  | srvRefuse =>
    simp only [Net.step] at hstep
    split at hstep
    · split_ifs at hstep with hrefuses
      obtain rfl := Option.some.inj hstep
      exact .refused ‹_› hrefuses
    · cases hstep

/-- **The lanes are by themselves.** -/
theorem lane_step (hstep : n.Step f n') (c : α) : n'.lane c = n.lane c ∨ (n.lane c).Step f (n'.lane c) := by
  cases hstep with
  | @own c' _ _ h =>
    by_cases hc : c = c'
    · subst hc
      exact .inr (by simpa using .own h)
    · exact .inl (Function.update_of_ne hc _ _)
  | @answered c' _ _ _ _ hd hshort =>
    by_cases hc : c = c'
    · subst hc
      exact .inr (by simpa using .answered hd hshort)
    · exact .inl (Function.update_of_ne hc _ _)
  | @swallowed c' _ _ _ _ hd hlong _ =>
    by_cases hc : c = c'
    · subst hc
      exact .inr (by simpa using .swallowed hd hlong)
    · exact .inl (Function.update_of_ne hc _ _)
  | refused => exact .inl rfl

/-- What every step of a lane keeps holds of every lane. -/
theorem lane_invariant {P : α → Lane → Prop} {text : α → List UInt8} (hstart : ∀ c, P c (.start (text c)))
    (hstep : ∀ c l l', P c l → l.Step f l' → P c l') (hn : (udp f text).Reachable n) (c : α) : P c (n.lane c) := by
  refine (udp f text).invariant (P := fun n => ∀ c, P c (n.lane c)) hstart ?_ hn c
  intro n e n' _ hP hnet c
  rcases lane_step (net_step hnet) c with hsame | hmoved
  · rw [hsame]
    exact hP c
  · exact hstep c _ _ (hP c) hmoved

end Lanes

end NetProg.BasicUdp
