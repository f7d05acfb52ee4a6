/-
# NetProg.Echo.BasicUdpPairing -- which line a reply of `basic_udp_server.c` belongs to.

A client has one line outstanding at most, and what arrives for it answers a line that it has sent itself
(`Traced`).  Nothing in a reply says which one: the client takes the next datagram for the answer to its last
line.  As long as no datagram is delivered twice that is right, whatever is lost or late (`Lone`); one that is
shifts all replies behind it.
-/
import NetProg.Base.EventLog
import NetProg.Echo.BasicUdp

namespace NetProg.BasicUdp

open EchoServer (Echo bufSize echoBack)

/-- A datagram was sent and no reply printed for it. -/
def Pc.waits : Pc → ℕ
  | .read | .readFailed | .undef => 1
  | .fgets | .write _ | .returned | .writeFailed => 0

/-- The replies that were printed answer the lines, in order. -/
def Paired (s : Cli) : Prop := s.printed = (s.sent.take s.printed.length).map answer

instance (s : Cli) : Decidable (Paired s) := inferInstanceAs (Decidable (_ = _))

/-- A reply answers a line that was sent no later than the one in its place. -/
def FromOwn (sent : List (List UInt8)) (pre : List (List UInt8)) (r : List UInt8) : Prop :=
  ∃ m ∈ sent.take (pre.length + 1), r = answer m

/-! ## Messages -/

section Messages

variable {m d : List UInt8} {s : Cli}

/-- A message is what `strlen` found in a line of `fgets`. -/
structure Message (m : List UInt8) : Prop where
  no_nul : (0 : UInt8) ∉ m
  length : m.length ≤ bufSize - 1

theorem Message.take (h : Message m) : m.take bufSize = m :=
  List.take_of_length_le (h.length.trans (Nat.sub_le _ _))

theorem Message.short_iff (h : Message m) : Short m ↔ m.length ≤ 243 := by
  rw [Short, untilNul_of_not_mem h.no_nul]

/-- The reply to a short message is printed as it was sent. -/
theorem readMsg_answer (h : Message m) (hshort : Short m) (s : Cli) :
    s.readMsg (answer m) = { s with pc := .fgets, printed := s.printed ++ [answer m] } := by
  have hnul : (0 : UInt8) ∉ answer m := by
    rw [answer, List.mem_append, not_or]
    exact ⟨by decide, h.no_nul⟩
  have hlt : (answer m).length < bufSize := by
    have hle := h.short_iff.mp hshort
    have hpre : echoBack.length = 12 := rfl
    rw [answer, List.length_append, hpre]
    exact Nat.lt_of_le_of_lt (Nat.add_le_add_left hle 12) (by decide)
  have htake : (answer m).take bufSize = answer m := List.take_of_length_le hlt.le
  have hstring : received (answer m) = some (answer m) := by
    rw [received, htake, cString_store_cleared hlt.le, untilNul_of_not_mem hnul, if_pos hlt]
  unfold Cli.readMsg
  rw [hstring]

end Messages

/-! ## Every reply answers a line of its own client -/

/-- What is under way for a client comes from the client. -/
structure Traced (l : Lane) : Prop where
  line : ∀ m, l.cli.pc = .write m → m.length ≤ bufSize - 1
  sent : ∀ m ∈ l.cli.sent, Message m
  up : ∀ d ∈ l.up, d ∈ l.cli.sent
  down : ∀ d ∈ l.down, ∃ m ∈ l.cli.sent, d = answer m ∧ Short m
  count : l.cli.sent.length = l.cli.printed.length + l.cli.pc.waits
  printed : Each (FromOwn l.cli.sent) l.cli.printed

section Step

variable {f : Faults} {l l' : Lane}

theorem Traced.start (text : List UInt8) : Traced (Lane.start text) where
  line := by simp [Lane.start, Cli.start]
  sent := by simp [Lane.start, Cli.start]
  up := by simp [Lane.start]
  down := by simp [Lane.start]
  count := rfl
  printed := Each.nil

/-- One more line. -/
theorem Traced.write (h : Traced l) {sendMsg : List UInt8} (hpc : l.cli.pc = .write sendMsg) :
    Traced { l with cli := l.cli.writeMsg sendMsg, up := l.up ++ [untilNul sendMsg] } where
  line := by simp [Cli.writeMsg]
  sent := by
    intro m hm
    rcases List.mem_append.mp hm with hold | hnew
    · exact h.sent m hold
    · obtain rfl := List.mem_singleton.mp hnew
      exact ⟨not_mem_untilNul _, (length_untilNul_le _).trans (h.line _ hpc)⟩
  up := by
    intro d hd
    exact List.mem_append.mpr ((List.mem_append.mp hd).imp_left (h.up d))
  down := fun d hd =>
    (h.down d hd).imp fun m hm => ⟨List.mem_append_left _ hm.1, hm.2⟩
  count := by
    have hcount := h.count
    rw [hpc] at hcount
    simp only [Cli.writeMsg, Pc.waits, List.length_append, List.length_singleton] at hcount ⊢
    omega
  printed := by
    refine h.printed.mono fun pre r hr => ?_
    obtain ⟨m, hm, rfl⟩ := hr
    exact ⟨m, ((List.prefix_append _ _).take _).subset hm, rfl⟩

/-- One more reply. -/
theorem Traced.read (h : Traced l) (hpc : l.cli.pc = .read) {d : List UInt8} (hd : d ∈ l.down) :
    ∃ m ∈ l.cli.sent, d = answer m ∧
      l.cli.readMsg d = { l.cli with pc := .fgets, printed := l.cli.printed ++ [d] } ∧
      Traced { l with cli := l.cli.readMsg d, down := l.down.erase d } := by
  obtain ⟨m, hm, rfl, hshort⟩ := h.down d hd
  have hread := readMsg_answer (h.sent m hm) hshort l.cli
  refine ⟨m, hm, rfl, hread, ?_⟩
  rw [hread]
  have hcount := h.count
  rw [hpc] at hcount
  refine ⟨by simp, h.sent, h.up, fun d' hd' => h.down d' (List.mem_of_mem_erase hd'), ?_, ?_⟩
  · simp only [Pc.waits, List.length_append, List.length_singleton] at hcount ⊢
    omega
  · -- the reply takes the place of the last line, so all lines are before it
    refine h.printed.snoc ⟨m, ?_, rfl⟩
    rwa [List.take_of_length_le (by simp only [Pc.waits] at hcount; omega)]

theorem Traced.step (h : Traced l) (hstep : l.Step f l') : Traced l' := by
  have herase : ∀ {ds : List (List UInt8)} {d d' : List UInt8}, d' ∈ ds.erase d → d' ∈ ds := List.mem_of_mem_erase
  cases hstep with
  | answered hd hshort =>
    have hmessage := h.sent _ (h.up _ hd)
    rw [hmessage.take] at hshort ⊢
    rw [untilNul_of_not_mem hmessage.no_nul]
    refine { h with up := fun d' hd' => h.up d' (herase hd'), down := fun d' hd' => ?_ }
    rcases List.mem_append.mp hd' with hold | hnew
    · exact h.down d' hold
    · exact ⟨_, h.up _ hd, List.mem_singleton.mp hnew, hshort⟩
  | swallowed hd hlong =>
    exact { h with
      up := fun d' hd' => h.up d' (herase hd')
      down := fun d' hd' => h.down d' (by simpa [Lane.served] using hd') }
  | own hown =>
    rename_i e
    cases e with
    | fgets =>
      simp only [Lane.step] at hown
      split_ifs at hown with hpc
      obtain rfl := Option.some.inj hown
      have hcount := h.count
      rw [hpc] at hcount
      by_cases hinput : l.cli.input = []
      · simp only [Cli.getLine, if_pos hinput]
        exact { h with line := by simp, count := hcount }
      · simp only [Cli.getLine, if_neg hinput]
        refine { h with line := ?_, count := hcount }
        rintro m ⟨⟩
        exact length_fgets_le _ _
    | write =>
      simp only [Lane.step] at hown
      split at hown
      · obtain rfl := Option.some.inj hown
        exact h.write ‹_›
      · cases hown
    | read d =>
      simp only [Lane.step] at hown
      split_ifs at hown with hread
      obtain rfl := Option.some.inj hown
      obtain ⟨-, -, -, -, htraced⟩ := h.read hread.1 hread.2
      exact htraced
    | refuse =>
      have hcount := h.count
      simp only [Lane.step] at hown
      split at hown <;> try cases hown
      all_goals
        split_ifs at hown
        obtain rfl := Option.some.inj hown
        simp only [*] at hcount
        exact { h with line := by simp, count := hcount }
    | loseUp d =>
      simp only [Lane.step] at hown
      split_ifs at hown
      obtain rfl := Option.some.inj hown
      exact { h with up := fun d' hd' => h.up d' (herase hd') }
    | loseDown d =>
      simp only [Lane.step] at hown
      split_ifs at hown
      obtain rfl := Option.some.inj hown
      exact { h with down := fun d' hd' => h.down d' (herase hd') }
    | doubleUp d =>
      simp only [Lane.step] at hown
      split_ifs at hown with hd
      obtain rfl := Option.some.inj hown
      refine { h with up := fun d' hd' => ?_ }
      exact (List.mem_append.mp hd').elim (h.up d') fun hnew => List.mem_singleton.mp hnew ▸ h.up d hd.2
    | doubleDown d =>
      simp only [Lane.step] at hown
      split_ifs at hown with hd
      obtain rfl := Option.some.inj hown
      refine { h with down := fun d' hd' => ?_ }
      exact (List.mem_append.mp hd').elim (h.down d') fun hnew => List.mem_singleton.mp hnew ▸ h.down d hd.2

end Step

/-! ## Without duplicates -/

/-- At most one datagram is under way, for the last line; and the replies before it are paired. -/
structure Lone (l : Lane) : Prop where
  traced : Traced l
  flight : l.up.length + l.down.length ≤ l.cli.pc.waits
  up : ∀ d ∈ l.up, l.cli.sent.getLast? = some d
  down : ∀ d ∈ l.down, ∃ m, l.cli.sent.getLast? = some m ∧ d = answer m
  paired : Paired l.cli

section Step

variable {f : Faults} {l l' : Lane}

theorem Lone.start (text : List UInt8) : Lone (Lane.start text) where
  traced := .start text
  flight := Nat.le_refl _
  up := by simp [Lane.start]
  down := by simp [Lane.start]
  paired := rfl

/-- Datagrams that are only taken away. -/
theorem Lone.taken (h : Lone l) {up down : List (List UInt8)} (htraced : Traced { l with up := up, down := down })
    (hup : up.Sublist l.up) (hdown : down.Sublist l.down) : Lone { l with up := up, down := down } where
  traced := htraced
  flight := (Nat.add_le_add hup.length_le hdown.length_le).trans h.flight
  up := fun d hd => h.up d (hup.subset hd)
  down := fun d hd => h.down d (hdown.subset hd)
  paired := h.paired

/-- The client goes on without waiting for less. -/
theorem Lone.goes (h : Lone l) {s : Cli} (htraced : Traced { l with cli := s }) (hsent : s.sent = l.cli.sent)
    (hprinted : s.printed = l.cli.printed) (hwaits : l.cli.pc.waits ≤ s.pc.waits) :
    Lone { l with cli := s } where
  traced := htraced
  flight := h.flight.trans hwaits
  up := hsent ▸ h.up
  down := hsent ▸ h.down
  paired := by
    show s.printed = _
    rw [hprinted, hsent]
    exact h.paired

theorem Lone.write (h : Lone l) {sendMsg : List UInt8} (hpc : l.cli.pc = .write sendMsg) :
    Lone { l with cli := l.cli.writeMsg sendMsg, up := l.up ++ [untilNul sendMsg] } := by
  have hflight := h.flight
  have hcount := h.traced.count
  rw [hpc] at hflight hcount
  simp only [Pc.waits, Nat.le_zero, Nat.add_eq_zero_iff, List.length_eq_zero_iff] at hflight hcount
  obtain ⟨hup, hdown⟩ := hflight
  refine ⟨h.traced.write hpc, ?_, ?_, ?_, ?_⟩
  · simp [hup, hdown, Cli.writeMsg, Pc.waits]
  · simp [hup, Cli.writeMsg]
  · simp [hdown]
  · show l.cli.printed = List.map answer ((l.cli.sent ++ [untilNul sendMsg]).take l.cli.printed.length)
    rw [List.take_append_of_le_length (by omega)]
    exact h.paired

theorem Lone.read (h : Lone l) (hpc : l.cli.pc = .read) {d : List UInt8} (hd : d ∈ l.down) :
    Lone { l with cli := l.cli.readMsg d, down := l.down.erase d } := by
  obtain ⟨-, -, -, hread, htraced⟩ := h.traced.read hpc hd
  obtain ⟨m, hlast, rfl⟩ := h.down d hd
  have hflight := h.flight
  have hcount := h.traced.count
  have hpos := List.length_pos_of_mem hd
  rw [hpc] at hflight hcount
  simp only [Pc.waits] at hflight hcount
  have hup : l.up = [] := List.length_eq_zero_iff.mp (by omega)
  have hdown : l.down.erase (answer m) = [] := by
    rw [← List.length_eq_zero_iff, List.length_erase_of_mem hd]
    omega
  rw [hread] at htraced ⊢
  refine ⟨htraced, ?_, ?_, ?_, ?_⟩
  · simp [hup, hdown]
  · simp [hup]
  · simp [hdown]
  · -- the last line is the one that is answered
    obtain ⟨before, hsent⟩ := List.getLast?_eq_some_iff.mp hlast
    have hlength : l.cli.printed.length = before.length := by
      rw [hsent, List.length_append, List.length_singleton] at hcount
      omega
    have hpaired : l.cli.printed = List.map answer (l.cli.sent.take l.cli.printed.length) := h.paired
    rw [hlength, hsent, List.take_left] at hpaired
    show l.cli.printed ++ [answer m] = List.map answer (l.cli.sent.take (l.cli.printed ++ [answer m]).length)
    rw [List.take_of_length_le (by simp [hsent, hlength]), hsent, List.map_append, ← hpaired]
    rfl

theorem Lone.step (hsingle : f.doubles = false) (h : Lone l) (hstep : l.Step f l') : Lone l' := by
  have htraced := h.traced.step hstep
  cases hstep with
  | @answered d hd hshort =>
    have hmessage := h.traced.sent _ (h.traced.up _ hd)
    have hflight := h.flight
    have hpos := List.length_pos_of_mem hd
    have hwaits : l.cli.pc.waits ≤ 1 := by cases l.cli.pc <;> simp [Pc.waits]
    have hup : (l.up.erase d) = [] := by
      rw [← List.length_eq_zero_iff, List.length_erase_of_mem hd]
      omega
    have hdown : l.down = [] := List.length_eq_zero_iff.mp (by omega)
    rw [hmessage.take, untilNul_of_not_mem hmessage.no_nul] at htraced ⊢
    refine ⟨htraced, ?_, ?_, ?_, h.paired⟩
    · simp only [Lane.served, hup, hdown, List.length_nil, List.nil_append, List.length_singleton]
      omega
    · simp [Lane.served, hup]
    · intro d' hd'
      simp only [Lane.served, hdown, List.nil_append, List.mem_singleton] at hd'
      exact ⟨d, h.up d hd, hd'⟩
  | @swallowed d hd hlong =>
    exact h.taken htraced List.erase_sublist (by simp)
  | own hown =>
    rename_i e
    cases e with
    | fgets =>
      simp only [Lane.step] at hown
      split_ifs at hown with hpc
      obtain rfl := Option.some.inj hown
      refine h.goes htraced ?_ ?_ ?_
      · unfold Cli.getLine
        split <;> rfl
      · unfold Cli.getLine
        split <;> rfl
      · rw [hpc]
        exact Nat.zero_le _
    | write =>
      simp only [Lane.step] at hown
      split at hown
      · obtain rfl := Option.some.inj hown
        exact h.write ‹_›
      · cases hown
    | read d =>
      simp only [Lane.step] at hown
      split_ifs at hown with hread
      obtain rfl := Option.some.inj hown
      exact h.read hread.1 hread.2
    | refuse =>
      simp only [Lane.step] at hown
      split at hown <;> try cases hown
      all_goals
        split_ifs at hown
        obtain rfl := Option.some.inj hown
        refine h.goes htraced rfl rfl ?_
        simp [Pc.waits, *]
    | loseUp d =>
      simp only [Lane.step] at hown
      split_ifs at hown
      obtain rfl := Option.some.inj hown
      exact h.taken htraced List.erase_sublist (List.Sublist.refl _)
    | loseDown d =>
      simp only [Lane.step] at hown
      split_ifs at hown
      obtain rfl := Option.some.inj hown
      exact h.taken htraced (List.Sublist.refl _) List.erase_sublist
    | doubleUp d | doubleDown d => simp [Lane.step, hsingle] at hown

end Step

/-! ## Runs of one client -/

/-- There is a run that has brought the lane of `c` to `l`, with the server still at work. -/
def Solo {α : Type*} [DecidableEq α] (f : Faults) (text : α → List UInt8) (c : α) (l : Lane) : Prop :=
  ∃ n s, (udp f text).Reachable n ∧ n.lane c = l ∧ n.srv = .next s

section Solo

variable {α : Type*} [DecidableEq α] {f : Faults} {text : α → List UInt8} {c : α} {l l' : Lane}
  {input : List UInt8} {sent printed up down : List (List UInt8)} {m : List UInt8}

theorem Solo.start (f : Faults) (text : α → List UInt8) (c : α) : Solo f text c (.start (text c)) :=
  ⟨_, _, .init, rfl, rfl⟩

/-- A step of the lane. -/
theorem Solo.own (h : Solo f text c l) {e : LaneEv} (hstep : l.step f e = some l') : Solo f text c l' := by
  obtain ⟨n, s, hn, rfl, hsrv⟩ := h
  refine ⟨{ n with lane := Function.update n.lane c l' }, s, .step (.lane c e) hn ?_, by simp, hsrv⟩
  simp [udp, Net.step, hstep]

/-- The server answers. -/
theorem Solo.serve (h : Solo f text c l) (hm : m ∈ l.up) (hmessage : Message m) (hshort : Short m) :
    Solo f text c (l.served m [answer m]) := by
  obtain ⟨n, s, hn, rfl, hsrv⟩ := h
  have hbs : (m.take bufSize).length ≤ bufSize := List.length_take_le _ _
  obtain ⟨s', hround, hsent⟩ := dgEcho_short (s := s) .sent hbs (by rwa [hmessage.take])
  refine ⟨{ lane := Function.update n.lane c ((n.lane c).served m [answer m]), srv := .next s' }, s',
    .step (.serve c m) hn ?_, by simp, rfl⟩
  rw [hmessage.take, untilNul_of_not_mem hmessage.no_nul] at hsent
  simp only [udp, Net.step, hsrv, if_pos hm, hround, Flow.state, hsent, List.drop_left]

/-- The next line is read and written. -/
theorem Solo.send (h : Solo f text c ⟨⟨input, .fgets, sent, printed⟩, up, down⟩) (hinput : input ≠ []) :
    Solo f text c ⟨⟨(fgets (bufSize - 1) input).2, .read, sent ++ [untilNul (fgets (bufSize - 1) input).1], printed⟩,
      up ++ [untilNul (fgets (bufSize - 1) input).1], down⟩ := by
  have hfgets : Lane.step f ⟨⟨input, .fgets, sent, printed⟩, up, down⟩ .fgets =
      some ⟨⟨(fgets (bufSize - 1) input).2, .write (fgets (bufSize - 1) input).1, sent, printed⟩, up, down⟩ := by
    simp only [Lane.step, if_true, Cli.getLine, if_neg hinput]
  exact (h.own hfgets).own (e := .write) rfl

/-- A reply is read and printed. -/
theorem Solo.receive (h : Solo f text c ⟨⟨input, .read, sent, printed⟩, up, answer m :: down⟩)
    (hmessage : Message m) (hshort : Short m) :
    Solo f text c ⟨⟨input, .fgets, sent, printed ++ [answer m]⟩, up, down⟩ := by
  have hread : Lane.step f ⟨⟨input, .read, sent, printed⟩, up, answer m :: down⟩ (.read (answer m)) =
      some ⟨⟨input, .fgets, sent, printed ++ [answer m]⟩, up, down⟩ := by
    simp only [Lane.step, List.mem_cons_self, and_self, if_true, readMsg_answer hmessage hshort,
      List.erase_cons_head]
  exact h.own hread

end Solo

/-! ## The main result -/

/-- Two lines, the first reply delivered twice. -/
theorem exists_unpaired {α : Type*} [DecidableEq α] {f : Faults} (hdoubles : f.doubles = true) (c : α) :
    ∃ n, (udp f fun _ : α => [97, 10, 98, 10]).Reachable n ∧ ¬ Paired (n.lane c).cli := by
  have hfirst : Message [97, 10] := ⟨by decide, by decide⟩
  have hshort : Short [97, 10] := by decide
  have hstart := Solo.start f (fun _ : α => [97, 10, 98, 10]) c
  have hsent := (hstart.send (by simp)).serve (m := [97, 10]) (by decide) hfirst hshort
  have hdoubled := hsent.own (e := .doubleDown (answer [97, 10])) (if_pos ⟨hdoubles, by decide⟩)
  have hagain := (hdoubled.receive hfirst hshort).send (by decide)
  obtain ⟨n, s, hn, hlane, -⟩ := hagain.receive hfirst hshort
  refine ⟨n, hn, ?_⟩
  rw [hlane]
  decide

/-- **Replies and lines.**  Whatever the network does, every reply that a client prints answers a line that this
client sent, no later than the line in its place.  It answers that very line, for every client in every run, if
and only if no datagram is delivered twice. -/
theorem replies_paired_iff {α : Type*} [DecidableEq α] (f : Faults) (c₀ : α) :
    (∀ (text : α → List UInt8) n, (udp f text).Reachable n →
      ∀ c, Each (FromOwn (n.lane c).cli.sent) (n.lane c).cli.printed) ∧
    ((∀ (text : α → List UInt8) n, (udp f text).Reachable n → ∀ c, Paired (n.lane c).cli) ↔ f.doubles = false) := by
  refine ⟨fun text n hn c => ?_, ?_⟩
  · exact (lane_invariant (P := fun _ l => Traced l) (fun c => .start (text c))
      (fun _ _ _ h hstep => h.step hstep) hn c).printed
  · constructor
    · intro hpaired
      by_contra hdoubles
      obtain ⟨n, hn, hunpaired⟩ := exists_unpaired (by simpa using hdoubles) c₀
      exact hunpaired (hpaired _ n hn c₀)
    · intro hsingle text n hn c
      exact (lane_invariant (P := fun _ l => Lone l) (fun c => .start (text c))
        (fun _ _ _ h hstep => h.step hsingle hstep) hn c).paired

end NetProg.BasicUdp
