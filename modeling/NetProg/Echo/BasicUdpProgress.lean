/-
# NetProg.Echo.BasicUdpProgress -- when the clients of `basic_udp_server.c` come to an end.

Neither program has a timeout, so a client that waits for a datagram that is gone waits for ever (`Doomed`).
What takes a datagram away is the network, or the server: a line with more than 243 bytes overruns its buffer,
and it was the server of all the others too.  If the network delivers every datagram once and every line is short,
all clients come to an end, and each has printed the echoes of its lines.
-/
import Mathlib.Algebra.Order.BigOperators.Group.Finset
import NetProg.Base.Progress
import NetProg.Echo.BasicUdpPairing

namespace NetProg.BasicUdp

open EchoServer (Echo bufSize echoBack)

/-- The clients have returned, and each has printed the echoes of its lines. -/
def Finished {α : Type*} (text : α → List UInt8) (n : Net α) : Prop :=
  ∀ c, (n.lane c).cli.pc = .returned ∧
    (n.lane c).cli.printed = (pieces (bufSize - 1) (text c)).map fun p => answer (untilNul p)

/-! ## How much is left to do -/

/-- A client at `fgets` or `read` has one more call for what is before it; a line has all of them before it. -/
def Pc.left : Pc → ℕ
  | .fgets | .read => 1
  | .write _ => 4
  | .returned | .writeFailed | .readFailed | .undef => 0

def Lane.left (l : Lane) : ℕ := 4 * l.cli.input.length + l.cli.pc.left + 2 * l.up.length + l.down.length

/-- The server can receive. -/
def alive : Flow Echo → ℕ
  | .next _ => 1
  | _ => 0

section Left

variable {f : Faults} {l l' : Lane}

/-- No datagram is there to be delivered twice. -/
def Once (f : Faults) (l : Lane) : Prop := f.doubles = false ∨ l.up = [] ∧ l.down = []

theorem left_own (honce : Once f l) {e : LaneEv} (h : l.step f e = some l') : l'.left < l.left := by
  cases e with
  | fgets =>
    simp only [Lane.step] at h
    split_ifs at h with hpc
    obtain rfl := Option.some.inj h
    by_cases hinput : l.cli.input = []
    · simp [Lane.left, Cli.getLine, hinput, hpc, Pc.left]
    · have := length_fgets_snd_lt (n := bufSize - 1) (by decide) hinput
      simp only [Lane.left, Cli.getLine, if_neg hinput, hpc, Pc.left]
      omega
  | write =>
    simp only [Lane.step] at h
    split at h
    · rename_i sendMsg hpc
      obtain rfl := Option.some.inj h
      simp only [Lane.left, Cli.writeMsg, hpc, Pc.left, List.length_append, List.length_singleton]
      omega
    · cases h
  | read d =>
    simp only [Lane.step] at h
    split_ifs at h with hread
    obtain rfl := Option.some.inj h
    have hpos := List.length_pos_of_mem hread.2
    have hpc : (l.cli.readMsg d).pc.left ≤ 1 ∧ (l.cli.readMsg d).input = l.cli.input := by
      unfold Cli.readMsg
      split
      · exact ⟨Nat.le_refl 1, rfl⟩
      · exact ⟨Nat.zero_le 1, rfl⟩
    have hone : l.cli.pc.left = 1 := by rw [hread.1]; rfl
    simp only [Lane.left, hone, hpc.2, List.length_erase_of_mem hread.2]
    omega
  | refuse =>
    simp only [Lane.step] at h
    split at h <;> try cases h
    all_goals
      split_ifs at h
      obtain rfl := Option.some.inj h
      simp [Lane.left, Pc.left, *]
  | loseUp d =>
    simp only [Lane.step] at h
    split_ifs at h with hlose
    obtain rfl := Option.some.inj h
    have hpos := List.length_pos_of_mem hlose.2
    simp only [Lane.left, List.length_erase_of_mem hlose.2]
    omega
  | loseDown d =>
    simp only [Lane.step] at h
    split_ifs at h with hlose
    obtain rfl := Option.some.inj h
    have hpos := List.length_pos_of_mem hlose.2
    simp only [Lane.left, List.length_erase_of_mem hlose.2]
    omega
  | doubleUp d | doubleDown d =>
    rcases honce with hsingle | ⟨hup, hdown⟩
    · simp [Lane.step, hsingle] at h
    · simp [Lane.step, hup, hdown] at h

theorem left_served {d : List UInt8} (hd : d ∈ l.up) {replies : List (List UInt8)} (hle : replies.length ≤ 1) :
    (l.served d replies).left < l.left := by
  have hpos := List.length_pos_of_mem hd
  simp only [Lane.left, Lane.served, List.length_erase_of_mem hd, List.length_append]
  omega

theorem left_step (honce : Once f l) (h : l.Step f l') : l'.left < l.left := by
  cases h with
  | own h => exact left_own honce h
  | answered hd _ => exact left_served hd (by simp)
  | swallowed hd _ => exact left_served hd (by simp)

end Left

section Net

variable {α : Type*} [DecidableEq α] [Fintype α] {f : Faults} {text : α → List UInt8} {n n' : Net α}

def Net.left (n : Net α) : ℕ := ∑ c, (n.lane c).left + alive n.srv

theorem left_net (honce : ∀ c, Once f (n.lane c)) (h : n.Step f n') : n'.left < n.left := by
  have hle : ∀ c, (n'.lane c).left ≤ (n.lane c).left := by
    intro c
    rcases lane_step h c with hsame | hmoved
    · rw [hsame]
    · exact (left_step (honce c) hmoved).le
  -- one lane has less left, and the server is not alive again
  have hlane : ∀ c, (n'.lane c).left < (n.lane c).left → alive n'.srv ≤ alive n.srv → n'.left < n.left := by
    intro c hlt halive
    have := Finset.sum_lt_sum (fun c _ => hle c) ⟨c, Finset.mem_univ c, hlt⟩
    exact Nat.add_lt_add_of_lt_of_le this halive
  cases h with
  | @own c _ _ h =>
    refine hlane c ?_ (Nat.le_refl _)
    simpa using left_own (honce c) h
  | @answered c _ _ _ hsrv hd _ =>
    refine hlane c ?_ (by rw [hsrv]; exact Nat.le_refl _)
    simpa using left_served hd (by simp)
  | @swallowed c _ _ g hsrv hd _ _ =>
    refine hlane c ?_ ?_
    · simpa using left_served hd (by simp)
    · rw [hsrv]
      cases g <;> simp [alive]
  | refused hsrv _ =>
    refine Nat.add_lt_add_left ?_ _
    rw [hsrv]
    exact Nat.zero_lt_one

end Net

/-! ## Nothing is lost -/

/-- The line that is about to be written. -/
def Pc.line : Pc → List (List UInt8)
  | .write sendMsg => [sendMsg]
  | .fgets | .read | .returned | .writeFailed | .readFailed | .undef => []

/-- Every line is short. -/
def AllShort (text : List UInt8) : Prop := ∀ p ∈ pieces (bufSize - 1) text, Short p

/-- A network without faults: the client is at a call, a datagram is on its way while it waits, and the lines are
those of the text. -/
structure Served (text : List UInt8) (l : Lane) : Prop where
  lone : Lone l
  flight : l.cli.pc = .read → l.up ≠ [] ∨ l.down ≠ []
  pc : l.cli.pc ≠ .writeFailed ∧ l.cli.pc ≠ .readFailed ∧ l.cli.pc ≠ .undef
  lines : l.cli.sent ++ (l.cli.pc.line ++ pieces (bufSize - 1) l.cli.input).map untilNul =
    (pieces (bufSize - 1) text).map untilNul
  ended : l.cli.pc = .returned → l.cli.input = []

theorem short_untilNul (p : List UInt8) : Short (untilNul p) ↔ Short p := by
  rw [Short, Short, untilNul_of_not_mem (not_mem_untilNul p)]

namespace Served

variable {text : List UInt8} {l l' : Lane}

theorem start (text : List UInt8) : Served text (.start text) where
  lone := .start text
  flight := by simp [Lane.start, Cli.start]
  pc := by simp [Lane.start, Cli.start]
  lines := rfl
  ended := by simp [Lane.start, Cli.start]

/-- What was sent is short if the lines are. -/
theorem short (h : Served text l) (hshort : AllShort text) {d : List UInt8} (hd : d ∈ l.up) :
    Short (d.take bufSize) := by
  have hsent := h.lone.traced.up d hd
  have hmem : d ∈ (pieces (bufSize - 1) text).map untilNul := by
    rw [← h.lines]
    exact List.mem_append_left _ hsent
  obtain ⟨p, hp, rfl⟩ := List.mem_map.mp hmem
  rw [(h.lone.traced.sent _ hsent).take, short_untilNul]
  exact hshort p hp

theorem step (h : Served text l) (hshort : AllShort text) (hstep : l.Step ⟨false, false, false⟩ l') :
    Served text l' := by
  have hlone := h.lone.step rfl hstep
  cases hstep with
  | @answered d hd _ => exact ⟨hlone, fun _ => .inr (by simp [Lane.served]), h.pc, h.lines, h.ended⟩
  | @swallowed d hd hlong => exact absurd (h.short hshort hd) hlong
  | own hown =>
    rename_i e
    have hlines := h.lines
    cases e with
    | fgets =>
      simp only [Lane.step] at hown
      split_ifs at hown with hpc
      obtain rfl := Option.some.inj hown
      rw [hpc] at hlines
      by_cases hinput : l.cli.input = []
      · simp only [Cli.getLine, if_pos hinput] at hlone ⊢
        exact ⟨hlone, by simp, by simp, hlines, fun _ => hinput⟩
      · simp only [Cli.getLine, if_neg hinput] at hlone ⊢
        refine ⟨hlone, by simp, by simp, ?_, by simp⟩
        rwa [pieces_of_ne_nil (by decide) hinput] at hlines
    | write =>
      simp only [Lane.step] at hown
      split at hown
      · rename_i sendMsg hpc
        obtain rfl := Option.some.inj hown
        rw [hpc] at hlines
        refine ⟨hlone, fun _ => .inl (by simp), by simp [Cli.writeMsg], ?_, by simp [Cli.writeMsg]⟩
        simpa [Cli.writeMsg, Pc.line] using hlines
      · cases hown
    | read d =>
      simp only [Lane.step] at hown
      split_ifs at hown with hread
      obtain rfl := Option.some.inj hown
      obtain ⟨-, -, -, hprinted, -⟩ := h.lone.traced.read hread.1 hread.2
      rw [hprinted] at hlone ⊢
      rw [hread.1] at hlines
      exact ⟨hlone, by simp, by simp, hlines, by simp⟩
    | refuse =>
      simp only [Lane.step] at hown
      split at hown <;> simp at hown
    | loseUp d | loseDown d | doubleUp d | doubleDown d => simp [Lane.step] at hown

/-- A client that has returned has printed all the echoes. -/
theorem printed (h : Served text l) (hpc : l.cli.pc = .returned) :
    l.cli.printed = (pieces (bufSize - 1) text).map fun p => answer (untilNul p) := by
  have hlines := h.lines
  have hcount := h.lone.traced.count
  have hpaired : l.cli.printed = _ := h.lone.paired
  rw [hpc] at hlines hcount
  rw [h.ended hpc, pieces_nil, Pc.line, List.append_nil, List.map_nil, List.append_nil] at hlines
  rw [List.take_of_length_le (by simp only [Pc.waits] at hcount; omega), hlines, List.map_map] at hpaired
  exact hpaired

end Served

section Net

variable {α : Type*} [DecidableEq α] {text : α → List UInt8} {n : Net α}

theorem served (hshort : ∀ c, AllShort (text c)) (hn : (udp ⟨false, false, false⟩ text).Reachable n) :
    (∀ c, Served (text c) (n.lane c)) ∧ ∃ s, n.srv = .next s := by
  refine (udp ⟨false, false, false⟩ text).invariant
    (P := fun n => (∀ c, Served (text c) (n.lane c)) ∧ ∃ s, n.srv = .next s) ⟨fun c => .start _, _, rfl⟩ ?_ hn
  rintro n e n' - ⟨hserved, hsrv⟩ hstep
  have hnet := net_step hstep
  refine ⟨fun c => ?_, ?_⟩
  · rcases lane_step hnet c with hsame | hmoved
    · rw [hsame]
      exact hserved c
    · exact (hserved c).step (hshort c) hmoved
  · cases hnet with
    | own _ => exact hsrv
    | answered _ _ _ => exact ⟨_, rfl⟩
    | @swallowed c _ _ _ _ hd hlong _ => exact absurd ((hserved c).short (hshort c) hd) hlong
    | refused _ hrefuses => cases hrefuses

/-- **All clients come to an end**, if the network does nothing but reorder and every line is short. -/
theorem finishes [Fintype α] (hshort : ∀ c, AllShort (text c)) :
    (udp ⟨false, false, false⟩ text).Terminates (∑ c, (4 * (text c).length + 1) + 1) (Finished text) := by
  have hdecreases : (udp ⟨false, false, false⟩ text).Decreases Net.left :=
    fun n e n' _ hstep => left_net (fun _ => .inl rfl) (net_step hstep)
  refine hdecreases.terminates fun n hn hnot => ?_
  obtain ⟨hserved, s, hsrv⟩ := served hshort hn
  obtain ⟨c, hc⟩ : ∃ c, (n.lane c).cli.pc ≠ .returned := by
    by_contra hall
    push Not at hall
    exact hnot fun c => ⟨hall c, (hserved c).printed (hall c)⟩
  have hlane : ∀ e l, (n.lane c).step ⟨false, false, false⟩ e = some l →
      ∃ e n', (udp ⟨false, false, false⟩ text).step n e = some n' := by
    intro e l hl
    exact ⟨.lane c e, _, congrArg (Option.map _) hl⟩
  obtain ⟨hwrite, hread, hundef⟩ := (hserved c).pc
  cases hpc : (n.lane c).cli.pc with
  | fgets => exact hlane .fgets _ (if_pos hpc)
  | write sendMsg => exact hlane .write _ (by simp only [Lane.step, hpc]; rfl)
  | read =>
    rcases (hserved c).flight hpc with hup | hdown
    · obtain ⟨d, hd⟩ := List.exists_mem_of_ne_nil _ hup
      exact ⟨.serve c d, _, by simp only [udp, Net.step, hsrv, if_pos hd]; rfl⟩
    · obtain ⟨d, hd⟩ := List.exists_mem_of_ne_nil _ hdown
      exact hlane (.read d) _ (if_pos ⟨hpc, hd⟩)
  | returned => exact absurd hpc hc
  | writeFailed => exact absurd hpc hwrite
  | readFailed => exact absurd hpc hread
  | undef => exact absurd hpc hundef

end Net

/-! ## What no client recovers from -/

/-- The client failed; or it waits and nothing is on its way; or it waits, and the server is gone with no reply on
its way. -/
def Lane.Doomed (l : Lane) (gone : Prop) : Prop :=
  l.cli.pc = .writeFailed ∨ l.cli.pc = .readFailed ∨ l.cli.pc = .read ∧ l.down = [] ∧ (l.up = [] ∨ gone)

theorem Lane.Doomed.own {f : Faults} {l l' : Lane} {gone : Prop} {e : LaneEv} (h : l.Doomed gone)
    (hown : l.step f e = some l') : l'.Doomed gone := by
  cases e with
  | fgets =>
    simp only [Lane.step] at hown
    split_ifs at hown with hpc
    rcases h with h | h | ⟨h, -⟩ <;> simp [h] at hpc
  | write =>
    simp only [Lane.step] at hown
    split at hown
    · rename_i hpc
      rcases h with h | h | ⟨h, -⟩ <;> simp [h] at hpc
    · cases hown
  | read d =>
    simp only [Lane.step] at hown
    split_ifs at hown with hread
    rcases h with h | h | ⟨-, hdown, -⟩
    · simp [h] at hread
    · simp [h] at hread
    · simp [hdown] at hread
  | refuse =>
    simp only [Lane.step] at hown
    split at hown
    · rename_i hpc
      rcases h with h | h | ⟨h, -⟩ <;> simp [h] at hpc
    · split_ifs at hown
      obtain rfl := Option.some.inj hown
      exact .inr (.inl rfl)
    · cases hown
  | loseUp d | doubleUp d =>
    simp only [Lane.step] at hown
    split_ifs at hown with hfault
    obtain rfl := Option.some.inj hown
    refine h.imp_right fun h => h.imp_right ?_
    rintro ⟨hpc, hdown, hup⟩
    refine ⟨hpc, hdown, .inr (hup.resolve_left fun hnil => ?_)⟩
    simp [hnil] at hfault
  | loseDown d | doubleDown d =>
    simp only [Lane.step] at hown
    split_ifs at hown with hfault
    obtain rfl := Option.some.inj hown
    refine h.imp_right fun h => h.imp_right ?_
    rintro ⟨hpc, hdown, hup⟩
    simp [hdown] at hfault

/-- The client `c` will not return. -/
def Doomed {α : Type*} (n : Net α) (c : α) : Prop := (n.lane c).Doomed (∀ s, n.srv ≠ .next s)

section Doomed

variable {α : Type*} [DecidableEq α] {f : Faults} {text : α → List UInt8} {n n' : Net α} {c : α}

theorem Doomed.step (h : Doomed n c) (hstep : n.Step f n') : Doomed n' c := by
  cases hstep with
  | @own c' e l hown =>
    dsimp only [Doomed]
    by_cases hc : c = c'
    · subst hc
      rw [Function.update_self]
      exact Lane.Doomed.own h hown
    · rwa [Function.update_of_ne hc]
  | @answered c' d s s' hsrv hd hshort =>
    have hthere : ¬ ∀ s, n.srv ≠ .next s := fun hgone => hgone s hsrv
    dsimp only [Doomed]
    by_cases hc : c = c'
    · subst hc
      -- the server is there, so the datagram would have to be
      rw [Function.update_self]
      refine h.imp_right fun h => h.imp_right ?_
      rintro ⟨hpc, hdown, hup⟩
      rw [hup.resolve_right hthere] at hd
      cases hd
    · rw [Function.update_of_ne hc]
      refine h.imp_right fun h => h.imp_right ?_
      rintro ⟨hpc, hdown, hup⟩
      exact ⟨hpc, hdown, .inl (hup.resolve_right hthere)⟩
  | @swallowed c' d s g hsrv hd hlong hg =>
    have hgone : ∀ s, g ≠ .next s := by
      rintro s rfl
      cases hg
    dsimp only [Doomed]
    by_cases hc : c = c'
    · subst hc
      rw [Function.update_self]
      refine h.imp_right fun h => h.imp_right ?_
      rintro ⟨hpc, hdown, -⟩
      refine ⟨hpc, ?_, .inr hgone⟩
      simpa [Lane.served] using hdown
    · rw [Function.update_of_ne hc]
      refine h.imp_right fun h => h.imp_right ?_
      rintro ⟨hpc, hdown, -⟩
      exact ⟨hpc, hdown, .inr hgone⟩
  | refused hsrv _ =>
    refine h.imp_right fun h => h.imp_right fun h => ⟨h.1, h.2.1, .inr ?_⟩
    intro s heq
    cases heq

/-- Where a client may be doomed, the clients do not all come to an end. -/
theorem Doomed.not_terminates {bound : ℕ} (hn : (udp f text).Reachable n) (h : Doomed n c) :
    ¬ (udp f text).Terminates bound (Finished text) := by
  intro hterminates
  obtain ⟨m, ⟨es, hes⟩, hfinished⟩ := hterminates.leads hn
  have hdoomed : Doomed m c := System.runFrom_induction _ es (P := fun n => Doomed n c)
    (fun n e n' _ hdoomed hstep => hdoomed.step (net_step hstep)) h hes
  have hreturned := (hfinished c).1
  rcases hdoomed with hpc | hpc | ⟨hpc, -⟩ <;> simp [hpc] at hreturned

end Doomed

/-! ## The main result -/

section Faults

variable {α : Type*} [DecidableEq α] {f : Faults} {text : α → List UInt8} {c : α} {bound : ℕ}

/-- A lost datagram. -/
theorem doomed_of_loses (hloses : f.loses = true) (hc : text c ≠ []) :
    ∃ n, (udp f text).Reachable n ∧ Doomed n c := by
  obtain ⟨n, s, hn, hlane, -⟩ := ((Solo.start f text c).send hc).own (e := .loseUp _)
    (if_pos ⟨hloses, List.mem_singleton_self _⟩)
  refine ⟨n, hn, .inr (.inr ?_)⟩
  rw [hlane]
  simp

/-- A refused `read`. -/
theorem doomed_of_refuses (hrefuses : f.refuses = true) (hc : text c ≠ []) :
    ∃ n, (udp f text).Reachable n ∧ Doomed n c := by
  obtain ⟨n, s, hn, hlane, -⟩ := ((Solo.start f text c).send hc).own (e := .refuse) (if_pos hrefuses)
  exact ⟨n, hn, .inr (.inl (by rw [hlane]))⟩

/-- The first line that is not short. -/
theorem doomed_of_long {input : List UInt8} {sent printed : List (List UInt8)}
    (h : Solo f text c ⟨⟨input, .fgets, sent, printed⟩, [], []⟩) (hlong : ¬ AllShort input) :
    ∃ n, (udp f text).Reachable n ∧ Doomed n c := by
  induction hpieces : pieces (bufSize - 1) input generalizing input sent printed with
  | nil =>
    refine absurd (fun p hp => ?_) hlong
    rw [hpieces] at hp
    cases hp
  | cons p ps ih =>
    have hinput : input ≠ [] := by
      rintro rfl
      cases hpieces
    have hsent := h.send hinput
    rw [pieces_of_ne_nil (by decide) hinput, List.cons.injEq] at hpieces
    obtain ⟨hp, hps⟩ := hpieces
    have hmessage : Message (untilNul p) :=
      ⟨not_mem_untilNul p, (length_untilNul_le p).trans (hp ▸ length_fgets_le _ _)⟩
    rw [hp] at hsent
    by_cases hshort : Short p
    · -- it is answered, and the long line is behind it
      have hserved := hsent.serve (List.mem_singleton_self _) hmessage ((short_untilNul p).mpr hshort)
      simp only [Lane.served, List.erase_cons_head, List.nil_append] at hserved
      refine ih (hserved.receive hmessage ((short_untilNul p).mpr hshort)) (fun hall => hlong ?_) hps
      intro q hq
      rw [pieces_of_ne_nil (by decide) hinput, hp, List.mem_cons] at hq
      exact hq.elim (fun heq => heq ▸ hshort) (hall q)
    · obtain ⟨n, s, hn, hlane, hsrv⟩ := hsent
      have hbs : ((untilNul p).take bufSize).length ≤ bufSize := List.length_take_le _ _
      have hnot : ¬ Short ((untilNul p).take bufSize) := by rwa [hmessage.take, short_untilNul]
      have hup : untilNul p ∈ (n.lane c).up := by
        rw [hlane]
        exact List.mem_singleton_self _
      obtain ⟨g, hround⟩ : ∃ g, EchoServer.BasicUdp.dgEcho s ⟨.data ((untilNul p).take bufSize), .sent⟩ = g :=
        ⟨_, rfl⟩
      obtain ⟨hundef, hreplies⟩ := dgEcho_long (s := s) .sent hbs hnot
      rw [hround] at hundef hreplies
      have hstep : (udp f text).step n (.serve c (untilNul p)) =
          some ⟨Function.update n.lane c ((n.lane c).served (untilNul p) []), g⟩ := by
        simp only [udp, Net.step, hsrv, if_pos hup, hround, hreplies, List.drop_length]
      have hgone : ∀ s', g ≠ .next s' := by
        rintro s' rfl
        cases hundef
      refine ⟨_, .step _ hn hstep, .inr (.inr ⟨?_, ?_, .inr hgone⟩)⟩
      · simp [Lane.served, hlane]
      · simp [Lane.served, hlane]

/-- A datagram that is delivered again and again. -/
theorem not_terminates_of_doubles (hdoubles : f.doubles = true) (hc : text c ≠ []) :
    ¬ (udp f text).Terminates bound (Finished text) := by
  intro hterminates
  -- as many copies as there may be steps
  have hcopies : ∀ k, ∃ es n, (udp f text).runFrom (udp f text).init es = some n ∧ k ≤ es.length ∧
      (n.lane c).up ≠ [] := by
    intro k
    induction k with
    | zero =>
      obtain ⟨n, s, hn, hlane, -⟩ := (Solo.start f text c).send hc
      obtain ⟨es, hes⟩ := System.exists_run hn
      exact ⟨es, n, hes, Nat.zero_le _, by rw [hlane]; simp⟩
    | succ k ih =>
      obtain ⟨es, n, hes, hk, hup⟩ := ih
      obtain ⟨d, hd⟩ := List.exists_mem_of_ne_nil _ hup
      have hstep : (udp f text).step n (.lane c (.doubleUp d)) =
          some { n with lane := Function.update n.lane c { n.lane c with up := (n.lane c).up ++ [d] } } := by
        simp [udp, Net.step, Lane.step, hdoubles, hd]
      refine ⟨_, _, System.runFrom_snoc hes hstep, ?_, by simp⟩
      rw [List.length_append, List.length_singleton]
      omega
  obtain ⟨es, n, hes, hlong, -⟩ := hcopies (bound + 1)
  have := hterminates.length es n hes
  omega

/-- With nothing to send, every client returns at once. -/
theorem finishes_of_nil [Fintype α] (hnil : ∀ c, text c = []) :
    (udp f text).Terminates (∑ c, (4 * (text c).length + 1) + 1) (Finished text) := by
  have hlane : ∀ n, (udp f text).Reachable n → ∀ c, n.lane c = .start [] ∨
      n.lane c = ⟨⟨[], .returned, [], []⟩, [], []⟩ := by
    intro n hn c
    refine lane_invariant (P := fun _ l => l = .start [] ∨ l = ⟨⟨[], .returned, [], []⟩, [], []⟩)
      (fun c => .inl (by rw [hnil c])) ?_ hn c
    intro c l l' hl hstep
    cases hstep with
    | answered hd _ | swallowed hd _ => rcases hl with rfl | rfl <;> cases hd
    | @own e _ hown =>
      rcases hl with rfl | rfl <;> cases e <;> simp [Lane.step, Lane.start, Cli.start, Cli.getLine] at hown
      exact .inr hown.symm
  have hdecreases : (udp f text).Decreases Net.left := fun n e n' hn hstep =>
    left_net (fun c => .inr (by rcases hlane n hn c with h | h <;> rw [h] <;> exact ⟨rfl, rfl⟩)) (net_step hstep)
  refine hdecreases.terminates fun n hn hnot => ?_
  obtain ⟨c, hc⟩ : ∃ c, n.lane c = .start [] := by
    by_contra hall
    push Not at hall
    refine hnot fun c => ?_
    rw [(hlane n hn c).resolve_left (hall c), hnil c]
    exact ⟨rfl, rfl⟩
  have hfgets : (n.lane c).step f .fgets = some ⟨⟨[], .returned, [], []⟩, [], []⟩ := by
    rw [hc]
    rfl
  exact ⟨.lane c .fgets, _, congrArg (Option.map _) hfgets⟩

end Faults

/-- **All clients of `basic_udp_server.c` come to an end** in all runs if and only if there is nothing to send, or
the network loses and doubles nothing and refuses no call, and every line is short; and then so does every run,
within four steps for each byte, one for each client and one.  A network that doubles is ruled out by the runs in
which it goes on doubling one datagram for ever while the clients get no turn: those have no bound. -/
theorem dgCli_finishes_iff {α : Type*} [DecidableEq α] [Fintype α] (f : Faults) (text : α → List UInt8) :
    ((∃ bound, (udp f text).Terminates bound (Finished text)) ↔
      (∀ c, text c = []) ∨ f = ⟨false, false, false⟩ ∧ ∀ c, AllShort (text c)) ∧
    ((∃ bound, (udp f text).Terminates bound (Finished text)) →
      (udp f text).Terminates (∑ c, (4 * (text c).length + 1) + 1) (Finished text)) := by
  have hgood : (∀ c, text c = []) ∨ f = ⟨false, false, false⟩ ∧ (∀ c, AllShort (text c)) →
      (udp f text).Terminates (∑ c, (4 * (text c).length + 1) + 1) (Finished text) := by
    rintro (hnil | ⟨rfl, hshort⟩)
    · exact finishes_of_nil hnil
    · exact finishes hshort
  have hbad : (∃ bound, (udp f text).Terminates bound (Finished text)) →
      (∀ c, text c = []) ∨ f = ⟨false, false, false⟩ ∧ ∀ c, AllShort (text c) := by
    rintro ⟨bound, hterminates⟩
    by_contra hnot
    rw [not_or, not_forall] at hnot
    obtain ⟨⟨c, hc⟩, hfault⟩ := hnot
    obtain ⟨loses, doubles, refuses⟩ := f
    cases doubles with
    | true => exact not_terminates_of_doubles rfl hc hterminates
    | false =>
      obtain ⟨n, c', hn, hdoomed⟩ : ∃ n c', (udp ⟨loses, false, refuses⟩ text).Reachable n ∧ Doomed n c' := by
        cases loses with
        | true => exact (doomed_of_loses rfl hc).imp fun n h => ⟨c, h⟩
        | false =>
          cases refuses with
          | true => exact (doomed_of_refuses rfl hc).imp fun n h => ⟨c, h⟩
          | false =>
            obtain ⟨c', hlong⟩ := not_forall.mp fun hshort => hfault ⟨rfl, hshort⟩
            exact (doomed_of_long (Solo.start _ text c') hlong).imp fun n h => ⟨c', h⟩
      exact hdoomed.not_terminates hn hterminates
  exact ⟨⟨hbad, fun h => ⟨_, hgood h⟩⟩, fun h => hgood (hbad h)⟩

end NetProg.BasicUdp
