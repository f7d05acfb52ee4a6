/-
# NetProg.Python.ClientProgress -- `Python/select_client.py` always gets to its end.

The client sends a message on every connection before it reads once from each.  So where it waits, it has sent more
messages than it has read answers, and the server owes it something (`Good.owes`): bytes are on their way, or the
server has something to do for the connection.  Whatever is done makes a number smaller (`Net.left`), so every run
has an end, and that is the end of `main`.
-/
import Mathlib.Algebra.BigOperators.Ring.Finset
import NetProg.Python.ClientPasses

namespace NetProg.PySelectServer

open Finset (range)

/-! ## Where the client is -/

namespace Script

variable (c : Script)

/-- How many messages the client has sent on connection `i`. -/
def sentOn (i : ℕ) : Pc → ℕ
  | .connect _ => 0
  | .send j k => j + if i < k then 1 else 0
  | .recv j _ => j + 1
  | .returned => c.rounds

/-- How often it has read from it. -/
def readOn (i : ℕ) : Pc → ℕ
  | .connect _ => 0
  | .send j _ => j
  | .recv j k => j + if i < k then 1 else 0
  | .returned => c.rounds

/-- The first `m` messages on connection `i`. -/
def text (i m : ℕ) : List Char := (List.range m).flatMap fun j => c.data j i

/-- The loops stay in their ranges. -/
def InLoops : Pc → Prop
  | .connect i => i < c.conns
  | .send j i | .recv j i => j < c.rounds ∧ i < c.conns
  | .returned => True

/-- The calls that are left. -/
def left : Pc → ℕ
  | .connect i => c.conns - i + 2 * c.conns * c.rounds
  | .send j i => 2 * c.conns * (c.rounds - j) - i
  | .recv j i => 2 * c.conns * (c.rounds - j) - c.conns - i
  | .returned => 0

end Script

section Client

variable {c : Script} {i j k : ℕ}

theorem text_succ (c : Script) (i m : ℕ) : c.text i (m + 1) = c.text i m ++ c.data m i := by
  simp [Script.text, List.range_succ]

theorem ascii_text (c : Script) (i m : ℕ) : Ascii (c.text i m) := by
  intro x hx
  obtain ⟨j, -, hj⟩ := List.mem_flatMap.mp hx
  exact c.ascii j i x hj

theorem text_mono (c : Script) (i : ℕ) {m n : ℕ} (h : m ≤ n) : c.text i m <+: c.text i n := by
  induction h with
  | refl => exact List.prefix_rfl
  | step _ ih =>
    rw [text_succ]
    exact ih.trans (List.prefix_append _ _)

theorem encode_mono {t u : List Char} (h : t <+: u) : encode t <+: encode u := by
  obtain ⟨v, rfl⟩ := h
  exact ⟨encode v, (encode_append t v).symm⟩

/-- The calls of a round, and of the rounds after it. -/
theorem calls_round (c : Script) (hj : j < c.rounds) :
    2 * c.conns * (c.rounds - j) = 2 * c.conns * (c.rounds - (j + 1)) + 2 * c.conns := by
  rw [← Nat.mul_succ]
  congr 1
  omega

/-- The next round, or the end. -/
theorem round_cases (c : Script) (hj : j ≤ c.rounds) :
    c.round j = .send j 0 ∧ j < c.rounds ∨ c.round j = .returned ∧ j = c.rounds := by
  unfold Script.round
  split_ifs with h
  · exact .inl ⟨rfl, h⟩
  · exact .inr ⟨rfl, by omega⟩

theorem sentOn_round (c : Script) (hj : j ≤ c.rounds) (i : ℕ) :
    c.sentOn i (c.round j) = j ∧ c.readOn i (c.round j) = j := by
  rcases round_cases c hj with ⟨h, -⟩ | ⟨h, rfl⟩ <;> rw [h]
  · exact ⟨by simp [Script.sentOn], rfl⟩
  · exact ⟨rfl, rfl⟩

theorem left_round (c : Script) (hj : j ≤ c.rounds) :
    c.left (c.round j) = 2 * c.conns * (c.rounds - j) := by
  rcases round_cases c hj with ⟨h, -⟩ | ⟨h, rfl⟩ <;> rw [h]
  · exact Nat.sub_zero _
  · simp [Script.left]

theorem inLoops_round (hconns : 0 < c.conns) (hj : j ≤ c.rounds) : c.InLoops (c.round j) := by
  rcases round_cases c hj with ⟨h, hlt⟩ | ⟨h, -⟩ <;> rw [h]
  · exact ⟨hlt, hconns⟩
  · trivial

/-- The next connection, or what is behind the loop. -/
theorem each_cases (hi : i < c.conns) (next done : Pc) :
    c.each i next done = next ∧ i + 1 < c.conns ∨ c.each i next done = done ∧ i + 1 = c.conns := by
  unfold Script.each
  split_ifs with h
  · exact .inl ⟨rfl, h⟩
  · exact .inr ⟨rfl, by omega⟩

theorem connected_round (c : Script) (j : ℕ) : c.connected (c.round j) = c.conns := by
  unfold Script.round
  split_ifs <;> rfl

end Client

/-! ## What holds in every state -/

/-- The server runs and keeps its laws, the client is where it has sent so many messages, what it got the server
sent, and the server owes it what it has not read. -/
structure Good (c : Script) (n : Net) (s : Server) : Prop where
  srv : n.srv = .next s
  law : Law n.sent (c.connected n.pc) s
  pc : c.InLoops n.pc
  sent : ∀ i, n.sent i = if i < c.conns then c.text i (c.sentOn i n.pc) else []
  got : ∀ i, n.got i <+: replied s i
  owes : ∀ i, i < c.conns → c.readOn i n.pc < c.sentOn i n.pc → Owes n.sent n.got s i

theorem Law.mono {sent sent' : ℕ → List Char} {m m' : ℕ} {s : Server} (h : Law sent m s)
    (hsent : ∀ i, sent i <+: sent' i) (hle : m ≤ m') : Law sent' m' s :=
  ⟨h.replies, h.closed, h.made.trans (Nat.succ_le_succ hle),
    fun i => (h.reads i).trans (encode_mono (hsent i)), h.texts, h.decodes⟩

theorem Law.start (c : Script) : Law (fun _ => []) (c.connected c.start) .start where
  replies := .start
  closed := rfl
  made := by simp [Server.start]
  reads _ := List.nil_prefix
  texts := by simp [Server.start]
  decodes := by simp [TextsDecode, Server.start]

section Step

variable {c : Script} {n n' : Net} {s : Server} {i j k : ℕ}

theorem Good.ascii (h : Good c n s) (i : ℕ) : Ascii (n.sent i) := by
  rw [h.sent]
  split_ifs
  · exact ascii_text c i _
  · exact fun x hx => absurd hx List.not_mem_nil

theorem Good.connect (h : Good c n s) (hpc : n.pc = .connect i) :
    Good c { n with pc := c.each i (.connect (i + 1)) (c.round 0) } s ∧
      c.left (c.each i (.connect (i + 1)) (c.round 0)) < c.left n.pc := by
  obtain ⟨hsrv, hlaw, hin, hsent, hgot, howes⟩ := h
  rw [hpc] at hlaw hin hsent ⊢
  rcases each_cases hin (.connect (i + 1)) (c.round 0) with ⟨heq, hmore⟩ | ⟨heq, hlast⟩ <;> rw [heq]
  · refine ⟨⟨hsrv, hlaw.mono (fun _ => List.prefix_rfl) (Nat.le_succ i), hmore, hsent, hgot, ?_⟩, ?_⟩
    · exact fun k _ hlt => absurd hlt (Nat.lt_irrefl 0)
    · simp only [Script.left]
      omega
  · have hround := sentOn_round c (Nat.zero_le c.rounds)
    have hin' : c.InLoops (c.round 0) := inLoops_round (by omega) (Nat.zero_le _)
    refine ⟨⟨hsrv, hlaw.mono (fun _ => List.prefix_rfl) ?_, hin', fun k => ?_, hgot, ?_⟩, ?_⟩
    · rw [connected_round]
      exact Nat.le_of_lt hin
    · dsimp only
      rw [hsent k, (hround k).1]
      rfl
    · intro k _ hlt
      rw [(hround k).1, (hround k).2] at hlt
      exact absurd hlt (Nat.lt_irrefl 0)
    · rw [left_round c (Nat.zero_le _), Nat.sub_zero]
      simp only [Script.left]
      omega

theorem Good.send (h : Good c n s) (hpc : n.pc = .send j i) :
    Good c (n.send c j i) s ∧ c.left (n.send c j i).pc < c.left n.pc := by
  obtain ⟨hsrv, hlaw, hin, hsent, hgot, howes⟩ := h
  rw [hpc] at hlaw hin hsent howes ⊢
  obtain ⟨hj, hi⟩ := hin
  -- what was sent on each connection after that
  have hsent' : ∀ k, (n.send c j i).sent k =
      if k < c.conns then c.text k (j + if k < i + 1 then 1 else 0) else [] := by
    intro k
    by_cases hk : k = i
    · subst hk
      show Function.update n.sent k (n.sent k ++ c.data j k) k = _
      rw [Function.update_self, hsent k, if_pos hi, if_pos hi, if_pos (Nat.lt_succ_self k), text_succ]
      simp [Script.sentOn]
    · show Function.update n.sent i (n.sent i ++ c.data j i) k = _
      have hsame : k < i + 1 ↔ k < i := by omega
      rw [Function.update_of_ne hk, hsent k, if_congr hsame rfl rfl]
      rfl
  have hgrows : ∀ k, n.sent k <+: (n.send c j i).sent k := by
    intro k
    by_cases hk : k = i
    · subst hk
      show n.sent k <+: Function.update n.sent k (n.sent k ++ c.data j k) k
      rw [Function.update_self]
      exact List.prefix_append _ _
    · show n.sent k <+: Function.update n.sent i (n.sent i ++ c.data j i) k
      rw [Function.update_of_ne hk]
  have howes' : ∀ k, k < i + 1 → Owes (n.send c j i).sent n.got s k := by
    intro k hk
    by_cases heq : k = i
    · -- the message was not read yet
      subst heq
      have hheard := (hlaw.reads k).length_le
      have hbefore : Ascii (n.sent k) := by
        rw [hsent k, if_pos hi]
        exact ascii_text c k _
      have hpos := List.length_pos_iff.mpr (c.nonempty j k)
      left
      show (heard s k).length < (encode (Function.update n.sent k (n.sent k ++ c.data j k) k)).length
      rw [Function.update_self, (hbefore.append (c.ascii j k)).length_encode, List.length_append]
      rw [hbefore.length_encode] at hheard
      omega
    · have hlt : k < i := by omega
      have hold := howes k (hlt.trans hi) (by simp [Script.readOn, Script.sentOn, hlt])
      unfold Owes at hold ⊢
      show (heard s k).length < (encode (Function.update n.sent i (n.sent i ++ c.data j i) k)).length ∨ _
      rwa [Function.update_of_ne heq]
  have hrounds := calls_round c hj
  have hpc' : (n.send c j i).pc = c.each i (.send j (i + 1)) (.recv j 0) := rfl
  rcases each_cases hi (.send j (i + 1)) (.recv j 0) with ⟨heq, hmore⟩ | ⟨heq, hlast⟩ <;> rw [heq] at hpc'
  · refine ⟨⟨hsrv, ?_, ?_, ?_, hgot, ?_⟩, ?_⟩ <;> rw [hpc']
    · exact hlaw.mono hgrows (Nat.le_refl _)
    · exact ⟨hj, hmore⟩
    · exact hsent'
    · intro k hk hlt
      refine howes' k ?_
      by_contra hge
      simp [Script.readOn, Script.sentOn, hge] at hlt
    · simp only [Script.left]
      omega
  · refine ⟨⟨hsrv, ?_, ?_, fun k => ?_, hgot, ?_⟩, ?_⟩ <;> rw [hpc']
    · exact hlaw.mono hgrows (Nat.le_refl _)
    · exact ⟨hj, by omega⟩
    · rw [hsent' k]
      by_cases hk : k < c.conns
      · rw [if_pos hk, if_pos hk, if_pos (by omega)]
        rfl
      · rw [if_neg hk, if_neg hk]
    · exact fun k hk _ => howes' k (by omega)
    · simp only [Script.left]
      omega

theorem Good.recv (h : Good c n s) (hpc : n.pc = .recv j i)
    (hle : (n.got i).length + k ≤ (replied s i).length) :
    Good c (n.recv c s j i k) s ∧ c.left (n.recv c s j i k).pc < c.left n.pc := by
  obtain ⟨hsrv, hlaw, hin, hsent, hgot, howes⟩ := h
  rw [hpc] at hlaw hin hsent howes ⊢
  obtain ⟨hj, hi⟩ := hin
  have hgot' : ∀ l, (n.recv c s j i k).got l <+: replied s l := by
    intro l
    by_cases hl : l = i
    · subst hl
      show Function.update n.got l (n.got l ++ ((replied s l).drop (n.got l).length).take k) l <+: _
      rw [Function.update_self]
      exact prefix_append (hgot l) (List.take_prefix _ _)
    · show Function.update n.got i (n.got i ++ ((replied s i).drop (n.got i).length).take k) l <+: _
      rw [Function.update_of_ne hl]
      exact hgot l
  have howes' : ∀ l, l < c.conns → ¬ l < i + 1 → Owes n.sent (n.recv c s j i k).got s l := by
    intro l hl hge
    have hne : l ≠ i := by omega
    have hold := howes l hl (by simp [Script.readOn, Script.sentOn, show ¬ l < i by omega])
    unfold Owes at hold ⊢
    show _ ∨ _ ∨ (Function.update n.got i (n.got i ++ ((replied s i).drop (n.got i).length).take k) l).length < _
    rwa [Function.update_of_ne hne]
  have hrounds := calls_round c hj
  have hpc' : (n.recv c s j i k).pc = c.each i (.recv j (i + 1)) (c.round (j + 1)) := rfl
  rcases each_cases hi (.recv j (i + 1)) (c.round (j + 1)) with ⟨heq, hmore⟩ | ⟨heq, hlast⟩ <;> rw [heq] at hpc'
  · refine ⟨⟨hsrv, ?_, ?_, ?_, hgot', fun l hl hlt => howes' l hl fun hless => ?_⟩, ?_⟩
    all_goals rw [hpc'] at *
    · exact hlaw
    · exact ⟨hj, hmore⟩
    · exact hsent
    · simp [Script.readOn, Script.sentOn, hless] at hlt
    · simp only [Script.left]
      omega
  · have hnext : j + 1 ≤ c.rounds := hj
    have hround := sentOn_round c hnext
    refine ⟨⟨hsrv, ?_, ?_, fun l => ?_, hgot', fun l hl hlt => ?_⟩, ?_⟩
    all_goals rw [hpc'] at *
    · rw [connected_round]
      exact hlaw
    · exact inLoops_round (by omega) hnext
    · rw [(hround l).1]
      exact hsent l
    · rw [(hround l).1, (hround l).2] at hlt
      exact absurd hlt (Nat.lt_irrefl _)
    · rw [left_round c hnext]
      simp only [Script.left]
      omega

/-- A pass of the server, which does something. -/
theorem Good.pass (h : Good c n s) {e : Ready} (he : Answers n.sent (c.connected n.pc) s e) :
    ∃ t m, 0 < m ∧ Good c { n with srv := body asciiUpper s e } t ∧ Ran n.sent (c.connected n.pc) s t m := by
  obtain ⟨t, m, hbody, hpos, hran⟩ := h.law.pass_run h.ascii he
  refine ⟨t, m, hpos, ⟨hbody, hran.law, h.pc, h.sent, fun i => ?_, fun i hi hlt => ?_⟩, hran⟩
  · exact (h.got i).trans (hran.replied i)
  · exact hran.owes n.got i (h.got i) (h.owes i hi hlt)

end Step

/-! ## Every run has an end -/

section Runs

variable {c : Script} {n n' : Net} {s : Server}

/-- How many bytes are sent on connection `i` in the end. -/
def Script.total (c : Script) (i : ℕ) : ℕ := if i < c.conns then (encode (c.text i c.rounds)).length else 0

/-- What is left to do for the client and for the server. -/
def Net.left (c : Script) (n : Net) : ℕ := c.left n.pc + ∑ i ∈ range c.conns, load c.total n.srv.state i

theorem sentOn_le (hin : c.InLoops n.pc) (i : ℕ) : c.sentOn i n.pc ≤ c.rounds := by
  cases hpc : n.pc with
  | connect k => exact Nat.zero_le _
  | returned => exact Nat.le_refl _
  | send j k =>
    rw [hpc] at hin
    have hj : j < c.rounds := hin.1
    simp only [Script.sentOn]
    split_ifs <;> omega
  | recv j k =>
    rw [hpc] at hin
    exact hin.1

theorem connected_le (hin : c.InLoops n.pc) : c.connected n.pc ≤ c.conns := by
  cases hpc : n.pc with
  | connect k =>
    rw [hpc] at hin
    exact Nat.le_of_lt hin
  | send j k | recv j k | returned => exact Nat.le_refl _

theorem Good.length_sent_le (h : Good c n s) (i : ℕ) : (encode (n.sent i)).length ≤ c.total i := by
  rw [h.sent, Script.total]
  split_ifs
  · exact (encode_mono (text_mono c i (sentOn_le h.pc i))).length_le
  · exact Nat.le_refl 0

/-- **Every step keeps it, and does something.** -/
theorem Good.step (h : Good c n s) {e : Ev} (hstep : (net c).step n e = some n') :
    ∃ t, Good c n' t ∧ n'.left c < n.left c := by
  have hsrv := h.srv
  cases e with
  | connect =>
    simp only [net, Net.step] at hstep
    split at hstep
    · next i hpc =>
      obtain rfl := Option.some.inj hstep
      obtain ⟨hgood, hless⟩ := h.connect hpc
      exact ⟨s, hgood, Nat.add_lt_add_right hless _⟩
    · cases hstep
  | send =>
    simp only [net, Net.step] at hstep
    split at hstep
    · next j i hpc =>
      obtain rfl := Option.some.inj hstep
      obtain ⟨hgood, hless⟩ := h.send hpc
      exact ⟨s, hgood, Nat.add_lt_add_right hless _⟩
    · cases hstep
  | recv k =>
    simp only [net, Net.step] at hstep
    split at hstep
    · next j i s' hpc hnext =>
      obtain rfl : s = s' := Flow.next.inj (hsrv.symm.trans hnext)
      obtain ⟨⟨-, -, hle⟩, rfl⟩ := Option.ite_some_none_eq_some.mp hstep
      obtain ⟨hgood, hless⟩ := h.recv hpc hle
      exact ⟨s, hgood, Nat.add_lt_add_right hless _⟩
    · cases hstep
  | pass e =>
    simp only [net, Net.step] at hstep
    split at hstep
    · next s' hnext =>
      obtain rfl : s = s' := Flow.next.inj (hsrv.symm.trans hnext)
      obtain ⟨⟨-, he⟩, rfl⟩ := Option.ite_some_none_eq_some.mp hstep
      obtain ⟨t, m, hpos, hgood, hran⟩ := h.pass he
      refine ⟨t, hgood, ?_⟩
      have hload := hran.load c.total c.conns (connected_le h.pc) h.length_sent_le
      have hsrv' : body asciiUpper s e = .next t := hgood.srv
      show c.left n.pc + ∑ i ∈ range c.conns, load c.total (body asciiUpper s e).state i < _
      rw [Net.left, hsrv', hsrv]
      simp only [Flow.state]
      omega
    · cases hstep

theorem Good.start (c : Script) : Good c (.start c) .start where
  srv := rfl
  law := Law.start c
  pc := by
    show c.InLoops c.start
    unfold Script.start
    split_ifs with h
    · exact h
    · trivial
  sent i := by
    show [] = _
    split_ifs with h
    · have hstart : c.start = .connect 0 := if_pos (by omega)
      simp [Net.start, hstart, Script.sentOn, Script.text]
    · rfl
  got i := List.nil_prefix
  owes i hi hlt := by
    have hstart : c.start = .connect 0 := if_pos (by omega)
    simp [Net.start, hstart, Script.sentOn, Script.readOn] at hlt

theorem runs_and_owes (hn : (net c).Reachable n) : ∃ s, Good c n s := by
  refine (net c).invariant (P := fun n => ∃ s, Good c n s) ⟨_, .start c⟩ ?_ hn
  rintro n e n' - ⟨s, h⟩ hstep
  obtain ⟨t, ht, -⟩ := h.step hstep
  exact ⟨t, ht⟩

/-! ## Where the client waits, something can be done -/

theorem step_pass (h : Good c n s) (hpc : n.pc ≠ .returned) {e : Ready}
    (he : Answers n.sent (c.connected n.pc) s e) :
    ∃ e n', (net c).step n e = some n' := by
  refine ⟨.pass e, { n with srv := body asciiUpper s e }, ?_⟩
  simp only [net, Net.step, h.srv]
  exact if_pos ⟨hpc, he⟩

/-- A connection is there to be accepted. -/
theorem answers_accept {sent : ℕ → List Char} {m : ℕ} (h : Law sent m s) (hmade : s.made ≤ m) :
    Answers sent m s ⟨[(0, ⟨true, [], true⟩)], [], []⟩ := by
  refine ⟨?_, ?_, by simp, rfl, by simp⟩
  · have hmaster : 0 ∈ s.inputs := h.replies.inv.master
    simp [Admits, hmaster]
  · rintro r hr
    obtain rfl := List.mem_singleton.mp hr
    exact ⟨rfl, rfl, hmade⟩

/-- A byte is there to be read. -/
theorem answers_read {sent : ℕ → List Char} {m : ℕ} (h : Law sent m s) (haccepted : ¬ Waits s i)
    (hmore : (heard s i).length < (encode (sent i)).length) :
    ∃ b, Answers sent m s ⟨[(i + 1, ⟨true, [b], true⟩)], [], []⟩ := by
  have hin : i + 1 ∈ s.inputs := h.replies.inv.accepted _ (Nat.lt_of_not_le haccepted) (by simp [h.closed])
  obtain ⟨b, rest, hrest⟩ : ∃ b rest, (encode (sent i)).drop (heard s i).length = b :: rest := by
    apply List.exists_cons_of_ne_nil
    intro hnil
    exact Nat.not_le_of_lt hmore (List.drop_eq_nil_iff.mp hnil)
  refine ⟨b, ⟨?_, ?_, by simp, rfl, by simp⟩⟩
  · simp [Admits, hin]
  · rintro r hr
    obtain rfl := List.mem_singleton.mp hr
    refine ⟨rfl, rfl, List.cons_ne_nil b [], ?_⟩
    rw [hrest]
    exact List.prefix_append [b] rest

/-- A message is there to be sent. -/
theorem answers_write {sent : ℕ → List Char} {m : ℕ} (h : Law sent m s) (hqueue : queue s i ≠ []) :
    Answers sent m s ⟨[], [(i + 1, ⟨true, some 1⟩)], []⟩ := by
  have hout : i + 1 ∈ s.outputs := by
    by_contra hnot
    cases hq : s.msgQueue (i + 1) with
    | none => exact hqueue (by simp [queue, hq])
    | some q => exact hqueue (by simp [queue, hq, h.replies.inv.waiting _ q hq hnot])
  refine ⟨?_, by simp, ?_, rfl, by simp⟩
  · simp [Admits, hout]
  · rintro w hw
    obtain rfl := List.mem_singleton.mp hw
    exact ⟨rfl, 1, rfl, Nat.one_pos⟩

/-- **What is owed is on its way, or the server has something to do for it.** -/
theorem Good.progress (h : Good c n s) (hpc : n.pc ≠ .returned) : ∃ e n', (net c).step n e = some n' := by
  cases hcase : n.pc with
  | connect i => exact ⟨.connect, _, by simp [net, Net.step, hcase]; rfl⟩
  | send j i => exact ⟨.send, _, by simp [net, Net.step, hcase]; rfl⟩
  | returned => exact absurd hcase hpc
  | recv j i =>
    have hlaw := h.law
    have hin := h.pc
    have howes := h.owes i
    rw [hcase] at hlaw hin howes
    rcases howes hin.2 (by simp [Script.readOn, Script.sentOn]) with hmore | hqueue | hmore
    · by_cases hwaits : Waits s i
      · have hmade : s.made ≤ c.conns := Nat.le_trans hwaits hin.2
        exact step_pass h hpc (by rw [hcase]; exact answers_accept hlaw hmade)
      · obtain ⟨b, hb⟩ := answers_read hlaw hwaits hmore
        exact step_pass h hpc (by rw [hcase]; exact hb)
    · exact step_pass h hpc (by rw [hcase]; exact answers_write hlaw hqueue)
    · refine ⟨.recv 1, n.recv c s j i 1, ?_⟩
      simp only [net, Net.step, hcase, h.srv]
      exact if_pos ⟨Nat.one_pos, by decide, hmore⟩

/-! ## What comes back -/

/-- **With whole sends, nothing is missing from what the server sent**: it is the upper case of what the client sent,
up to where the server has come. -/
theorem Good.replied_le (h : Good c n s) (hwhole : WholeSends s.log (i + 1)) :
    replied s i <+: encode ((n.sent i).flatMap asciiUpper) := by
  have htext := (decode_chunks h.law.decodes (i + 1)).1
  -- what was read is a prefix of what was sent, character by character
  have hread : receivedText s.log (i + 1) <+: n.sent i := by
    have hslice := (h.ascii i).decode_slice 0 (heard s i).length
    rw [List.drop_zero, List.drop_zero, ← List.prefix_iff_eq_take.mp (h.law.reads i)] at hslice
    rw [Option.some.inj (htext.symm.trans hslice)]
    exact List.take_prefix _ _
  have hupper : encode ((receivedText s.log (i + 1)).flatMap asciiUpper) <+:
      encode ((n.sent i).flatMap asciiUpper) := by
    obtain ⟨rest, hrest⟩ := hread
    rw [← hrest, List.flatMap_append]
    exact encode_mono (List.prefix_append _ _)
  refine List.IsPrefix.trans ?_ hupper
  have hinv := h.law.replies
  unfold replied
  rw [(accepted_eq_handed_iff s.log (i + 1)).mpr hwhole]
  by_cases haccepted : i + 1 < s.made
  · have hin : i + 1 ∈ s.inputs := hinv.inv.accepted _ haccepted (by simp [h.law.closed])
    obtain ⟨q, hq⟩ := Option.isSome_iff_exists.mp ((hinv.inv.keys (i + 1)).mpr ⟨hin, Nat.succ_ne_zero i⟩)
    rw [← hinv.conserved_open hq]
    exact List.prefix_append _ _
  · -- a socket that the server does not have yet
    have hnone : handedBytes s.log (i + 1) = [] := by
      refine List.flatMap_eq_nil_iff.mpr fun x hx => ?_
      have hold := hinv.old x hx
      cases x with
      | received | deleted => rfl
      | sent d msg count =>
        refine if_neg ?_
        rintro rfl
        exact haccepted hold
    rw [hnone]
    exact List.nil_prefix

/-- **The client always gets to its end**, and until then the server does not raise.  Whatever is scheduled, there are
that many steps at most, and the client is never left waiting.  In the end all its messages were sent on each
connection; what it read on a connection are replies on that connection, and where each `send` of the server took
its whole message, a prefix of the upper-cased messages. -/
theorem selectClient_finishes (c : Script) :
    (net c).Terminates (2 * c.conns * (c.rounds + 1) + 3 * ∑ i ∈ range c.conns, (c.text i c.rounds).length)
        (fun n => n.pc = .returned) ∧
      ∀ n, (net c).Reachable n → ∃ s, n.srv = .next s ∧
        (n.pc = .returned → ∀ i, i < c.conns → n.sent i = c.text i c.rounds) ∧
        ∀ i, n.got i <+: replied s i ∧
          (WholeSends s.log (i + 1) → n.got i <+: encode ((n.sent i).flatMap asciiUpper)) := by
  constructor
  · have hdecreases : (net c).Decreases (Net.left c) := by
      intro n e n' hn hstep
      obtain ⟨s, h⟩ := runs_and_owes hn
      obtain ⟨t, -, hless⟩ := h.step hstep
      exact hless
    have hstart : Net.left c (.start c) ≤
        2 * c.conns * (c.rounds + 1) + 3 * ∑ i ∈ range c.conns, (c.text i c.rounds).length := by
      have hcalls : c.left c.start ≤ 2 * c.conns * c.rounds + c.conns := by
        unfold Script.start
        split_ifs
        · simp only [Script.left]
          omega
        · exact Nat.zero_le _
      have hload : ∀ i ∈ range c.conns, load c.total .start i ≤ 3 * (c.text i c.rounds).length + 1 := by
        intro i hi
        have htotal : c.total i = (c.text i c.rounds).length := by
          rw [Script.total, if_pos (Finset.mem_range.mp hi), (ascii_text c i _).length_encode]
        simp [load, htotal, heard, chunks, queue, Server.start, Waits]
      have hsum := Finset.sum_le_sum hload
      rw [Finset.sum_add_distrib, ← Finset.mul_sum, Finset.sum_const, Finset.card_range,
        Nat.nsmul_eq_mul] at hsum
      have hleft : Net.left c (.start c) = c.left c.start + ∑ i ∈ range c.conns, load c.total .start i := rfl
      rw [hleft, Nat.mul_succ]
      omega
    have hends : (net c).Terminates (Net.left c (.start c)) (fun n => n.pc = .returned) := by
      refine hdecreases.terminates fun n hn hnot => ?_
      obtain ⟨s, h⟩ := runs_and_owes hn
      exact h.progress hnot
    exact ⟨fun es n hes => (hends.length es n hes).trans hstart, hends.progress⟩
  · intro n hn
    obtain ⟨s, h⟩ := runs_and_owes hn
    refine ⟨s, h.srv, fun hend i hi => ?_, fun i => ⟨h.got i, fun hwhole => ?_⟩⟩
    · rw [h.sent i, if_pos hi, hend]
      rfl
    · exact (h.got i).trans (h.replied_le hwhole)

end Runs

end NetProg.PySelectServer
