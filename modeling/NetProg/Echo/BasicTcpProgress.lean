/-
# NetProg.Echo.BasicTcpProgress -- when `C/basic_tcp_client.c` comes to the end of its input.

The client writes a line and waits for its echo.  Every byte takes five calls on its way, so that a session has a
bounded number of them.  But `write` is given `strlen(send_buf)`: of a line that begins with a NUL nothing is
sent, and if nothing else is on its way then client and server both wait in `read`, for ever.  That is the only way
to get stuck (`echo_stuck_iff`).
-/
import Mathlib.Data.Nat.Find
import Mathlib.Logic.Function.Iterate
import NetProg.Base.Progress
import NetProg.Echo.BasicTcp

namespace NetProg.BasicTcp

/-- What is left of the text behind `k` calls of `fgets`. -/
def rest (text : List UInt8) (k : ℕ) : List UInt8 := (fun t => (fgets (bufLen - 1) t).2)^[k] text

/-- Some line that the client reads begins with a NUL. -/
def Silent (text : List UInt8) : Prop := ∃ k, (rest text k).head? = some 0

/-- The session has not come to its end, and no call of either side returns. -/
def Hangs (text : List UInt8) (s : Session) : Prop :=
  (echo text).Reachable s ∧ s.pc ≠ .returned ∧ (echo text).Stuck s

/-! ## The calls that are left -/

/-- The `fgets` that returns NULL is still to come. -/
def Pc.toRead : Pc → ℕ
  | returned => 0
  | _ => 1

/-- How many calls can still be made. -/
def Session.left (s : Session) : ℕ :=
  5 * s.input.length + 4 * s.pc.line.length + 3 * s.toServer.length + 2 * s.buf.length + s.toClient.length +
    s.pc.toRead

/-- The input is what some calls of `fgets` have left, and the line is what the last one read. -/
structure Reads (text : List UInt8) (s : Session) : Prop where
  input : ∃ k, s.input = rest text k
  line : ∀ sendBuf, s.pc = .write sendBuf →
    ∃ k, rest text k ≠ [] ∧ sendBuf = (fgets (bufLen - 1) (rest text k)).1

section Step

variable {text : List UInt8} {s s' : Session}

theorem rest_succ (text : List UInt8) (k : ℕ) : rest text (k + 1) = (fgets (bufLen - 1) (rest text k)).2 :=
  Function.iterate_succ_apply' _ _ _

/-- `fgets` stores the first character. -/
theorem head_fgets {t : List UInt8} : (fgets (bufLen - 1) t).1.head? = t.head? := by
  cases t with
  | nil => rfl
  | cons c t =>
    show (fgets (254 + 1) (c :: t)).1.head? = _
    rw [fgets]
    split_ifs <;> rfl

theorem Reads.start (text : List UInt8) : Reads text (Session.start text) where
  input := ⟨0, rfl⟩
  line := nofun

theorem Reads.step (h : Reads text s) {e : Ev} (hstep : s.step e = some s') : Reads text s' := by
  cases e with
  | fgets =>
    simp only [Session.step] at hstep
    split_ifs at hstep
    cases hstep
    obtain ⟨k, hk⟩ := h.input
    unfold Session.getLine
    split
    · refine ⟨⟨k, hk⟩, ?_⟩
      intro sendBuf hpc
      cases hpc
    · next hne =>
      have hrest : rest text k ≠ [] := hk ▸ hne
      refine ⟨⟨k + 1, by rw [rest_succ, ← hk]⟩, ?_⟩
      rintro sendBuf ⟨⟩
      exact ⟨k, hrest, by rw [hk]⟩
  | write =>
    simp only [Session.step] at hstep
    split at hstep
    · cases hstep
      refine ⟨h.input, ?_⟩
      intro sendBuf hpc
      cases hpc
    · cases hstep
  | read n =>
    simp only [Session.step] at hstep
    split_ifs at hstep
    cases hstep
    refine ⟨h.input, ?_⟩
    intro sendBuf hpc
    cases hpc
  | serverRead n | serverWrite =>
    simp only [Session.step] at hstep
    split_ifs at hstep
    cases hstep
    exact ⟨h.input, h.line⟩

theorem reads (h : (echo text).Reachable s) : Reads text s :=
  (echo text).invariant (Reads.start text) (fun _ _ _ _ hs hstep => hs.step hstep) h

/-- **Every call makes the number smaller.** -/
theorem left_step (h : Reads text s) {e : Ev} (hstep : s.step e = some s') : s'.left < s.left := by
  cases e with
  | fgets =>
    simp only [Session.step] at hstep
    split_ifs at hstep with hpc
    cases hstep
    unfold Session.getLine
    split
    · simp [Session.left, Pc.line, Pc.toRead, hpc]
    · next hne =>
      have hsplit := congrArg List.length (fgets_append (bufLen - 1) s.input)
      have hpos := List.length_pos_iff.mpr (fgets_ne_nil (n := bufLen - 1) (by decide) hne)
      rw [List.length_append] at hsplit
      simp [Session.left, Pc.line, Pc.toRead, hpc]
      omega
  | write =>
    simp only [Session.step] at hstep
    split at hstep
    · next sendBuf hpc =>
      cases hstep
      obtain ⟨k, hne, hline⟩ := h.line sendBuf hpc
      have hpos := List.length_pos_iff.mpr (fgets_ne_nil (n := bufLen - 1) (by decide) hne)
      rw [← hline] at hpos
      have hle : (untilNul sendBuf).length ≤ sendBuf.length := length_untilNul_le sendBuf
      simp [Session.left, Pc.line, Pc.toRead, hpc, Session.writeLine]
      omega
    · cases hstep
  | read n =>
    simp only [Session.step] at hstep
    split_ifs at hstep with hread
    cases hstep
    obtain ⟨hpc, hpos, -, hle⟩ := hread
    simp [Session.left, Pc.line, Pc.toRead, hpc, Session.readReply]
    omega
  | serverRead n =>
    simp only [Session.step] at hstep
    split_ifs at hstep with hread
    cases hstep
    obtain ⟨hbuf, hpos, -, hle⟩ := hread
    simp only [Session.left, Session.serverRead, hbuf, List.length_nil, List.length_take_of_le hle, List.length_drop]
    omega
  | serverWrite =>
    simp only [Session.step] at hstep
    split_ifs at hstep with hbuf
    cases hstep
    have hpos := List.length_pos_iff.mpr hbuf
    simp only [Session.left, Session.serverWrite, List.length_nil, List.length_append]
    omega

/-! ## What the client waits for -/

/-- Nothing is on its way. -/
def Session.Idle (s : Session) : Prop := s.toServer = [] ∧ s.buf = [] ∧ s.toClient = []

/-- Where the session has no call to make, client and server wait for each other. -/
theorem stuck_iff (hpc : s.pc ≠ .returned) : (echo text).Stuck s ↔ s.pc = .read ∧ s.Idle := by
  constructor
  · intro hstuck
    have hnone : ∀ e s', s.step e ≠ some s' := fun _ _ hstep => hstuck.not_step hstep
    have hclient : s.toClient = [] ∨ s.pc ≠ .read := by
      by_contra hready
      rw [not_or, not_not] at hready
      have hread : MayRead s.toClient 1 := ⟨Nat.one_pos, by decide, List.length_pos_iff.mpr hready.1⟩
      exact hnone (.read 1) _ (if_pos ⟨hready.2, hread⟩)
    have hbuf : s.buf = [] := by
      by_contra hne
      exact hnone .serverWrite _ (if_pos hne)
    have hserver : s.toServer = [] := by
      by_contra hne
      have hread : MayRead s.toServer 1 := ⟨Nat.one_pos, by decide, List.length_pos_iff.mpr hne⟩
      exact hnone (.serverRead 1) _ (if_pos ⟨hbuf, hread⟩)
    cases hcases : s.pc with
    | returned => exact absurd hcases hpc
    | fgets => exact absurd (if_pos hcases) (hnone .fgets _)
    | write sendBuf => exact absurd (by simp only [Session.step, hcases]) (hnone .write (s.writeLine sendBuf))
    | read => exact ⟨rfl, hserver, hbuf, hclient.resolve_right (not_not.mpr hcases)⟩
  · rintro ⟨hread, hserver, hbuf, hclient⟩ e
    cases e <;> simp [echo, Session.step, MayRead, hread, hserver, hbuf, hclient] <;> omega

/-- The client waits only while something is on its way. -/
def Session.Awaits (s : Session) : Prop :=
  s.pc = .read → 0 < s.toServer.length + s.buf.length + s.toClient.length

theorem awaits_step (hloud : ¬ Silent text) (h : Reads text s) (hs : s.Awaits) {e : Ev}
    (hstep : s.step e = some s') : s'.Awaits := by
  cases e with
  | fgets =>
    simp only [Session.step] at hstep
    split_ifs at hstep
    cases hstep
    unfold Session.getLine
    split <;>
    · intro hpc
      cases hpc
  | write =>
    simp only [Session.step] at hstep
    split at hstep
    · next sendBuf hpc =>
      cases hstep
      obtain ⟨k, hne, hline⟩ := h.line sendBuf hpc
      have hsent : untilNul sendBuf ≠ [] := by
        intro hnil
        apply hloud
        refine ⟨k, ?_⟩
        rw [← head_fgets, ← hline]
        have hnonempty : sendBuf ≠ [] := hline ▸ fgets_ne_nil (by decide) hne
        obtain ⟨b, bs, rfl⟩ := List.exists_cons_of_ne_nil hnonempty
        by_cases hb : b = 0
        · rw [hb]
          rfl
        · simp [untilNul, hb] at hnil
      intro _
      have hpos := List.length_pos_iff.mpr hsent
      simp only [Session.writeLine, List.length_append]
      omega
    · cases hstep
  | read n =>
    simp only [Session.step] at hstep
    split_ifs at hstep
    cases hstep
    intro hpc
    cases hpc
  | serverRead n =>
    simp only [Session.step] at hstep
    split_ifs at hstep with hread
    cases hstep
    intro hpc
    have hbefore := hs hpc
    have hsplit := congrArg List.length (List.take_append_drop n s.toServer)
    rw [hread.1] at hbefore
    simp only [Session.serverRead, List.length_append, List.length_nil] at hsplit hbefore ⊢
    omega
  | serverWrite =>
    simp only [Session.step] at hstep
    split_ifs at hstep
    cases hstep
    intro hpc
    have hbefore := hs hpc
    simp only [Session.serverWrite, List.length_append, List.length_nil]
    omega

theorem awaits (hloud : ¬ Silent text) (h : (echo text).Reachable s) : s.Awaits :=
  (echo text).invariant (P := Session.Awaits) nofun
    (fun _ _ _ hr hs hstep => awaits_step hloud (reads hr) hs hstep) h

/-! ## A session in lockstep -/

/-- At `fgets`, with nothing on its way. -/
def Session.Between (s : Session) (input : List UInt8) : Prop := s.pc = .fgets ∧ s.Idle ∧ s.input = input

/-- The client has read the next line and sent it. -/
theorem between_write {t : List UInt8} (hs : (echo text).Reachable s) (hbetween : s.Between t) (hne : t ≠ []) :
    ∃ s', (echo text).Reachable s' ∧ s'.pc = .read ∧ s'.toServer = untilNul (fgets (bufLen - 1) t).1 ∧
      s'.buf = [] ∧ s'.toClient = [] ∧ s'.input = (fgets (bufLen - 1) t).2 := by
  obtain ⟨hpc, ⟨hserver, hbuf, hclient⟩, hinput⟩ := hbetween
  have hgot : s.getLine =
      { s with pc := .write (fgets (bufLen - 1) t).1, input := (fgets (bufLen - 1) t).2 } := by
    unfold Session.getLine
    rw [hinput]
    cases t with
    | nil => exact absurd rfl hne
    | cons c t => rfl
  have hget : (echo text).step s .fgets = some s.getLine := if_pos hpc
  have hwrite : (echo text).step s.getLine .write = some (s.getLine.writeLine (fgets (bufLen - 1) t).1) := by
    rw [hgot]
    rfl
  refine ⟨_, .step _ (.step _ hs hget) hwrite, rfl, ?_⟩
  rw [hgot]
  simp [Session.writeLine, hserver, hbuf, hclient]

/-- A line that does not begin with a NUL goes round. -/
theorem between_round {t : List UInt8} (hs : (echo text).Reachable s) (hbetween : s.Between t)
    (hne : t ≠ []) (hhead : t.head? ≠ some 0) :
    ∃ s', (echo text).Reachable s' ∧ s'.Between (fgets (bufLen - 1) t).2 := by
  obtain ⟨s, hs, hpc, hserver, hbuf, hclient, hinput⟩ := between_write hs hbetween hne
  have hsent : 0 < s.toServer.length := by
    have hlinehead : (fgets (bufLen - 1) t).1.head? ≠ some 0 := by rwa [head_fgets]
    have hnonempty : (fgets (bufLen - 1) t).1 ≠ [] := fgets_ne_nil (by decide) hne
    obtain ⟨b, bs, hcons⟩ := List.exists_cons_of_ne_nil hnonempty
    rw [hcons] at hlinehead
    have hb : b ≠ 0 := fun h => hlinehead (by rw [h]; rfl)
    rw [hserver, hcons]
    simp [untilNul, hb]
  have hfit : s.toServer.length ≤ bufLen - 1 := by
    rw [hserver]
    exact (length_untilNul_le _).trans (length_fgets_le _ _)
  -- the server takes it, and writes it back; the client reads it
  have hread : (echo text).step s (.serverRead s.toServer.length) = some (s.serverRead s.toServer.length) :=
    if_pos ⟨hbuf, hsent, hfit, Nat.le_refl _⟩
  have hwrite : (echo text).step (s.serverRead s.toServer.length) .serverWrite =
      some (s.serverRead s.toServer.length).serverWrite := by
    apply if_pos
    simpa [Session.serverRead] using List.length_pos_iff.mp hsent
  have hreply : (echo text).step (s.serverRead s.toServer.length).serverWrite (.read s.toServer.length) =
      some ((s.serverRead s.toServer.length).serverWrite.readReply s.toServer.length) :=
    if_pos ⟨hpc, hsent, hfit, by simp [Session.serverRead, Session.serverWrite]⟩
  refine ⟨_, .step _ (.step _ (.step _ hs hread) hwrite) hreply, rfl, ⟨?_, rfl, ?_⟩, hinput⟩
  · simp [Session.serverRead, Session.serverWrite, Session.readReply]
  · simp [Session.serverRead, Session.serverWrite, Session.readReply, hclient]

/-- Up to the first line that begins with a NUL the session can go in lockstep. -/
theorem exists_between (k : ℕ) (hloud : ∀ j < k, rest text j ≠ [] ∧ (rest text j).head? ≠ some 0) :
    ∃ s, (echo text).Reachable s ∧ s.Between (rest text k) := by
  induction k with
  | zero => exact ⟨Session.start text, .init, rfl, ⟨rfl, rfl, rfl⟩, rfl⟩
  | succ k ih =>
    obtain ⟨s, hs, hbetween⟩ := ih fun j hj => hloud j (Nat.lt_succ_of_lt hj)
    obtain ⟨hne, hhead⟩ := hloud k (Nat.lt_succ_self k)
    rw [rest_succ]
    exact between_round hs hbetween hne hhead

/-- Behind the end there is only the end. -/
theorem rest_nil {j k : ℕ} (hle : j ≤ k) (hnil : rest text j = []) : rest text k = [] := by
  induction hle with
  | refl => exact hnil
  | step _ ih =>
    rw [rest_succ, ih]
    rfl

/-- At such a line, with nothing on its way, the client sends nothing and waits. -/
theorem hangs_of_between {t : List UInt8} (hs : (echo text).Reachable s) (hbetween : s.Between t)
    (hhead : t.head? = some 0) : ∃ s', Hangs text s' := by
  have hne : t ≠ [] := by
    rintro rfl
    cases hhead
  obtain ⟨s, hs, hpc, hserver, hbuf, hclient, -⟩ := between_write hs hbetween hne
  obtain ⟨line, hcons⟩ := List.head?_eq_some_iff.mp (head_fgets.trans hhead)
  rw [hcons, untilNul_cons_nul] at hserver
  have hrunning : s.pc ≠ .returned := by
    rw [hpc]
    nofun
  exact ⟨s, hs, hrunning, (stuck_iff hrunning).mpr ⟨hpc, hserver, hbuf, hclient⟩⟩

end Step

/-! ## The main result -/

/-- **When the session comes to its end.**  It has no more than five calls for each byte and one more; and client
and server can get to wait for each other exactly when a line that the client reads begins with a NUL. -/
theorem echo_hangs_iff (text : List UInt8) :
    (∀ es s, (echo text).runFrom (Session.start text) es = some s → es.length ≤ 5 * text.length + 1) ∧
      ((∃ s, Hangs text s) ↔ Silent text) := by
  have hvariant : (echo text).Decreases Session.left := fun s e s' hs hstep => left_step (reads hs) hstep
  constructor
  · intro es s hes
    have hlength := hvariant.length_add_le .init hes
    simp only [echo, Session.left, Session.start, Pc.line, Pc.toRead, List.length_nil] at hlength
    omega
  · constructor
    · rintro ⟨s, hs, hpc, hstuck⟩
      by_contra hloud
      obtain ⟨hread, hserver, hbuf, hclient⟩ := (stuck_iff hpc).mp hstuck
      have hawaits := awaits hloud hs hread
      rw [hserver, hbuf, hclient] at hawaits
      exact absurd hawaits (Nat.lt_irrefl 0)
    · intro hsilent
      have hsilent' : ∃ k, (rest text k).head? = some 0 := hsilent
      classical
      have hfirst := Nat.find_spec hsilent'
      have hbefore : ∀ j < Nat.find hsilent', rest text j ≠ [] ∧ (rest text j).head? ≠ some 0 := by
        intro j hj
        refine ⟨fun hnil => ?_, Nat.find_min hsilent' hj⟩
        rw [rest_nil hj.le hnil] at hfirst
        cases hfirst
      obtain ⟨s, hs, hbetween⟩ := exists_between (Nat.find hsilent') hbefore
      exact hangs_of_between hs hbetween hfirst

end NetProg.BasicTcp
