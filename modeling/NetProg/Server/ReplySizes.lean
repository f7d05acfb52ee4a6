/-
# NetProg.Server.ReplySizes -- which messages the four echo servers can answer.

A reply fits into its 256 bytes when the bytes of the message before its first NUL leave room for the text
before `%s` and for the NUL.  `select_server` receives at most 255 bytes into a cleared buffer, so its argument
always ends with a NUL; the other three may receive 256.  None of them looks at the length before `sprintf`:
their runs are defined exactly as long as every message is short enough.
-/
import NetProg.Server.EchoServers

namespace NetProg.SelectServer

variable {n : ℕ} {h : Host} {s : Srv n} {ans : ReadAnswer}

/-! ## The buffer of `select_server` -/

/-- What `recv` leaves in the cleared buffer. -/
theorem recvBuf_data {bs : List UInt8} (hbs : bs.length ≤ bufSize) :
    recvBuf (.data bs) = (store (cleared bufSize) 0 bs).toList := by
  rw [toList_store _ hbs]
  simp [recvBuf, cleared]

/-- One byte is kept for the NUL. -/
theorem nul_mem_recvBuf (hans : RecvAdmits ans) : (0 : UInt8) ∈ recvBuf ans := by
  cases ans with
  | error => exact List.mem_replicate.mpr ⟨by decide, rfl⟩
  | data bs =>
    have hbs : bs.length ≤ bufSize - 1 := hans
    refine List.mem_append_right bs (List.mem_replicate.mpr ⟨?_, rfl⟩)
    unfold bufSize at hbs ⊢
    omega

theorem fits_error : fits .error = true := by decide

theorem fits_data_iff {bs : List UInt8} (hbs : bs.length ≤ bufSize - 1) :
    fits (.data bs) = true ↔ (untilNul bs).length ≤ 243 := by
  have hlt : bs.length < bufSize := Nat.lt_of_le_of_lt hbs (by decide)
  have hadmits : RecvAdmits (.data bs) := hbs
  have hstring := cString_store_cleared (Nat.le_of_lt hlt : bs.length ≤ bufSize)
  rw [if_pos (Nat.lt_of_le_of_lt (length_untilNul_le bs) hlt), ← recvBuf_data (Nat.le_of_lt hlt),
    cString_of_mem (nul_mem_recvBuf hadmits), Option.some.injEq] at hstring
  have htext : echoText (recvBuf (.data bs)) = cstr "ECHO BACK : " ++ untilNul bs :=
    congrArg (cstr "ECHO BACK : " ++ ·) hstring
  have hpre : (cstr "ECHO BACK : ").length = 12 := rfl
  rw [fits, decide_eq_true_iff, htext, List.length_append, hpre]
  unfold bufSize
  omega

/-! ## One pass -/

/-- Every reply to what was received in this pass fits. -/
def AllFit (evs : List (Ev n)) : Prop := ∀ fd ans, Ev.recv fd ans ∈ evs → fits ans = true

theorem mem_receive {i : Fin n} {fd : ℤ} {ans' : ReadAnswer} :
    Ev.recv fd ans' ∈ (s.receive i ans).evs ↔
      Ev.recv fd ans' ∈ s.evs ∨ fd = s.cliSocks i ∧ ans' = ans := by
  unfold Srv.receive
  split_ifs <;> simp [Srv.drop, Srv.log]

theorem allFit_receive {i : Fin n} (hs : AllFit s.evs) :
    AllFit (s.receive i ans).evs ↔ fits ans = true := by
  constructor
  · intro hall
    exact hall (s.cliSocks i) ans (mem_receive.mpr (.inr ⟨rfl, rfl⟩))
  · intro hfits fd ans' hmem
    rcases mem_receive.mp hmem with hwas | ⟨-, rfl⟩
    · exact hs fd ans' hwas
    · exact hfits

/-- The scan is defined exactly when all its replies fit. -/
theorem scan_isUndef (a : Answers n) (is : List (Fin n)) (hs : AllFit s.evs) :
    (s.scan a is).isUndef = false ↔ AllFit (s.scan a is).state.evs := by
  induction is generalizing s with
  | nil => exact iff_of_true rfl hs
  | cons i is ih =>
    unfold Srv.scan
    split_ifs with hlt hfree hready
    · exact ih hs
    · cases hfits : fits (a.recv i) with
      | true =>
        have hnext : AllFit ((s.receive i (a.recv i)).log
            (.send (s.cliSocks i) (echoText (recvBuf (a.recv i))))).evs := by
          intro fd ans hmem
          have hmem : Ev.recv fd ans ∈ (s.receive i (a.recv i)).evs := by simpa [Srv.log] using hmem
          exact (allFit_receive hs).mpr hfits fd ans hmem
        simp only [Srv.serve, Srv.echoBack, hfits, if_true]
        unfold Srv.signal
        split_ifs
        · exact iff_of_true rfl hnext
        · exact ih hnext
      | false =>
        simp only [Srv.serve, Srv.echoBack, hfits, Bool.false_eq_true, if_false, Flow.andThen_undef]
        refine iff_of_false Bool.noConfusion fun hall => ?_
        have htrue := (allFit_receive hs).mp hall
        rw [hfits] at htrue
        cases htrue
    · exact ih hs
    · exact iff_of_true rfl hs

/-- What the scan received was there before, or was answered to one of its `recv` calls. -/
theorem mem_scan {a : Answers n} {is : List (Fin n)} {fd : ℤ}
    (hmem : Ev.recv fd ans ∈ (s.scan a is).state.evs) : Ev.recv fd ans ∈ s.evs ∨ ∃ i, ans = a.recv i := by
  induction is generalizing s with
  | nil => exact .inl hmem
  | cons i is ih =>
    unfold Srv.scan at hmem
    split_ifs at hmem with hlt hfree hready
    · exact ih hmem
    · have hserve : Ev.recv fd ans ∈ (s.receive i (a.recv i)).evs → Ev.recv fd ans ∈ s.evs ∨
          ∃ i, ans = a.recv i := by
        intro hin
        rcases mem_receive.mp hin with hwas | ⟨-, rfl⟩
        · exact .inl hwas
        · exact .inr ⟨i, rfl⟩
      cases hfits : fits (a.recv i) with
      | true =>
        simp only [Srv.serve, Srv.echoBack, hfits, if_true] at hmem
        unfold Srv.signal at hmem
        split_ifs at hmem
        · exact hserve (by simpa [Flow.state, Srv.log] using hmem)
        · rcases ih hmem with hwas | hnew
          · exact hserve (by simpa [Srv.log] using hwas)
          · exact .inr hnew
      | false =>
        simp only [Srv.serve, Srv.echoBack, hfits, Bool.false_eq_true, if_false,
          Flow.andThen_undef] at hmem
        exact hserve hmem
    · exact ih hmem
    · exact .inl hmem

/-- Up to the scan nothing is received. -/
theorem not_mem_listener {a : SelectAnswer} {newSock fd : ℤ} {pipe : Bool} :
    Ev.recv fd ans ∉ ((s.select a).listener h newSock pipe).state.evs := by
  have hselect : (s.select a).evs = [] := by cases a <;> rfl
  unfold Srv.listener
  split_ifs
  · simp [Flow.state, Srv.log, hselect]
  · simp [Flow.state, Srv.accept, Srv.refuse, Srv.log, hselect]
  · rw [Srv.state_signal]
    unfold Srv.store
    split <;> simp [Srv.accept, Srv.keep, Srv.log, hselect]
  · simp [Flow.state, hselect]

/-- **A pass is defined exactly when all its replies fit.** -/
theorem body_isUndef (s : Srv n) (a : Answers n) :
    (s.body h a).isUndef = false ↔ AllFit (s.body h a).state.evs := by
  have hnone : AllFit ((s.select a.select).listener h a.accept a.acceptPipe).state.evs :=
    fun fd ans hmem => absurd hmem not_mem_listener
  have hselect : AllFit (s.select a.select).evs := by
    intro fd ans hmem
    have hempty : (s.select a.select).evs = [] := by cases a.select <;> rfl
    rw [hempty] at hmem
    cases hmem
  unfold Srv.body
  split
  · exact iff_of_true rfl hselect
  · exact iff_of_true rfl hselect
  · exact iff_of_true rfl hselect
  · cases hlistener : (s.select a.select).listener h a.accept a.acceptPipe with
    | next t =>
      rw [hlistener] at hnone
      exact scan_isUndef a _ hnone
    | again t | ret t | exit msg t =>
      rw [hlistener] at hnone
      exact iff_of_true rfl hnone
    | undef t =>
      unfold Srv.listener Srv.signal at hlistener
      split_ifs at hlistener

theorem mem_body {a : Answers n} {fd : ℤ} (hmem : Ev.recv fd ans ∈ (s.body h a).state.evs) :
    ∃ i, ans = a.recv i := by
  have hempty : (s.select a.select).evs = [] := by cases a.select <;> rfl
  unfold Srv.body at hmem
  split at hmem
  · rw [Flow.state, hempty] at hmem
    cases hmem
  · rw [Flow.state, hempty] at hmem
    cases hmem
  · rw [Flow.state, hempty] at hmem
    cases hmem
  · cases hlistener : (s.select a.select).listener h a.accept a.acceptPipe with
    | next t =>
      rw [hlistener] at hmem
      rcases mem_scan hmem with hwas | hnew
      · refine absurd hwas ?_
        have hnot : Ev.recv fd ans ∉ ((s.select a.select).listener h a.accept a.acceptPipe).state.evs :=
          not_mem_listener
        rwa [hlistener] at hnot
      · exact hnew
    | again t | ret t | exit msg t | undef t =>
      rw [hlistener] at hmem
      refine absurd hmem ?_
      have hnot : Ev.recv fd ans ∉ ((s.select a.select).listener h a.accept a.acceptPipe).state.evs :=
        not_mem_listener
      rwa [hlistener] at hnot

/-! ## Every run -/

/-- What was received in the last pass could be received. -/
theorem recv_admits {f : Flow (Srv n)} (hf : (server n h).Reachable f) {fd : ℤ}
    (hmem : Ev.recv fd ans ∈ f.state.evs) : RecvAdmits ans := by
  refine whileLoop_invariant (I := fun s => ∀ fd ans, Ev.recv fd ans ∈ s.evs → RecvAdmits ans)
    ?_ ?_ hf fd ans hmem
  · intro fd ans hmem
    cases hmem
  · intro s a _ _ hadmits fd ans hmem
    obtain ⟨i, rfl⟩ := mem_body hmem
    exact hadmits.2.2 i

/-- **A run of `select_server` is defined exactly when the replies of its last pass fit.** -/
theorem isUndef_iff {f : Flow (Srv n)} (hf : (server n h).Reachable f) :
    f.isUndef = false ↔
      ∀ fd bs, Ev.recv fd (.data bs) ∈ f.state.evs → (untilNul bs).length ≤ 243 := by
  have hall : f.isUndef = false ↔ AllFit f.state.evs := by
    refine (server n h).invariant (P := fun f => f.isUndef = false ↔ AllFit f.state.evs) ?_ ?_ hf
    · exact iff_of_true rfl fun fd ans hmem => by cases hmem
    · intro f a f' _ _ hstep
      obtain ⟨s, rfl, -, rfl⟩ := whileLoop_step.mp hstep
      rw [Flow.isUndef_loopBack, Flow.state_loopBack]
      exact body_isUndef s a
  rw [hall]
  constructor
  · intro hfit fd bs hmem
    exact (fits_data_iff (recv_admits hf hmem)).mp (hfit fd _ hmem)
  · intro hshort fd ans hmem
    cases ans with
    | error => exact fits_error
    | data bs => exact (fits_data_iff (recv_admits hf hmem)).mpr (hshort fd bs hmem)

end NetProg.SelectServer

namespace NetProg.EchoServer

open SelectServer (selectServer recvBuf)

/-- **When the replies of the four echo servers fit.** A run has no undefined `sprintf` exactly when each
message has at most 243 bytes before its first NUL (244 in `unix_stream_server`); in `select_server`, each
message of the last pass, and there the argument ends with a NUL in any case. -/
theorem replies_fit_iff (h : Host) :
    (∀ f, (selectServer h).Reachable f →
      (f.isUndef = false ↔
        ∀ fd bs, SelectServer.Ev.recv fd (.data bs) ∈ f.state.evs → (untilNul bs).length ≤ 243) ∧
      ∀ fd ans, SelectServer.Ev.recv fd ans ∈ f.state.evs → 0 ∈ recvBuf ans) ∧
    (∀ f, (server BasicUdp.dgEcho).Reachable f →
      (f.isUndef = false ↔ ∀ bs ∈ f.state.received, (untilNul bs).length ≤ 243)) ∧
    (∀ f, (server UnixDgram.dgEcho).Reachable f →
      (f.isUndef = false ↔ ∀ bs ∈ f.state.received, (untilNul bs).length ≤ 243)) ∧
    ∀ f, (server UnixStream.strEcho).Reachable f →
      (f.isUndef = false ↔ ∀ bs ∈ f.state.received, (untilNul bs).length ≤ 244) := by
  refine ⟨?_, ?_, ?_, ?_⟩
  · intro f hf
    refine ⟨SelectServer.isUndef_iff hf, ?_⟩
    intro fd ans hmem
    exact SelectServer.nul_mem_recvBuf (SelectServer.recv_admits hf hmem)
  · exact fun f hf => BasicUdp.serves.isUndef_iff_length (by decide) hf
  · exact fun f hf => UnixDgram.serves.isUndef_iff_length (by decide) hf
  · exact fun f hf => UnixStream.serves.isUndef_iff_length (by decide) hf

/-- One message is received. -/
def oneMessage (round : Echo → Answers → Flow Echo) (bs : List UInt8) : Flow Echo :=
  (round Echo.start ⟨.data bs, .sent⟩).loopBack

theorem oneMessage_reachable (round : Echo → Answers → Flow Echo) {bs : List UInt8}
    (hbs : bs.length ≤ bufSize) : (server round).Reachable (oneMessage round bs) :=
  AtHead.start.pass hbs

theorem oneMessage_received {pre : List UInt8} {round : Echo → Answers → Flow Echo}
    (h : Serves pre round) (bs : List UInt8) : (oneMessage round bs).state.received = [bs] := by
  rw [oneMessage, Flow.state_loopBack]
  exact (h.data Echo.start bs .sent).1

/-- `k` bytes and no NUL. -/
def letters (k : ℕ) : List UInt8 := List.replicate k 65

theorem length_letters (k : ℕ) : (letters k).length = k := List.length_replicate

theorem length_untilNul_letters (k : ℕ) : (untilNul (letters k)).length = k := by
  have hnot : (0 : UInt8) ∉ letters k := by simp [letters, List.mem_replicate]
  rw [untilNul_of_not_mem hnot, length_letters]

theorem letters_244 : (letters 244).length ≤ bufSize := by
  rw [length_letters]
  decide

/-- 244 bytes are one too many for `basic_udp_server`, and just fit in `unix_stream_server`. -/
theorem replies_fit_iff_244 :
    (oneMessage BasicUdp.dgEcho (letters 244)).isUndef = true ∧
      (oneMessage UnixStream.strEcho (letters 244)).isUndef = false := by
  constructor
  · have hiff := (replies_fit_iff demoHost).2.1 _ (oneMessage_reachable BasicUdp.dgEcho letters_244)
    rw [oneMessage_received BasicUdp.serves, List.forall_mem_singleton, length_untilNul_letters] at hiff
    exact Bool.eq_true_of_not_eq_false fun h => absurd (hiff.mp h) (by decide)
  · rw [(replies_fit_iff demoHost).2.2.2 _ (oneMessage_reachable UnixStream.strEcho letters_244),
      oneMessage_received UnixStream.serves, List.forall_mem_singleton, length_untilNul_letters]

/-- **A datagram of 244 bytes overflows the send buffer** of `basic_udp_server`. -/
theorem reply_overflows : ∃ f, (server BasicUdp.dgEcho).Reachable f ∧
    f.state.received = [letters 244] ∧ f.isUndef = true := by
  refine ⟨_, oneMessage_reachable BasicUdp.dgEcho letters_244, oneMessage_received BasicUdp.serves _, ?_⟩
  have hbad : ¬ Formats echoBack (letters 244) := by
    rw [formats_iff (by decide) letters_244, length_untilNul_letters]
    decide
  rw [oneMessage, Flow.isUndef_loopBack]
  exact Bool.eq_true_of_not_eq_false fun h => hbad ((BasicUdp.serves.data _ _ _).2.mp h)

end NetProg.EchoServer
