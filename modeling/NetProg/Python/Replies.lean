/-
# NetProg.Python.Replies -- what the kernel accepted, against what was received.

A message is taken out of its queue, sent once, and not looked at again, whatever `send` returned; and when a
connection leaves, its queue is deleted with what is in it.  What was handed to `send` on a connection, with what is
still queued or was deleted, is the upper-cased received text at every loop head (`RepliesInv`).  So the kernel has
accepted that text, up to what is queued, exactly when every `send` took its whole message and nothing was deleted.
-/
import NetProg.Python.Bookkeeping

namespace NetProg.PySelectServer

/-! ## Reading the log -/

namespace Call

/-- The socket of a call. -/
def sock : Call → Sock
  | received s _ _ | sent s _ _ | deleted s _ => s

/-- The text received on `c`. -/
def textOn (c : Sock) : Call → List Char
  | received s _ text => if s = c then text else []
  | sent _ _ _ | deleted _ _ => []

/-- The text in a queue of `c` that was deleted. -/
def deletedOn (c : Sock) : Call → List Char
  | deleted s q => if s = c then q.flatten else []
  | received _ _ _ | sent _ _ _ => []

/-- The bytes handed to `send` on `c`. -/
def handedOn (c : Sock) : Call → List UInt8
  | received _ _ _ | deleted _ _ => []
  | sent s msg _ => if s = c then msg else []

/-- The bytes that the kernel accepted on `c`. -/
def acceptedOn (c : Sock) : Call → List UInt8
  | received _ _ _ | deleted _ _ => []
  | sent s msg count => if s = c then msg.take count else []

end Call

/-- The text received on `c` so far. -/
def receivedText (log : List Call) (c : Sock) : List Char := log.flatMap (Call.textOn c)

/-- The text that was still queued on `c` when its queue was deleted. -/
def deletedText (log : List Call) (c : Sock) : List Char := log.flatMap (Call.deletedOn c)

/-- All the bytes handed to `send` on `c`. -/
def handedBytes (log : List Call) (c : Sock) : List UInt8 := log.flatMap (Call.handedOn c)

/-- All the bytes that the kernel accepted on `c`. -/
def acceptedBytes (log : List Call) (c : Sock) : List UInt8 := log.flatMap (Call.acceptedOn c)

/-- Every `send` on `c` took its whole message. -/
def WholeSends (log : List Call) (c : Sock) : Prop := ∀ msg n, .sent c msg n ∈ log → msg.length ≤ n

/-- When the queue of `c` was deleted, no reply was in it. -/
def DeletedEmpty (upper : Char → List Char) (log : List Call) (c : Sock) : Prop :=
  ∀ q, .deleted c q ∈ log → q.flatten.flatMap upper = []

/-- What is queued on `c`: nothing, once its queue was deleted. -/
def queued (s : Server) (c : Sock) : List Char := ((s.msgQueue c).getD []).flatten

/-- The kernel has accepted the upper-cased received text, with the queued text removed from its end. -/
def RepliesComplete (upper : Char → List Char) (s : Server) (c : Sock) : Prop :=
  acceptedBytes s.log c ++ encode ((queued s c).flatMap upper) = encode ((receivedText s.log c).flatMap upper)

theorem queued_of_some {s : Server} {c : Sock} {q : List (List Char)} (hq : s.msgQueue c = some q) :
    queued s c = q.flatten := by
  rw [queued, hq]
  rfl

theorem deletedEmpty_iff {upper : Char → List Char} {log : List Call} {c : Sock} :
    DeletedEmpty upper log c ↔ (deletedText log c).flatMap upper = [] := by
  rw [deletedText, List.flatMap_assoc, List.flatMap_eq_nil_iff]
  constructor
  · intro h x hx
    cases x with
    | received | sent => rfl
    | deleted d q =>
      by_cases hd : d = c
      · subst hd
        simpa [Call.deletedOn] using h q hx
      · simp [Call.deletedOn, hd]
  · intro h q hq
    simpa [Call.deletedOn] using h _ hq

theorem wholeSends_cons {x : Call} {log : List Call} {c : Sock} :
    WholeSends (x :: log) c ↔ (∀ msg n, x = .sent c msg n → msg.length ≤ n) ∧ WholeSends log c := by
  constructor
  · intro h
    refine ⟨fun msg n hx => h msg n (hx ▸ List.mem_cons_self), fun msg n hmem => ?_⟩
    exact h msg n (List.mem_cons_of_mem x hmem)
  · rintro ⟨hx, hlog⟩ msg n hmem
    rcases List.mem_cons.mp hmem with rfl | hmem
    · exact hx msg n rfl
    · exact hlog msg n hmem

/-- A call hands over at least what is accepted, and as much only if the `send` was whole. -/
theorem accepted_le_handed (x : Call) (c : Sock) :
    (x.acceptedOn c).length ≤ (x.handedOn c).length ∧
      ((x.acceptedOn c).length = (x.handedOn c).length ↔ ∀ msg n, x = .sent c msg n → msg.length ≤ n) := by
  cases x with
  | received | deleted => simp [Call.acceptedOn, Call.handedOn]
  | sent s msg count =>
    by_cases hs : s = c
    · subst hs
      simp only [Call.acceptedOn, Call.handedOn, if_pos, List.length_take]
      refine ⟨by omega, ?_, ?_⟩
      · rintro hlength msg' n ⟨rfl, rfl⟩
        omega
      · intro hwhole
        have := hwhole msg count rfl
        omega
    · simp [Call.acceptedOn, Call.handedOn, hs]

theorem length_accepted (log : List Call) (c : Sock) :
    (acceptedBytes log c).length ≤ (handedBytes log c).length ∧
      ((acceptedBytes log c).length = (handedBytes log c).length ↔ WholeSends log c) := by
  induction log with
  | nil => simp [acceptedBytes, handedBytes, WholeSends]
  | cons x log ih =>
    obtain ⟨hx, hxiff⟩ := accepted_le_handed x c
    obtain ⟨hlog, hlogiff⟩ := ih
    rw [wholeSends_cons, ← hxiff, ← hlogiff]
    simp only [acceptedBytes, handedBytes, List.flatMap_cons, List.length_append] at hlog ⊢
    omega

/-- **The kernel has accepted everything exactly when every `send` was whole.** -/
theorem accepted_eq_handed_iff (log : List Call) (c : Sock) :
    acceptedBytes log c = handedBytes log c ↔ WholeSends log c := by
  constructor
  · intro h
    exact (length_accepted log c).2.mp (congrArg List.length h)
  · intro h
    induction log with
    | nil => rfl
    | cons x log ih =>
      rw [wholeSends_cons] at h
      simp only [acceptedBytes, handedBytes, List.flatMap_cons] at ih ⊢
      rw [ih h.2]
      cases x with
      | received | deleted => rfl
      | sent s msg count =>
        by_cases hs : s = c
        · subst hs
          simp [Call.acceptedOn, Call.handedOn, List.take_of_length_le (h.1 msg count rfl)]
        · simp [Call.acceptedOn, Call.handedOn, hs]

/-! ## The invariant -/

/-- Nothing received is lost on its way to `send`, but for what is deleted with its queue. -/
structure RepliesInv (upper : Char → List Char) (s : Server) : Prop where
  inv : Inv s
  old : ∀ x ∈ s.log, x.sock < s.made
  kept : ∀ c, (s.msgQueue c).isSome → deletedText s.log c = []
  conserved : ∀ c, handedBytes s.log c ++ encode ((queued s c ++ deletedText s.log c).flatMap upper) =
    encode ((receivedText s.log c).flatMap upper)

namespace RepliesInv

variable {upper : Char → List Char} {s t : Server} {c : Sock}

theorem start : RepliesInv upper Server.start where
  inv := Inv.start
  old := by simp [Server.start]
  kept := by simp [Server.start]
  conserved := by simp [Server.start, queued, handedBytes, deletedText, receivedText]

/-- Where a queue exists, nothing was deleted. -/
theorem conserved_open (hs : RepliesInv upper s) {q : List (List Char)} (hq : s.msgQueue c = some q) :
    handedBytes s.log c ++ encode (q.flatten.flatMap upper) = encode ((receivedText s.log c).flatMap upper) := by
  have h := hs.conserved c
  rwa [queued_of_some hq, hs.kept c (by simp [hq]), List.append_nil] at h

/-- A socket whose queue and calls stay as they were. -/
theorem conserved_congr (hs : RepliesInv upper s) {d : Sock} (hqueue : t.msgQueue d = s.msgQueue d)
    (hhanded : handedBytes t.log d = handedBytes s.log d) (htext : receivedText t.log d = receivedText s.log d)
    (hdeleted : deletedText t.log d = deletedText s.log d) :
    handedBytes t.log d ++ encode ((queued t d ++ deletedText t.log d).flatMap upper) =
      encode ((receivedText t.log d).flatMap upper) := by
  rw [hhanded, htext, hdeleted, queued, hqueue]
  exact hs.conserved d

/-- No call was made on a socket that does not exist yet. -/
theorem new_socket (hs : RepliesInv upper s) :
    handedBytes s.log s.made = [] ∧ receivedText s.log s.made = [] ∧ deletedText s.log s.made = [] := by
  have hne : ∀ x ∈ s.log, x.sock ≠ s.made := fun x hx => Nat.ne_of_lt (hs.old x hx)
  refine ⟨?_, ?_, ?_⟩
  · refine List.flatMap_eq_nil_iff.mpr fun x hx => ?_
    cases x with
    | received | deleted => rfl
    | sent d msg count => exact if_neg (hne _ hx)
  · refine List.flatMap_eq_nil_iff.mpr fun x hx => ?_
    cases x with
    | received d data text => exact if_neg (hne _ hx)
    | sent | deleted => rfl
  · refine List.flatMap_eq_nil_iff.mpr fun x hx => ?_
    cases x with
    | received | sent => rfl
    | deleted d q => exact if_neg (hne _ hx)

theorem addConn (hs : RepliesInv upper s) : RepliesInv upper s.addConn where
  inv := hs.inv.addConn
  old := fun x hx => Nat.lt_succ_of_lt (hs.old x hx)
  kept := by
    intro c hc
    by_cases hmade : c = s.made
    · rw [hmade]
      exact hs.new_socket.2.2
    · exact hs.kept c (by simpa [Server.addConn, Function.update_of_ne hmade] using hc)
  conserved := by
    intro c
    by_cases hc : c = s.made
    · subst hc
      obtain ⟨hhanded, htext, hdeleted⟩ := hs.new_socket
      simp [Server.addConn, queued, hhanded, htext, hdeleted]
    · exact hs.conserved_congr (t := s.addConn) (Function.update_of_ne hc _ _) rfl rfl rfl

theorem forget (hs : RepliesInv upper s) (hin : c ∈ s.inputs) (hc : c ≠ masterSocket) :
    RepliesInv upper (s.forget c) where
  inv := hs.inv.forget hin hc
  old := by
    intro x hx
    rcases List.mem_append.mp hx with hx | hx
    · exact hs.old x hx
    · rw [List.mem_singleton.mp hx]
      exact hs.inv.inputsMade c hin
  kept := by
    intro d hd
    by_cases hdc : d = c
    · simp [Server.forget, hdc] at hd
    · have hold := hs.kept d (by simpa [Server.forget, Function.update_of_ne hdc] using hd)
      simpa [Server.forget, deletedText, Call.deletedOn, Ne.symm hdc] using hold
  conserved := by
    intro d
    by_cases hd : d = c
    · -- what was queued is deleted
      subst hd
      have hkept : deletedText s.log d = [] := hs.kept d ((hs.inv.keys d).mpr ⟨hin, hc⟩)
      have hold := hs.conserved d
      simp only [deletedText, handedBytes, receivedText, queued] at hkept hold
      simpa [Server.forget, queued, handedBytes, receivedText, deletedText, Call.handedOn, Call.textOn,
        Call.deletedOn, hkept] using hold
    · refine hs.conserved_congr (t := s.forget c) (Function.update_of_ne hd _ _) ?_ ?_ ?_
      · simp [Server.forget, handedBytes, Call.handedOn]
      · simp [Server.forget, receivedText, Call.textOn]
      · simp [Server.forget, deletedText, Call.deletedOn, Ne.symm hd]

theorem enqueue (hs : RepliesInv upper s) {q : List (List Char)} (hq : s.msgQueue c = some q)
    (data : List UInt8) (text : List Char) : RepliesInv upper (s.enqueue c q data text) where
  inv := hs.inv.enqueue hq data text
  old := by
    have hc : c < s.made := hs.inv.inputsMade c ((hs.inv.keys c).mp (by simp [hq])).1
    intro x hx
    rw [Server.enqueue_log, List.mem_append, List.mem_singleton] at hx
    rw [Server.enqueue_made]
    rcases hx with hx | rfl
    · exact hs.old x hx
    · exact hc
  kept := by
    intro d hd
    have hdeleted : deletedText (s.enqueue c q data text).log d = deletedText s.log d := by
      simp [deletedText, Call.deletedOn]
    rw [hdeleted]
    rw [Server.enqueue_msgQueue] at hd
    by_cases hdc : d = c
    · exact hs.kept d (by simp [hdc, hq])
    · exact hs.kept d (by simpa [Function.update_of_ne hdc] using hd)
  conserved := by
    intro d
    by_cases hd : d = c
    · subst hd
      have hkept : deletedText s.log d = [] := hs.kept d (by simp [hq])
      have hold := hs.conserved_open hq
      simp only [deletedText] at hkept
      simp only [queued, Server.enqueue_msgQueue, Server.enqueue_log, Function.update_self, Option.getD_some,
        handedBytes, receivedText, deletedText, List.flatMap_append, List.flatMap_cons, List.flatMap_nil,
        Call.handedOn, Call.textOn, Call.deletedOn, if_pos, List.append_nil, List.flatten_append, List.flatten_cons,
        List.flatten_nil, encode_append, hkept] at hold ⊢
      rw [← List.append_assoc, hold]
    · refine hs.conserved_congr (t := s.enqueue c q data text) ?_ ?_ ?_ ?_
      · rw [Server.enqueue_msgQueue, Function.update_of_ne hd]
      · simp [handedBytes, Call.handedOn]
      · simp [receivedText, Call.textOn, Ne.symm hd]
      · simp [deletedText, Call.deletedOn]

theorem sends (hs : RepliesInv upper s) {msg : List Char} {q : List (List Char)}
    (hq : s.msgQueue c = some (msg :: q)) (n : ℕ)
    (hinv : Inv (s.sends c q (encode (msg.flatMap upper)) n)) :
    RepliesInv upper (s.sends c q (encode (msg.flatMap upper)) n) where
  inv := hinv
  old := by
    have hc : c < s.made := hs.inv.inputsMade c ((hs.inv.keys c).mp (by simp [hq])).1
    intro x hx
    rcases List.mem_append.mp hx with hx | hx
    · exact hs.old x hx
    · rw [List.mem_singleton.mp hx]
      exact hc
  kept := by
    intro d hd
    have hdeleted : deletedText (s.sends c q (encode (msg.flatMap upper)) n).log d = deletedText s.log d := by
      simp [Server.sends, deletedText, Call.deletedOn]
    rw [hdeleted]
    by_cases hdc : d = c
    · exact hs.kept d (by simp [hdc, hq])
    · exact hs.kept d (by simpa [Server.sends, Function.update_of_ne hdc] using hd)
  conserved := by
    intro d
    by_cases hd : d = c
    · -- the head of the queue moves to what was handed over
      subst hd
      have hkept : deletedText s.log d = [] := hs.kept d (by simp [hq])
      have hold := hs.conserved_open hq
      simp only [deletedText] at hkept
      simpa [Server.sends, queued, handedBytes, receivedText, deletedText, Call.handedOn, Call.textOn,
        Call.deletedOn, hkept] using hold
    · refine hs.conserved_congr (t := s.sends c q (encode (msg.flatMap upper)) n)
        (Function.update_of_ne hd _ _) ?_ ?_ ?_
      · simp [Server.sends, handedBytes, Call.handedOn, Ne.symm hd]
      · simp [Server.sends, receivedText, Call.textOn]
      · simp [Server.sends, deletedText, Call.deletedOn]

theorem pass (hs : RepliesInv upper s) {e : Ready} (h : pass upper s e = .ok t) :
    RepliesInv upper t := by
  obtain ⟨s₁, s₂, h₁, h₂, h₃⟩ := pass_eq_ok.mp h
  have hs₁ : RepliesInv upper s₁ := by
    refine foldlM_keeps (fun s r t _ hs h => ?_) hs h₁
    cases onReadable_eq_ok.mp h with
    | accept => exact hs.addConn
    | eof hc _ _ _ _ hin _ => exact hs.forget hin hc
    | data _ _ _ _ _ hq => exact hs.enqueue hq _ _
  have hs₂ : RepliesInv upper s₂ := by
    refine foldlM_keeps (fun s w t _ hs h => ?_) hs₁ h₂
    have hstep := onWritable_eq_ok.mp h
    have hinv := hs.inv.writeStep hstep
    cases hstep with
    | empty => exact ⟨hinv, hs.old, hs.kept, hs.conserved⟩
    | send hq => exact hs.sends hq _ hinv
  refine foldlM_keeps (fun s x t _ hs h => ?_) hs₂ h₃
  cases onExceptional_eq_ok.mp h with
  | @gone c _ hin hkey => exact hs.forget hin ((hs.inv.keys c).mp hkey).2

theorem atHead (hs : AtHead (selectServer upper) s) : RepliesInv upper s :=
  atHead_of_pass start (fun _ _ _ _ hs _ h => hs.pass h) hs

/-- The kernel has accepted no more than was handed over, and handed over was all but what was deleted. -/
theorem complete_iff (hs : RepliesInv upper s) (c : Sock) :
    RepliesComplete upper s c ↔ WholeSends s.log c ∧ DeletedEmpty upper s.log c := by
  rw [RepliesComplete, ← hs.conserved c, ← accepted_eq_handed_iff, deletedEmpty_iff, List.flatMap_append,
    encode_append, ← List.append_assoc]
  constructor
  · intro h
    have hle := (length_accepted s.log c).1
    have hlength := congrArg List.length h
    simp only [List.length_append] at hlength
    have hwhole : WholeSends s.log c := (length_accepted s.log c).2.mp (by omega)
    exact ⟨(accepted_eq_handed_iff s.log c).mpr hwhole,
      encode_eq_nil.mp (List.length_eq_zero_iff.mp (by omega))⟩
  · rintro ⟨haccepted, hdeleted⟩
    rw [haccepted, hdeleted, encode_nil, List.append_nil]

end RepliesInv

/-! ## The main result -/

/-- **A connection's replies are complete exactly when every `send` on it took its whole message**, and no reply was
left in its queue when the queue was deleted; whether it is open or not. -/
theorem selectServer_repliesComplete_iff (upper : Char → List Char) {s : Server}
    (hs : AtHead (selectServer upper) s) (c : Sock) :
    RepliesComplete upper s c ↔ WholeSends s.log c ∧ DeletedEmpty upper s.log c :=
  (RepliesInv.atHead hs).complete_iff c

/-- Two clients that said "hi": the first one was answered and has said "ok", the second one was answered and has
left. -/
theorem selectServer_repliesComplete_iff_twoClients :
    ∃ s, AtHead (selectServer asciiUpper) s ∧ s.msgQueue 1 = some [['o', 'k']] ∧ s.msgQueue 2 = none ∧
      receivedText s.log 2 = ['h', 'i'] ∧ RepliesComplete asciiUpper s 1 ∧ RepliesComplete asciiUpper s 2 := by
  obtain ⟨s, hs, hend⟩ := exists_atHead_of_run (selectServer asciiUpper)
    [smooth [(0, [])] [], smooth [(0, []), (1, [104, 105])] [], smooth [(2, [104, 105])] [(1, 2)],
      smooth [] [(2, 2)], smooth [(1, [111, 107]), (2, [])] []]
    (fun s => s.msgQueue 1 == some [['o', 'k']] && s.msgQueue 2 == none && s.log == [.received 1 [104, 105] ['h', 'i'],
      .received 2 [104, 105] ['h', 'i'], .sent 1 [72, 73] 2, .sent 2 [72, 73] 2, .received 1 [111, 107] ['o', 'k'],
      .deleted 2 []])
    (by decide +kernel)
  simp only [Bool.and_eq_true, beq_iff_eq] at hend
  obtain ⟨⟨hopen, hclosed⟩, hlog⟩ := hend
  have hall : ∀ c, WholeSends s.log c ∧ DeletedEmpty asciiUpper s.log c := by
    intro c
    rw [hlog]
    constructor
    · intro msg n hmem
      have hboth : msg = [72, 73] ∧ n = 2 := by
        simp only [List.mem_cons, Call.sent.injEq, reduceCtorEq, List.not_mem_nil, or_false, false_or] at hmem
        exact hmem.elim And.right And.right
      rw [hboth.1, hboth.2]
      exact Nat.le_refl _
    · intro q hmem
      obtain rfl : q = [] := by
        simp only [List.mem_cons, Call.deleted.injEq, reduceCtorEq, List.not_mem_nil, or_false, false_or] at hmem
        exact hmem.2
      rfl
  refine ⟨s, hs, hopen, hclosed, by rw [hlog]; rfl, ?_, ?_⟩
  · exact (selectServer_repliesComplete_iff asciiUpper hs 1).mpr (hall 1)
  · exact (selectServer_repliesComplete_iff asciiUpper hs 2).mpr (hall 2)

/-- Two clients say "hi".  `send` takes one byte of the first one's reply, and the other one is gone; the second one
closes its sending side, and its reply is deleted with its queue. -/
theorem selectServer_dropsBytes :
    ∃ s, AtHead (selectServer asciiUpper) s ∧
      (s.msgQueue 1 = some [] ∧ receivedText s.log 1 = ['h', 'i'] ∧ acceptedBytes s.log 1 = [72] ∧
        ¬ RepliesComplete asciiUpper s 1) ∧
      s.msgQueue 2 = none ∧ receivedText s.log 2 = ['h', 'i'] ∧ acceptedBytes s.log 2 = [] ∧
        ¬ RepliesComplete asciiUpper s 2 := by
  obtain ⟨s, hs, hend⟩ := exists_atHead_of_run (selectServer asciiUpper)
    [smooth [(0, [])] [], smooth [(0, []), (1, [104, 105])] [], smooth [(2, [104, 105])] [(1, 1)], smooth [(2, [])] []]
    (fun s => s.msgQueue 1 == some [] && s.msgQueue 2 == none && s.log == [.received 1 [104, 105] ['h', 'i'],
      .received 2 [104, 105] ['h', 'i'], .sent 1 [72, 73] 1, .deleted 2 [['h', 'i']]])
    (by decide +kernel)
  simp only [Bool.and_eq_true, beq_iff_eq] at hend
  obtain ⟨⟨hopen, hclosed⟩, hlog⟩ := hend
  have hreply : ∀ c bs q, acceptedBytes s.log c = bs → queued s c = q → receivedText s.log c = ['h', 'i'] →
      bs ++ encode (q.flatMap asciiUpper) ≠ encode (['h', 'i'].flatMap asciiUpper) →
      ¬ RepliesComplete asciiUpper s c := by
    rintro c bs q rfl rfl htext hne hcomplete
    rw [RepliesComplete, htext] at hcomplete
    exact hne hcomplete
  have h₁ : acceptedBytes s.log 1 = [72] ∧ receivedText s.log 1 = ['h', 'i'] := by
    rw [hlog]
    exact ⟨rfl, rfl⟩
  have h₂ : acceptedBytes s.log 2 = [] ∧ receivedText s.log 2 = ['h', 'i'] := by
    rw [hlog]
    exact ⟨rfl, rfl⟩
  refine ⟨s, hs, ⟨hopen, h₁.2, h₁.1, ?_⟩, hclosed, h₂.2, h₂.1, ?_⟩
  · exact hreply 1 [72] [] h₁.1 (by rw [queued, hopen]; rfl) h₁.2 (by decide +kernel)
  · exact hreply 2 [] [] h₂.1 (by rw [queued, hclosed]; rfl) h₂.2 (by decide +kernel)

end NetProg.PySelectServer
