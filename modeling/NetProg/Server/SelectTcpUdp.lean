/-
# NetProg.Server.SelectTcpUdp -- the UDP echo of `C/select_tcp_udp_server.c`.

One `select` loop serves a TCP listener, whose connections go to child processes, and a UDP socket, whose
datagrams are echoed by the loop itself.  Unlike in the other echo servers `udp_recv_buf` is never cleared:
what a datagram does not overwrite stays from the ones before it, and `sprintf` reads on up to the next NUL.

`residue history k` is the byte that a history leaves at offset `k`: that of the last datagram that was longer
than `k`, or the zero of the initialiser.  A reply holds its own datagram and nothing else exactly when the
residue right behind the datagram is a NUL.
-/
import NetProg.Server.EchoServers

namespace NetProg.SelectTcpUdp

open EchoServer

/-! ## The server -/

/-- `select`: `-1` with `errno` equal to EINTR or not, `0`, or which of the two sockets are ready. -/
inductive SelectAnswer where
  | error (eintr : Bool)
  | timeout
  | ready (listenfd udpfd : Bool)
  deriving DecidableEq, Repr

/-- The kernel's answers in one pass; `accept` and `fork` succeed or not. -/
structure Answers where
  select : SelectAnswer
  accept : Bool
  fork : Bool
  recv : RecvAnswer
  deriving DecidableEq, Repr

/-- The block under `FD_ISSET (listenfd, &rfds)`: the child runs `process` and exits, the parent goes on. -/
def tcp (s : Echo) (a : Answers) : Flow Echo :=
  if a.accept then
    if a.fork then .next s else .exit "[ERROR] fork" s
  else .exit "[ERROR] accept" s

/-- The block under `FD_ISSET (udpfd, &rfds)`. -/
def udp (s : Echo) (recv : RecvAnswer) : Flow Echo :=
  match recv with
  | .error _ => .exit "recvfrom" s
  | .data bs => ((s.receive bs).print.andThen (Echo.format echoBack)).andThen Echo.send

/-- One pass of the `while (1)`. -/
def body (s : Echo) (a : Answers) : Flow Echo :=
  match a.select with
  | .error true => .again s
  | .error false => .exit "[ERROR] select" s
  | .timeout => .next s
  | .ready listenfd udpfd =>
    (if listenfd then tcp s a else .next s).andThen fun s => if udpfd then udp s a.recv else .next s

def server : System (Flow Echo) Answers := whileLoop body (fun _ a => a.recv.Admits) Echo.start

/-! ## What is left in the buffer -/

/-- The byte at offset `k` of the buffer after the datagrams of `history`. -/
def residue (history : List (List UInt8)) (k : ℕ) : UInt8 := history.foldl (fun b d => d.getD k b) 0

/-- Datagrams that do not reach `k` leave the zero there. -/
theorem residue_of_le {history : List (List UInt8)} {k : ℕ} (h : ∀ d ∈ history, d.length ≤ k) :
    residue history k = 0 := by
  induction history using List.reverseRecOn with
  | nil => rfl
  | append_singleton history d ih =>
    rw [List.forall_mem_append, List.forall_mem_singleton] at h
    have hd : d[k]? = none := List.getElem?_eq_none h.2
    have hkeep : residue (history ++ [d]) k = residue history k := by
      simp [residue, List.foldl_append, List.getD_eq_getElem?_getD, hd]
    rw [hkeep]
    exact ih h.1

/-- The buffer holds the residues of the datagrams received. -/
def Holds (s : Echo) : Prop := ∀ k < bufSize, s.recvMsg.toList[k]? = some (residue s.received k)

theorem Holds.start : Holds Echo.start := by
  intro k hk
  simp [Echo.start, cleared, residue, hk]

theorem Holds.receive {s : Echo} (h : Holds s) (bs : List UInt8) : Holds (s.receive bs) := by
  intro k hk
  have hold : s.recvMsg[k] = residue s.received k := by
    have hget := h k hk
    simpa [hk] using hget
  have hstore : (store s.recvMsg 0 bs).toList[k]? = some (bs.getD k s.recvMsg[k]) := by
    simpa using getElem?_store s.recvMsg 0 bs k hk
  rw [Echo.receive, hstore, hold]
  simp [residue, List.foldl_append]

/-- The receive buffer is only written by `recvfrom`. -/
theorem Holds.of_eq {s s' : Echo} (h : Holds s) (hbuf : s'.recvMsg = s.recvMsg)
    (hreceived : s'.received = s.received) : Holds s' := by
  unfold Holds
  rw [hbuf, hreceived]
  exact h

theorem Holds.udp {s : Echo} (h : Holds s) (recv : RecvAnswer) :
    (SelectTcpUdp.udp s recv).Holds Holds := by
  cases recv with
  | error eintr => exact h
  | data bs =>
    have hreceive := h.receive bs
    rw [SelectTcpUdp.udp]
    cases ht : cString (s.receive bs).recvMsg.toList with
    | none =>
      rw [Echo.print_undef ht]
      exact hreceive
    | some t =>
      rw [Echo.print_next ht, Flow.andThen_next]
      unfold Echo.format
      split
      · rw [Flow.andThen_next]
        unfold Echo.send
        split <;> exact hreceive.of_eq rfl rfl
      · exact hreceive

theorem Holds.body {s : Echo} (h : Holds s) (a : Answers) : (SelectTcpUdp.body s a).Holds Holds := by
  have htcp : (SelectTcpUdp.tcp s a).Splits (· = s) Holds := by
    unfold SelectTcpUdp.tcp
    split_ifs
    · rfl
    · exact h
    · exact h
  unfold SelectTcpUdp.body
  split
  · exact h
  · exact h
  · exact h
  · rename_i listenfd udpfd _
    have hfirst : (if listenfd then SelectTcpUdp.tcp s a else .next s).Splits (· = s) Holds := by
      split_ifs
      · exact htcp
      · rfl
    cases hflow : (if listenfd then SelectTcpUdp.tcp s a else Flow.next s) with
    | next t =>
      rw [hflow] at hfirst
      obtain rfl : t = s := hfirst
      rw [Flow.andThen_next]
      split_ifs
      · exact h.udp a.recv
      · exact h
    | again t | ret t | exit msg t | undef t =>
      rw [hflow] at hfirst
      exact hfirst

/-- **At every loop head the buffer holds what the history left in it.** -/
theorem Holds.atHead {s : Echo} (hs : AtHead server s) : Holds s :=
  whileLoop_invariant Holds.start (fun _ a _ ih _ => ih.body a) hs

/-- The whole buffer. -/
theorem Holds.toList {s : Echo} (h : Holds s) :
    s.recvMsg.toList = (List.range bufSize).map (residue s.received) := by
  apply List.ext_getElem?
  intro k
  by_cases hk : k < bufSize
  · rw [h k hk]
    simp [hk]
  · rw [List.getElem?_eq_none (by simpa using hk), List.getElem?_eq_none (by simpa using hk)]

/-! ## The reply to one datagram -/

/-- The datagram `d` is answered with `r`. -/
def Replies (s : Echo) (d r : List UInt8) : Prop :=
  ∃ s', udp s (.data d) = .next s' ∧ s'.received = s.received ++ [d] ∧ s'.sent = s.sent ++ [r]

variable {s : Echo} {d r : List UInt8}

theorem replies_iff : Replies s d r ↔ ∃ t, cString (s.receive d).recvMsg.toList = some t ∧
    (echoBack ++ t).length + 1 ≤ bufSize ∧ r = echoBack ++ t := by
  constructor
  · rintro ⟨s', hudp, -, hsent⟩
    rw [udp] at hudp
    cases ht : cString (s.receive d).recvMsg.toList with
    | none =>
      rw [Echo.print_undef ht] at hudp
      cases hudp
    | some t =>
      rw [Echo.print_next ht, Flow.andThen_next] at hudp
      by_cases hfit : (echoBack ++ t).length + 1 ≤ bufSize
      · rw [Echo.format_send (by decide) ht hfit] at hudp
        obtain rfl := Flow.next.inj hudp
        exact ⟨t, rfl, hfit, by simpa [Echo.receive] using hsent.symm⟩
      · have hlong : ∀ t', cString (s.receive d).recvMsg.toList = some t' →
            bufSize < (echoBack ++ t').length + 1 := by
          intro t' ht'
          rw [ht, Option.some.injEq] at ht'
          exact ht' ▸ Nat.lt_of_not_le hfit
        rw [Echo.format_undef hlong] at hudp
        cases hudp
  · rintro ⟨t, ht, hfit, rfl⟩
    have hudp : udp s (.data d) = ((s.receive d).format echoBack).andThen Echo.send := by
      rw [udp, Echo.print_next ht, Flow.andThen_next]
    refine ⟨_, hudp.trans (Echo.format_send (by decide) ht hfit), ?_, ?_⟩
    · simp only [Echo.receive]
    · simp only [Echo.receive]

/-- **A datagram comes back as it is exactly when a NUL stands behind it in the buffer.** -/
theorem replies_self_iff (hs : AtHead server s) (hd : (0 : UInt8) ∉ d)
    (hlen : d.length ≤ bufSize - 1 - echoBack.length) :
    Replies s d (echoBack ++ d) ↔ residue s.received d.length = 0 := by
  have hlt : d.length < bufSize := Nat.lt_of_le_of_lt hlen (by decide)
  have hbyte := Holds.atHead hs d.length hlt
  obtain ⟨hbound, hget⟩ := List.getElem?_eq_some_iff.mp hbyte
  have hrest : s.recvMsg.toList.drop d.length =
      residue s.received d.length :: s.recvMsg.toList.drop (d.length + 1) := by
    rw [List.drop_eq_getElem_cons hbound, hget]
  have hmem : (s.receive d).recvMsg.toList =
      d ++ residue s.received d.length :: s.recvMsg.toList.drop (d.length + 1) := by
    rw [← hrest]
    exact toList_store s.recvMsg (Nat.le_of_lt hlt)
  rw [replies_iff]
  constructor
  · rintro ⟨t, ht, -, heq⟩
    obtain rfl : d = t := List.append_cancel_left heq
    by_contra hne
    -- the byte behind the datagram belongs to the string
    have hmore : untilNul (s.receive d).recvMsg.toList =
        d ++ residue s.received d.length :: untilNul (s.recvMsg.toList.drop (d.length + 1)) := by
      rw [hmem, untilNul_append hd]
      simp [untilNul, hne]
    unfold cString at ht
    split_ifs at ht
    rw [hmore, Option.some.injEq] at ht
    have hlens := congrArg List.length ht
    simp at hlens
  · intro hzero
    refine ⟨d, ?_, ?_, rfl⟩
    · rw [hmem, hzero]
      exact cString_append_nul hd _
    · have hpre : echoBack.length = 12 := rfl
      rw [List.length_append, hpre]
      rw [hpre] at hlen
      unfold bufSize at hlen ⊢
      omega

/-- **What a reply of the UDP echo leaks.** For two histories and a datagram without a NUL whose reply fits,
both replies are the datagram behind "ECHO BACK : " exactly when both histories left a NUL behind it in the
buffer. -/
theorem replies_self_iff_both {s₁ s₂ : Echo} (h₁ : AtHead server s₁) (h₂ : AtHead server s₂)
    (hd : (0 : UInt8) ∉ d) (hlen : d.length ≤ 243) :
    Replies s₁ d (echoBack ++ d) ∧ Replies s₂ d (echoBack ++ d) ↔
      residue s₁.received d.length = 0 ∧ residue s₂.received d.length = 0 :=
  and_congr (replies_self_iff h₁ hd hlen) (replies_self_iff h₂ hd hlen)

/-- A datagram is received and answered. -/
theorem atHead_of_replies (hs : AtHead server s) (hd : d.length ≤ bufSize) (h : Replies s d r) :
    ∃ s', AtHead server s' ∧ s'.received = s.received ++ [d] := by
  obtain ⟨s', hudp, hreceived, -⟩ := h
  refine ⟨s', ?_, hreceived⟩
  have hbody : body s ⟨.ready false true, true, true, .data d⟩ = udp s (.data d) := by simp [body]
  have hpass := AtHead.pass hs (e := ⟨.ready false true, true, true, .data d⟩) hd
  rw [hbody, hudp] at hpass
  exact hpass

/-- After the shorter datagram "h", and after none, "hi" comes back as it is. -/
theorem replies_self_iff_both_hi : ∃ s₁ s₂, AtHead server s₁ ∧ AtHead server s₂ ∧
    s₁.received = [] ∧ s₂.received = [[104]] ∧
    Replies s₁ [104, 105] (echoBack ++ [104, 105]) ∧ Replies s₂ [104, 105] (echoBack ++ [104, 105]) := by
  have h₁ : AtHead server Echo.start := AtHead.start
  have hfirst : Replies Echo.start [104] (echoBack ++ [104]) :=
    (replies_self_iff h₁ (by decide) (by decide)).mpr rfl
  obtain ⟨s₂, h₂, hreceived⟩ := atHead_of_replies h₁ (by decide) hfirst
  have hboth := (replies_self_iff_both h₁ h₂ (d := [104, 105]) (by decide) (by decide)).mpr
  refine ⟨Echo.start, s₂, h₁, h₂, rfl, hreceived, hboth ⟨rfl, ?_⟩⟩
  rw [hreceived]
  exact residue_of_le (by decide)

/-- **A reply holds bytes of an earlier client**: "key", then "h" from another one, who is sent "hey". -/
theorem reply_leaks : ∃ s, AtHead server s ∧ s.received = [[107, 101, 121]] ∧
    Replies s [104] (echoBack ++ [104, 101, 121]) ∧ ¬ Replies s [104] (echoBack ++ [104]) := by
  have hstart : AtHead server Echo.start := AtHead.start
  have hfirst : Replies Echo.start [107, 101, 121] (echoBack ++ [107, 101, 121]) :=
    (replies_self_iff hstart (by decide) (by decide)).mpr rfl
  obtain ⟨s, hs, hreceived⟩ := atHead_of_replies hstart (by decide) hfirst
  have hreceived : s.received = [[107, 101, 121]] := hreceived
  have hbuf := (Holds.atHead hs).toList
  have hstring : cString (s.receive [104]).recvMsg.toList = some [104, 101, 121] := by
    have hmem : (s.receive [104]).recvMsg.toList = [104] ++ s.recvMsg.toList.drop 1 :=
      toList_store s.recvMsg (by decide)
    rw [hmem, hbuf, hreceived]
    decide +kernel
  refine ⟨s, hs, hreceived, replies_iff.mpr ⟨_, hstring, by decide, rfl⟩, ?_⟩
  · rw [replies_self_iff hs (by decide) (by decide), hreceived]
    decide

end NetProg.SelectTcpUdp
