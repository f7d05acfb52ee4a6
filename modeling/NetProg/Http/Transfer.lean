/-
# NetProg.Http.Transfer -- the two transfer loops of `C/http_client.c`.

The send loop writes what is left of the message until all of it is written.  The receive loop reads into
`response`, which was cleared, behind what was received before, until the response ends or 4095 bytes are
stored; with 4095 bytes it reports that the response is not complete.

Both loops go on after a part only.  `sent`, `received` and the content of `response` depend on how much
was transferred, not on how it was split.  The one byte that the report gets wrong is the last: a response
of exactly 4095 bytes is stored complete, and reported.
-/
import NetProg.Base.Loop
import NetProg.Base.Window

namespace NetProg.HttpClient

/-- What `write` or `read` returns: `-1`, or a count. -/
inductive Io where
  | error
  | count (n : ℕ)
  deriving DecidableEq, Repr

/-! ## Sending -/

/-- `sent`, and what was handed to the kernel. -/
structure Sending where
  sent : ℕ
  handed : List Char
  deriving DecidableEq

namespace Sending

def start : Sending := ⟨0, []⟩

/-- `write (sockfd, message + sent, total - sent)` returns `n`; `sent += bytes`. -/
def wrote (message : List Char) (s : Sending) (n : ℕ) : Sending where
  sent := s.sent + n
  handed := s.handed ++ (message.drop s.sent).take n

/-- One round of `do { ... } while (sent < total)`. -/
def round (message : List Char) (s : Sending) : Io → Flow Sending
  | .error => .exit "ERROR writing message to socket" s
  | .count n =>
    if n = 0 then .ret s
    else if (s.wrote message n).sent < message.length then .next (s.wrote message n)
    else .ret (s.wrote message n)

/-- A count is at most what was asked for, and positive if that was. -/
def Admits (message : List Char) (s : Sending) : Io → Prop
  | .error => True
  | .count n => s.sent + n ≤ message.length ∧ (n = 0 → message.length ≤ s.sent)

instance (message : List Char) (s : Sending) : (a : Io) → Decidable (s.Admits message a)
  | .error => inferInstanceAs (Decidable True)
  | .count n => inferInstanceAs (Decidable (s.sent + n ≤ message.length ∧ (n = 0 → message.length ≤ s.sent)))

end Sending

/-- The send loop. -/
def sendLoop (message : List Char) : System (Flow Sending) Io :=
  whileLoop (Sending.round message) (Sending.Admits message) Sending.start

/-- The first `sent` bytes were handed over, once and in order. -/
def Sending.Exact (message : List Char) (s : Sending) : Prop :=
  s.sent ≤ message.length ∧ s.handed = message.take s.sent

theorem Sending.Exact.wrote {message : List Char} {s : Sending} (h : s.Exact message) {n : ℕ}
    (hn : s.sent + n ≤ message.length) : (s.wrote message n).Exact message := by
  refine ⟨hn, ?_⟩
  show s.handed ++ (message.drop s.sent).take n = message.take (s.sent + n)
  rw [h.2, List.take_add]

section Send

variable {message : List Char} {f : Flow Sending}

theorem send_exact (h : (sendLoop message).Reachable f) : f.state.Exact message := by
  refine whileLoop_invariant (I := fun s => s.Exact message) ⟨Nat.zero_le _, rfl⟩ ?_ h
  intro s a _ hexact hadmits
  cases a with
  | error => exact hexact
  | count n =>
    simp only [Sending.round]
    split_ifs
    · exact hexact
    · exact hexact.wrote hadmits.1
    · exact hexact.wrote hadmits.1

/-- **When the send loop is done, the message was handed over**, whatever the counts. -/
theorem send_all {s : Sending} (h : (sendLoop message).Reachable (.ret s)) : s.handed = message := by
  have hexact : s.Exact message := send_exact h
  have hdone : ∀ f, (sendLoop message).Reachable f → ∀ t, f = .ret t → message.length ≤ t.sent := by
    intro f hf
    refine (sendLoop message).invariant
      (P := fun f => ∀ t, f = Flow.ret t → message.length ≤ t.sent) (by rintro t ⟨⟩) ?_ hf
    intro f a f' _ _ hstep t ht
    obtain ⟨s, rfl, hadmits, rfl⟩ := whileLoop_step.mp hstep
    cases a with
    | error => cases ht
    | count n =>
      simp only [Sending.round] at ht
      split_ifs at ht with hzero hmore
      · cases ht
        exact hadmits.2 hzero
      · cases ht
      · cases ht
        exact Nat.le_of_not_lt hmore
  rw [hexact.2, List.take_of_length_le (hdone _ h s rfl)]

/-- Every write makes progress: the loop cannot go on for more rounds than the message has bytes. -/
theorem send_progress (es : List Io) {s t : Sending}
    (h : (sendLoop message).runFrom (.next s) es = some (.next t)) : s.sent + es.length ≤ t.sent := by
  refine whileLoop_progress (μ := Sending.sent) ?_ es h
  intro s a t _ hnext
  cases a with
  | error => cases hnext
  | count n =>
    simp only [Sending.round] at hnext
    split_ifs at hnext with hzero hmore
    · cases hnext
    · cases hnext
      exact Nat.lt_add_of_pos_right (Nat.pos_of_ne_zero hzero)
    · cases hnext

end Send

/-! ## Receiving -/

/-- `sizeof (response)`. -/
def responseSize : ℕ := 4096

/-- `total` of the receive loop. -/
def total : ℕ := responseSize - 1

/-- What is reported when the buffer is full. -/
def storeError : String := "ERROR storing complete response from socket"

/-- `received`, the buffer, and where something was stored: offset and length. -/
structure Receiving where
  received : ℕ
  response : Vector UInt8 responseSize
  stores : List (ℕ × ℕ)

namespace Receiving

/-- `memset (response, 0, sizeof (response)); received = 0;`. -/
def start : Receiving := ⟨0, Vector.replicate responseSize 0, []⟩

/-- `read (sockfd, response + received, total - received)` returns `n`; `received += bytes`. -/
def got (stream : List UInt8) (r : Receiving) (n : ℕ) : Receiving where
  received := r.received + n
  response := store r.response r.received ((stream.drop r.received).take n)
  stores := r.stores ++ [(r.received, n)]

/-- The test behind the loop. -/
def finish (r : Receiving) : Flow Receiving :=
  if r.received = total then .exit storeError r else .ret r

/-- One round of `do { ... } while (received < total)`. -/
def round (stream : List UInt8) (r : Receiving) : Io → Flow Receiving
  | .error => .exit "ERROR reading response from socket" r
  | .count n =>
    if n = 0 then r.finish
    else if (r.got stream n).received < total then .next (r.got stream n)
    else (r.got stream n).finish

/-- A count is at most what was asked for and what is left of the response, and zero only at its end. -/
def Admits (stream : List UInt8) (r : Receiving) : Io → Prop
  | .error => True
  | .count n => r.received + n ≤ total ∧ r.received + n ≤ stream.length ∧
      (n = 0 → stream.length ≤ r.received)

instance (stream : List UInt8) (r : Receiving) : (a : Io) → Decidable (r.Admits stream a)
  | .error => inferInstanceAs (Decidable True)
  | .count n => inferInstanceAs (Decidable (r.received + n ≤ total ∧ r.received + n ≤ stream.length ∧
      (n = 0 → stream.length ≤ r.received)))

/-- The buffer holds the beginning of the response and then zeros, and no store went past
`response[sizeof (response) - 2]`. -/
structure Exact (stream : List UInt8) (r : Receiving) : Prop where
  le_total : r.received ≤ total
  le_stream : r.received ≤ stream.length
  content : r.response.toList =
    stream.take r.received ++ List.replicate (responseSize - r.received) 0
  bounds : ∀ st ∈ r.stores, st.1 + st.2 ≤ total

theorem Exact.start (stream : List UInt8) : Receiving.start.Exact stream where
  le_total := Nat.zero_le _
  le_stream := Nat.zero_le _
  content := by simp [Receiving.start]
  bounds := by simp [Receiving.start]

theorem Exact.got {stream : List UInt8} {r : Receiving} (h : r.Exact stream) {n : ℕ}
    (htotal : r.received + n ≤ total) (hstream : r.received + n ≤ stream.length) :
    (r.got stream n).Exact stream where
  le_total := htotal
  le_stream := hstream
  content := by
    have hlen : ((stream.drop r.received).take n).length = n := by
      rw [List.length_take, List.length_drop]
      omega
    have htake : (stream.take r.received).length = r.received := by
      rw [List.length_take]
      exact Nat.min_eq_left h.le_stream
    have hsize : r.received + n ≤ responseSize := Nat.le_trans htotal (Nat.sub_le _ _)
    have hfront : r.response.toList.take r.received = stream.take r.received := by
      rw [h.content, List.take_append_of_le_length (Nat.le_of_eq htake.symm),
        List.take_of_length_le (Nat.le_of_eq htake)]
    have hback : r.response.toList.drop (r.received + n) =
        List.replicate (responseSize - (r.received + n)) 0 := by
      rw [h.content, List.drop_append, htake, List.drop_of_length_le (by omega), List.nil_append,
        List.drop_replicate]
      congr 1
      omega
    have hstore : (r.got stream n).response.toList = r.response.toList.take r.received ++
        (stream.drop r.received).take n ++
        r.response.toList.drop (r.received + ((stream.drop r.received).take n).length) :=
      toList_store_at r.response (by rw [hlen]; exact hsize)
    rw [hstore, hlen, hfront, hback, ← List.take_add]
    rfl
  bounds := by
    intro st hst
    rw [Receiving.got, List.mem_append, List.mem_singleton] at hst
    rcases hst with hst | rfl
    · exact h.bounds st hst
    · exact htotal

end Receiving

/-- The receive loop and the test behind it, for the response `stream`. -/
def receiveLoop (stream : List UInt8) : System (Flow Receiving) Io :=
  whileLoop (Receiving.round stream) (Receiving.Admits stream) Receiving.start

section Receive

variable {stream : List UInt8} {f : Flow Receiving}

theorem Receiving.finish_state (r : Receiving) : r.finish.state = r := by
  unfold finish
  split_ifs <;> rfl

theorem receive_exact (h : (receiveLoop stream).Reachable f) : f.state.Exact stream := by
  refine whileLoop_invariant (I := fun r => r.Exact stream) (.start stream) ?_ h
  intro r a _ hexact hadmits
  cases a with
  | error => exact hexact
  | count n =>
    simp only [Receiving.round]
    split_ifs with hzero hmore
    · show r.finish.state.Exact stream
      rw [Receiving.finish_state]
      exact hexact
    · exact hexact.got hadmits.1 hadmits.2.1
    · show (r.got stream n).finish.state.Exact stream
      rw [Receiving.finish_state]
      exact hexact.got hadmits.1 hadmits.2.1

/-- The loop is done: the response has ended, or the buffer is full. -/
def Receiving.Done (stream : List UInt8) (r : Receiving) : Prop :=
  r.received = stream.length ∨ r.received = total

/-- How the program goes on behind the loop depends on `received` alone. -/
def Receiving.Finished (stream : List UInt8) : Flow Receiving → Prop
  | .ret r => r.Done stream ∧ r.received ≠ total
  | .exit msg r => msg = storeError → r.received = total
  | _ => True

theorem Receiving.Done.finish {r : Receiving} (h : r.Done stream) : Finished stream r.finish := by
  unfold Receiving.finish
  split_ifs with hfull
  · exact fun _ => hfull
  · exact ⟨h, hfull⟩

theorem receive_finished (h : (receiveLoop stream).Reachable f) : Receiving.Finished stream f := by
  refine (receiveLoop stream).invariant (P := Receiving.Finished stream) trivial ?_ h
  intro f a f' hreach _ hstep
  obtain ⟨r, rfl, hadmits, rfl⟩ := whileLoop_step.mp hstep
  have hexact : r.Exact stream := receive_exact hreach
  have hloop : ∀ r : Receiving, r.finish.loopBack = r.finish := by
    intro r
    unfold Receiving.finish
    split_ifs <;> rfl
  cases a with
  | error => exact fun hmsg => absurd hmsg (by decide)
  | count n =>
    simp only [Receiving.round]
    split_ifs with hzero hmore
    · rw [hloop]
      refine Receiving.Done.finish (.inl ?_)
      exact Nat.le_antisymm hexact.le_stream (hadmits.2.2 hzero)
    · trivial
    · rw [hloop]
      refine Receiving.Done.finish (.inr ?_)
      exact Nat.le_antisymm hadmits.1 (Nat.le_of_not_lt hmore)

/-- Every read makes progress: the loop cannot go on for more rounds than the buffer has room. -/
theorem receive_progress (es : List Io) {r t : Receiving}
    (h : (receiveLoop stream).runFrom (.next r) es = some (.next t)) : r.received + es.length ≤ t.received := by
  refine whileLoop_progress (μ := Receiving.received) ?_ es h
  intro r a t _ hnext
  have hfinish : ∀ r : Receiving, r.finish.loopBack ≠ .next t := by
    intro r
    unfold Receiving.finish
    split_ifs <;> rintro ⟨⟩
  cases a with
  | error => cases hnext
  | count n =>
    simp only [Receiving.round] at hnext
    split_ifs at hnext with hzero hmore
    · exact absurd hnext (hfinish _)
    · cases hnext
      exact Nat.lt_add_of_pos_right (Nat.pos_of_ne_zero hzero)
    · exact absurd hnext (hfinish _)

/-- **The loop reports an incomplete response exactly when it has 4095 bytes or more**, however `read` splits
it. -/
theorem reports_iff {r : Receiving} (h : (receiveLoop stream).Reachable f)
    (hf : f = .ret r ∨ f = .exit storeError r) : f = .exit storeError r ↔ total ≤ stream.length := by
  have hexact : f.state.Exact stream := receive_exact h
  have hfinished := receive_finished h
  rcases hf with rfl | rfl
  · obtain ⟨hdone, hnot⟩ := hfinished
    refine iff_of_false (by rintro ⟨⟩) ?_
    have hle : r.received ≤ total := hexact.le_total
    rcases hdone with hend | hfull
    · omega
    · exact absurd hfull hnot
  · refine iff_of_true rfl ?_
    have hfull : r.received = total := hfinished rfl
    have hle : r.received ≤ stream.length := hexact.le_stream
    omega

end Receive

/-- **The transfer loops are right except for the report of a response of exactly 4095 bytes.** The send loop
hands over the message once and in order, in at most as many writes as it has bytes; the receive loop stores
the beginning of the response within bounds and leaves a NUL behind it, in at most 4095 reads that bring
something; and it reports just the responses that do not fit, unless the response has 4095 bytes. -/
theorem transfer_iff (message : List Char) (stream : List UInt8) :
    ((∀ f, (sendLoop message).Reachable f → f.state.Exact message) ∧
      (∀ s, (sendLoop message).Reachable (.ret s) → s.handed = message) ∧
      ∀ es s t, (sendLoop message).runFrom (.next s) es = some (.next t) →
        s.sent + es.length ≤ t.sent) ∧
    (∀ f, (receiveLoop stream).Reachable f → f.state.Exact stream) ∧
      (∀ es r t, (receiveLoop stream).runFrom (.next r) es = some (.next t) →
        r.received + es.length ≤ t.received) ∧
      ∀ f r, (receiveLoop stream).Reachable f → f = .ret r ∨ f = .exit storeError r →
        ((f = .exit storeError r ↔ total < stream.length) ↔ stream.length ≠ total) := by
  constructor
  · exact ⟨fun f hf => send_exact hf, fun s hs => send_all hs, fun es s t hrun => send_progress es hrun⟩
  · refine ⟨fun f hf => receive_exact hf, fun es r t hrun => receive_progress es hrun, ?_⟩
    intro f r hf hdone
    rw [reports_iff hf hdone]
    omega

/-- A response of `total` bytes that `read` returns at once. -/
theorem receive_full {stream : List UInt8} (hlen : stream.length = total) :
    ∃ r, (receiveLoop stream).Reachable (.exit storeError r) := by
  have hadmits : Receiving.start.Admits stream (.count total) := by
    refine ⟨Nat.le_of_eq (Nat.zero_add _), by simp [Receiving.start, hlen], ?_⟩
    intro hzero
    cases hzero
  refine ⟨Receiving.start.got stream total, ?_⟩
  have hreach : (receiveLoop stream).Reachable (Receiving.start.round stream (.count total)).loopBack :=
    AtHead.start.pass hadmits
  have hfull : (Receiving.start.got stream total).received = total := Nat.zero_add _
  have hround : Receiving.start.round stream (.count total) =
      .exit storeError (Receiving.start.got stream total) := by
    have hpos : total ≠ 0 := by decide
    simp only [Receiving.round, if_neg hpos, hfull, Nat.lt_irrefl, if_false, Receiving.finish, if_true]
  rwa [hround] at hreach

/-- A response of two bytes that `read` returns at once. -/
theorem receive_two : ∃ r, (receiveLoop [72, 105]).Reachable (.ret r) := by
  have hfirst : (receiveLoop [72, 105]).Reachable
      (Receiving.start.round [72, 105] (.count 2)).loopBack :=
    AtHead.start.pass (by decide)
  have hnext : Receiving.start.round [72, 105] (.count 2) =
      .next (Receiving.start.got [72, 105] 2) := by
    have hmore : (Receiving.start.got [72, 105] 2).received < total := by decide
    simp only [Receiving.round, if_pos hmore]
    rfl
  rw [hnext] at hfirst
  have hsecond : (receiveLoop [72, 105]).Reachable
      ((Receiving.start.got [72, 105] 2).round [72, 105] (.count 0)).loopBack := by
    apply AtHead.pass hfirst
    decide
  have hend : (Receiving.start.got [72, 105] 2).round [72, 105] (.count 0) =
      .ret (Receiving.start.got [72, 105] 2) := by
    have hnot : (Receiving.start.got [72, 105] 2).received ≠ total := by decide
    simp only [Receiving.round, if_true, Receiving.finish, if_neg hnot]
  rw [hend] at hsecond
  exact ⟨_, hsecond⟩

/-- "hey" written in two parts, and a response of two bytes. -/
theorem transfer_iff_two :
    (∃ s, (sendLoop "hey".toList).Reachable (.ret s) ∧ s.handed = "hey".toList) ∧
    ∃ r, (receiveLoop [72, 105]).Reachable (.ret r) ∧
      (Flow.ret r = .exit storeError r ↔ total < 2) := by
  constructor
  · have hreach : (sendLoop "hey".toList).Reachable (.ret ⟨3, "hey".toList⟩) :=
      (sendLoop "hey".toList).reachable_of_run [.count 1, .count 2] (by decide)
    exact ⟨_, hreach, (transfer_iff "hey".toList [72, 105]).1.2.1 _ hreach⟩
  · obtain ⟨r, hr⟩ := receive_two
    exact ⟨r, hr, ((transfer_iff "hey".toList [72, 105]).2.2.2 _ r hr (.inl rfl)).mpr (by decide)⟩

/-- **A response of exactly 4095 bytes is stored complete and reported as incomplete.** -/
theorem complete_response_reported : ∃ stream r, stream.length = total ∧
    (receiveLoop stream).Reachable (.exit storeError r) ∧ r.response.toList = stream ++ [0] := by
  have hlen : (List.replicate total (65 : UInt8)).length = total := List.length_replicate
  obtain ⟨r, hr⟩ := receive_full hlen
  refine ⟨List.replicate total 65, r, hlen, hr, ?_⟩
  have hexact : r.Exact (List.replicate total 65) := receive_exact hr
  have hfull : r.received = total := receive_finished hr rfl
  rw [hexact.content, hfull, List.take_of_length_le (Nat.le_of_eq hlen)]
  rfl

end NetProg.HttpClient
