/-
# NetProg.Python.Chunks -- when the answer does not depend on how the input was cut.

Every chunk that `recv` returns is decoded by itself.  A chunk that ends inside a character raises, and
that is the only thing that can go wrong: with whole sends, the replies to chunks that all decode are the
encoding of the upper-cased stream, however it was cut (`served_iff`).
-/
import Mathlib.Data.List.Induction
import NetProg.Python.Replies

namespace NetProg.PySelectServer

/-! ## What it means to be served -/

/-- The chunks received on `c`. -/
def Call.chunkOn (c : Sock) : Call → List (List UInt8)
  | received s data _ => if s = c then [data] else []
  | sent _ _ _ | deleted _ _ => []

/-- The chunks received on `c` so far. -/
def chunks (log : List Call) (c : Sock) : List (List UInt8) := log.flatMap (Call.chunkOn c)

theorem chunks_answered (log : List Call) (c : Sock) (k : List UInt8) (text : List Char)
    (msg : List UInt8) (n : ℕ) :
    chunks (log ++ [.received c k text] ++ [.sent c msg n]) c = chunks log c ++ [k] := by
  simp [chunks, Call.chunkOn]

/-- With whole sends, the server processes the chunks `cs` on a connection: some run receives all of them
and answers them, no run fails to decode one, and in every run that has answered them the kernel has
accepted `reply`. -/
structure Served (upper : Char → List Char) (cs : List (List UInt8)) (reply : List UInt8) : Prop where
  served : ∃ s c, AtHead (selectServer upper) s ∧ WholeSends s.log c ∧ chunks s.log c = cs ∧
    s.msgQueue c = some []
  decodes : ∀ s c a e rest, AtHead (selectServer upper) s → WholeSends s.log c → Admits s e →
    (c, a) ∈ e.readable → chunks s.log c ++ a.data :: rest = cs →
      pass upper s e ≠ .error (.decodeError c)
  replies : ∀ s c, AtHead (selectServer upper) s → WholeSends s.log c → chunks s.log c = cs →
    s.msgQueue c = some [] → acceptedBytes s.log c = reply

/-! ## What raises a decoding error -/

section DecodeError

variable {upper : Char → List Char} {s : Server} {c : Sock}

/-- Not a decoding error. -/
def Exn.NotDecode (x : Exn) : Prop := ∀ c, x ≠ .decodeError c

theorem raises_call {ok : Bool} : Raises Exn.NotDecode (s.call c ok) := by
  unfold Server.call
  split_ifs
  · exact Raises.error (by simp [Exn.NotDecode])
  · exact Raises.ok
  · exact Raises.error (by simp [Exn.NotDecode])

theorem raises_removeInput : Raises Exn.NotDecode (s.removeInput c) := by
  unfold Server.removeInput
  split_ifs
  · exact Raises.ok
  · exact Raises.error (by simp [Exn.NotDecode])

theorem raises_removeOutput : Raises Exn.NotDecode (s.removeOutput c) := by
  unfold Server.removeOutput
  split_ifs
  · exact Raises.ok
  · exact Raises.error (by simp [Exn.NotDecode])

theorem raises_delQueue : Raises Exn.NotDecode (s.delQueue c) := by
  unfold Server.delQueue
  split
  · exact Raises.error (by simp [Exn.NotDecode])
  · exact Raises.ok

theorem raises_put {data : List UInt8} {text : List Char} :
    Raises Exn.NotDecode (s.put c data text) := by
  unfold Server.put
  split
  · exact Raises.error (by simp [Exn.NotDecode])
  · exact Raises.ok

theorem raises_onWritable {w : Sock × WriteAns} : Raises Exn.NotDecode (onWritable upper s w) := by
  unfold onWritable
  split
  · exact Raises.error (by simp [Exn.NotDecode])
  · exact raises_call.bind fun _ _ => raises_removeOutput
  · exact raises_call.bind fun _ _ => raises_call.bind fun _ _ => Raises.ok

theorem raises_onExceptional {x : Sock × Bool} : Raises Exn.NotDecode (onExceptional s x) :=
  raises_call.bind fun _ _ => raises_removeInput.bind fun _ _ => raises_delQueue

/-- A decoding error in the first loop is about the bytes of that entry. -/
theorem raises_onReadable {r : Sock × ReadAns} :
    Raises (fun x => ∀ c, x = .decodeError c → c = r.1 ∧ decode r.2.data = none) (onReadable s r) := by
  have hnot : ∀ x : Exn, x.NotDecode → ∀ c, x = .decodeError c → c = r.1 ∧ decode r.2.data = none :=
    fun x hx c heq => absurd heq (hx c)
  unfold onReadable
  split_ifs
  · exact (raises_call.bind fun _ _ => Raises.ok).mono hnot
  · refine (raises_call.mono hnot).bind fun _ _ => ?_
    split
    · refine Raises.error fun c heq => ⟨?_, ‹_›⟩
      exact (Exn.decodeError.inj heq).symm
    · refine Raises.mono hnot (raises_call.bind fun _ _ => ?_)
      exact raises_removeInput.bind fun _ _ => raises_delQueue
    · exact (raises_call.bind fun _ _ => raises_put.bind fun _ _ => Raises.ok).mono hnot

/-- A pass fails to decode only what `recv` returned in it. -/
theorem pass_decodeError {e : Ready} (h : pass upper s e = .error (.decodeError c)) :
    ∃ a, (c, a) ∈ e.readable ∧ decode a.data = none := by
  have hnot : ∀ x : Exn, x.NotDecode →
      ∀ c, x = .decodeError c → ∃ a, (c, a) ∈ e.readable ∧ decode a.data = none :=
    fun x hx c heq => absurd heq (hx c)
  have hpass : Raises (fun x => ∀ c, x = .decodeError c →
      ∃ a, (c, a) ∈ e.readable ∧ decode a.data = none) (pass upper s e) := by
    refine (Raises.foldlM fun t r hr => raises_onReadable.mono fun x hx c heq => ?_).bind fun _ _ => ?_
    · obtain ⟨rfl, hdecode⟩ := hx c heq
      exact ⟨r.2, hr, hdecode⟩
    · refine Raises.mono hnot (Raises.bind ?_ fun _ _ => ?_)
      · exact Raises.foldlM fun t w _ => raises_onWritable
      · exact Raises.foldlM fun t x _ => raises_onExceptional
  exact hpass _ h c rfl

end DecodeError

/-! ## The text of the chunks -/

/-- What was received is what its bytes decode to. -/
def TextsDecode (s : Server) : Prop :=
  ∀ c data text, .received c data text ∈ s.log → decode data = some text

theorem TextsDecode.forget {s : Server} (hs : TextsDecode s) (c : Sock) : TextsDecode (s.forget c) := by
  intro d data text hmem
  exact hs d data text (by simpa [Server.forget] using hmem)

theorem textsDecode_pass {upper : Char → List Char} {s t : Server} {e : Ready} (hs : TextsDecode s)
    (h : pass upper s e = .ok t) : TextsDecode t := by
  obtain ⟨s₁, s₂, h₁, h₂, h₃⟩ := pass_eq_ok.mp h
  have hs₁ : TextsDecode s₁ := by
    refine foldlM_keeps (fun s r t _ hs h => ?_) hs h₁
    cases onReadable_eq_ok.mp h with
    | accept => exact hs
    | eof => exact hs.forget _
    | @data c a x text q _ _ _ _ hdecode _ =>
      intro d data text' hmem
      rw [Server.enqueue_log, List.mem_append, List.mem_singleton] at hmem
      rcases hmem with hmem | heq
      · exact hs d data text' hmem
      · simp only [Call.received.injEq] at heq
        rw [heq.2.1, heq.2.2]
        exact hdecode
  have hs₂ : TextsDecode s₂ := by
    refine foldlM_keeps (fun s w t _ hs h => ?_) hs₁ h₂
    cases onWritable_eq_ok.mp h with
    | empty => exact hs
    | send =>
      intro d data text hmem
      exact hs d data text (by simpa [Server.sends] using hmem)
  refine foldlM_keeps (fun s x t _ hs h => ?_) hs₂ h₃
  cases onExceptional_eq_ok.mp h with
  | gone => exact hs.forget _

theorem textsDecode_atHead {upper : Char → List Char} {s : Server}
    (hs : AtHead (selectServer upper) s) : TextsDecode s :=
  atHead_of_pass (by simp [TextsDecode, Server.start]) (fun _ _ _ _ hs _ h => textsDecode_pass hs h) hs

/-- **The chunks received decode, to the text received.** -/
theorem decode_chunks {log : List Call} (hlog : ∀ c data text, .received c data text ∈ log →
    decode data = some text) (c : Sock) :
    decode (chunks log c).flatten = some (receivedText log c) ∧
      ∀ k ∈ chunks log c, (decode k).isSome := by
  induction log with
  | nil => exact ⟨decode_encode [], by simp [chunks]⟩
  | cons x log ih =>
    obtain ⟨hflatten, hall⟩ := ih fun c data text hmem => hlog c data text (List.mem_cons_of_mem x hmem)
    simp only [chunks, receivedText, List.flatMap_cons, List.flatten_append] at hflatten hall ⊢
    cases x with
    | sent | deleted => exact ⟨hflatten, hall⟩
    | received d data text =>
      have hdata := hlog d data text List.mem_cons_self
      by_cases hd : d = c
      · simp only [Call.chunkOn, Call.textOn, if_pos hd, List.flatten_cons, List.flatten_nil,
          List.append_nil]
        refine ⟨decode_append hdata hflatten, ?_⟩
        intro k hk
        rcases List.mem_cons.mp hk with rfl | hk
        · simp [hdata]
        · exact hall k hk
      · simp only [Call.chunkOn, Call.textOn, if_neg hd, List.flatten_nil, List.nil_append]
        exact ⟨hflatten, hall⟩

/-! ## A run for every list of chunks that decode -/

section Runs

variable {upper : Char → List Char} {s t : Server}

/-- A pass with something to do, which does not raise. -/
theorem atHead_next (hs : AtHead (selectServer upper) s) {e : Ready} (he : Admits s e)
    (hwork : ¬ (e.readable = [] ∧ e.writable = [] ∧ e.exceptional = []))
    (hpass : pass upper s e = .ok t) : AtHead (selectServer upper) t := by
  have hinputs : s.inputs ≠ [] := List.ne_nil_of_mem (Inv.atHead hs).master
  have hbody : body upper s e = .next t := by
    unfold body
    rw [if_neg hinputs, if_neg hwork, hpass]
  have := AtHead.pass hs he
  rwa [hbody] at this

/-- A pass with one readable socket. -/
theorem atHead_read (hs : AtHead (selectServer upper) s) {r : Sock × ReadAns} (hin : r.1 ∈ s.inputs)
    (hsize : r.2.data.length ≤ 1024) (hstep : ReadStep s r t) : AtHead (selectServer upper) t := by
  refine atHead_next hs (e := ⟨[r], [], []⟩) ?_ (by simp) ?_
  · simp [Admits, hin, hsize]
  · refine pass_eq_ok.mpr ⟨t, t, ?_, rfl, rfl⟩
    rw [List.foldlM_cons, onReadable_eq_ok.mpr hstep]
    rfl

/-- A pass with one writable socket. -/
theorem atHead_write (hs : AtHead (selectServer upper) s) {w : Sock × WriteAns} (hout : w.1 ∈ s.outputs)
    (hstep : WriteStep upper s w t) : AtHead (selectServer upper) t := by
  refine atHead_next hs (e := ⟨[], [w], []⟩) ?_ (by simp) ?_
  · simp [Admits, hout]
  · refine pass_eq_ok.mpr ⟨s, t, rfl, ?_, rfl⟩
    rw [List.foldlM_cons, onWritable_eq_ok.mpr hstep]
    rfl

/-- The first connection has received and answered the chunks `cs`. -/
structure Answered (upper : Char → List Char) (cs : List (List UInt8)) (s : Server) : Prop where
  atHead : AtHead (selectServer upper) s
  inputs : 1 ∈ s.inputs
  outputs : s.outputs = []
  queue : s.msgQueue 1 = some []
  chunks : chunks s.log 1 = cs
  whole : WholeSends s.log 1

/-- One more chunk takes three passes: it is received, answered, and taken out of `outputs`. -/
theorem Answered.step {cs : List (List UInt8)} (hs : Answered upper cs s) {k : List UInt8}
    (hsize : 0 < k.length ∧ k.length ≤ 1024) (hk : (decode k).isSome) :
    ∃ t, Answered upper (cs ++ [k]) t := by
  have hopen : 1 ∉ s.closed := (Inv.atHead hs.atHead).inputsOpen 1 hs.inputs
  obtain ⟨text, htext⟩ := Option.isSome_iff_exists.mp hk
  cases text with
  | nil =>
    rw [decode_eq_some_iff, encode_nil] at htext
    simp [← htext] at hsize
  | cons x text =>
    -- received
    have hread := atHead_read hs.atHead (r := (1, ⟨true, k, true⟩)) hs.inputs hsize.2
      (.data (by decide) hopen rfl rfl htext hs.queue)
    have hout : 1 ∈ (s.enqueue 1 [] k (x :: text)).outputs :=
      (Server.mem_enqueue_outputs _ _ _ _ _).mpr (Or.inr rfl)
    have houtputs : (s.enqueue 1 [] k (x :: text)).outputs = [1] := by
      simp [Server.enqueue, Server.addOutput, hs.outputs]
    have hqueue : (s.enqueue 1 [] k (x :: text)).msgQueue 1 = some ((x :: text) :: []) := by simp
    -- answered
    have hsend := atHead_write hread
      (w := (1, ⟨true, some (encode ((x :: text).flatMap upper)).length⟩)) hout
      (.send hqueue (by simpa using hopen) rfl rfl)
    -- taken out
    have hempty := atHead_write hsend (w := (1, ⟨true, some 0⟩)) hout
      (.empty (by simp [Server.sends]) (by simpa [Server.sends] using hopen) rfl hout)
    refine ⟨_, hempty, ?_, ?_, ?_, ?_, ?_⟩
    · simpa [Server.sends] using hs.inputs
    · simp [Server.sends, houtputs]
    · simp [Server.sends]
    · simp only [Server.sends, Server.enqueue_log]
      rw [chunks_answered, hs.chunks]
    · intro msg n hmem
      simp only [Server.sends, Server.enqueue_log, List.mem_append, List.mem_singleton, reduceCtorEq,
        or_false, Call.sent.injEq, true_and] at hmem
      rcases hmem with hmem | ⟨rfl, rfl⟩
      · exact hs.whole msg n hmem
      · exact Nat.le_refl _

/-- **Chunks that decode can all be received and answered.** -/
theorem exists_answered (upper : Char → List Char) {cs : List (List UInt8)}
    (hcs : ∀ k ∈ cs, (0 < k.length ∧ k.length ≤ 1024) ∧ (decode k).isSome) :
    ∃ s, Answered upper cs s := by
  induction cs using List.reverseRecOn with
  | nil =>
    have hstart : AtHead (selectServer upper) Server.start := AtHead.start
    have haccept := atHead_read hstart (r := (masterSocket, ⟨true, [], true⟩)) (by simp [Server.start])
      (by simp) (.accept (by simp [Server.start]) rfl)
    refine ⟨_, haccept, ?_, ?_, ?_, ?_, ?_⟩
    · simp [Server.addConn, Server.start]
    · rfl
    · simp [Server.addConn, Server.start]
    · rfl
    · simp [WholeSends, Server.addConn, Server.start]
  | append_singleton cs k ih =>
    obtain ⟨s, hs⟩ := ih fun k' hk' => hcs k' (List.mem_append_left _ hk')
    obtain ⟨hsize, hk⟩ := hcs k (List.mem_append_right _ (List.mem_singleton_self k))
    exact hs.step hsize hk

end Runs

/-! ## The main result -/

/-- **A cutting is served exactly when every chunk decodes by itself.** -/
theorem served_iff (upper : Char → List Char) {cs : List (List UInt8)} {t : List Char}
    (ht : decode cs.flatten = some t) (hsize : ∀ k ∈ cs, 0 < k.length ∧ k.length ≤ 1024) :
    Served upper cs (encode (t.flatMap upper)) ↔ ∀ k ∈ cs, (decode k).isSome := by
  constructor
  · rintro ⟨⟨s, c, hs, -, rfl, -⟩, -, -⟩
    exact (decode_chunks (textsDecode_atHead hs) c).2
  · intro hall
    refine ⟨?_, ?_, ?_⟩
    · obtain ⟨s, hs⟩ := exists_answered upper fun k hk => ⟨hsize k hk, hall k hk⟩
      exact ⟨s, 1, hs.atHead, hs.whole, hs.chunks, hs.queue⟩
    · intro s c a e rest _ _ he ha hcut hpass
      obtain ⟨b, hb, hdecode⟩ := pass_decodeError hpass
      -- `select` names a socket once
      have hab : (c, a) = (c, b) := List.inj_on_of_nodup_map he.1.1 ha hb rfl
      have hmem : a.data ∈ cs := hcut ▸ List.mem_append_right _ List.mem_cons_self
      have := hall _ hmem
      rw [(Prod.mk.inj hab).2, hdecode] at this
      exact absurd this (by simp)
    · intro s c hs hwhole hcs hqueue
      have hconserved := (RepliesInv.atHead hs).conserved_open hqueue
      have htext := (decode_chunks (textsDecode_atHead hs) c).1
      rw [hcs, ht] at htext
      rw [← Option.some.inj htext] at hconserved
      rw [(accepted_eq_handed_iff s.log c).mpr hwhole]
      simpa using hconserved

/-- **The answer does not depend on the cutting exactly when no cut falls inside a character.** -/
theorem selectServer_chunking_iff (upper : Char → List Char) {stream : List UInt8} {t : List Char}
    (ht : decode stream = some t) {cs₁ cs₂ : List (List UInt8)} (h₁ : cs₁.flatten = stream)
    (h₂ : cs₂.flatten = stream) (hsize : ∀ k ∈ cs₁ ++ cs₂, 0 < k.length ∧ k.length ≤ 1024) :
    (Served upper cs₁ (encode (t.flatMap upper)) ∧ Served upper cs₂ (encode (t.flatMap upper))) ↔
      ∀ k ∈ cs₁ ++ cs₂, (decode k).isSome := by
  rw [served_iff upper (h₁ ▸ ht) fun k hk => hsize k (List.mem_append_left _ hk),
    served_iff upper (h₂ ▸ ht) fun k hk => hsize k (List.mem_append_right _ hk)]
  simp only [List.mem_append, or_imp, forall_and]

/-- What `str.upper` makes of a Latin-1 character. -/
def latinUpper (c : Char) : List Char :=
  if c = 'ß' then ['S', 'S']
  else if c = 'µ' then ['Μ']
  else if c = 'ÿ' then ['Ÿ']
  else if 0xE0 ≤ c.toNat ∧ c.toNat ≤ 0xFE ∧ c.toNat ≠ 0xF7 then [Char.ofNat (c.toNat - 0x20)]
  else [c.toUpper]

/-- `"é"` in one chunk, or cut between its two bytes: the first of these does not decode. -/
theorem selectServer_cutCharacter :
    decode [0xC3, 0xA9] = some ['é'] ∧
      (∃ s e, AtHead (selectServer latinUpper) s ∧ Admits s e ∧ e = smooth [(1, [0xC3])] [] ∧
        pass latinUpper s e = .error (.decodeError 1)) ∧
      ¬ (Served latinUpper [[0xC3, 0xA9]] (encode ['É']) ∧
        Served latinUpper [[0xC3], [0xA9]] (encode ['É'])) := by
  refine ⟨by decide +kernel, ?_, ?_⟩
  · obtain ⟨s, hs, hend⟩ := exists_atHead_of_run (selectServer latinUpper) [smooth [(0, [])] []]
      (fun s => decide (Admits s (smooth [(1, [0xC3])] [])) &&
        (match pass latinUpper s (smooth [(1, [0xC3])] []) with
          | .error x => x == .decodeError 1
          | .ok _ => false))
      (by decide +kernel)
    simp only [Bool.and_eq_true, decide_eq_true_eq] at hend
    refine ⟨s, _, hs, hend.1, rfl, ?_⟩
    cases h : pass latinUpper s (smooth [(1, [0xC3])] []) with
    | ok t => simp [h] at hend
    | error x => simpa [h] using hend.2
  · rintro ⟨-, ⟨⟨s, c, hs, -, hchunks, -⟩, -, -⟩⟩
    have hdecode := (decode_chunks (textsDecode_atHead hs) c).2 [0xC3] (by simp [hchunks])
    exact absurd hdecode (by decide +kernel)

/-- `"é!"` in one chunk, or cut between the two characters. -/
theorem selectServer_chunking_iff_betweenCharacters :
    Served latinUpper [[0xC3, 0xA9, 0x21]] (encode ['É', '!']) ∧
      Served latinUpper [[0xC3, 0xA9], [0x21]] (encode ['É', '!']) := by
  have ht : decode [0xC3, 0xA9, 0x21] = some ['é', '!'] := by decide +kernel
  have hreply : ['É', '!'] = ['é', '!'].flatMap latinUpper := by decide +kernel
  rw [hreply]
  exact (selectServer_chunking_iff latinUpper ht rfl rfl (by decide)).mpr (by decide +kernel)

end NetProg.PySelectServer
