/-
# NetProg.Python.ClientPasses -- what the passes of the server do for the connections of the client.

An entry of a pass is about one connection: it is accepted, read from, sent to, or taken out of `outputs` (`Entry`).
Each of them does some of what is to be done for that connection (`load`), and loses nothing of what is owed to the
client (`Owes`): what it sent, or an answer to it, that has not come back.  No pass raises (`Law.pass_run`).
-/
import Mathlib.Algebra.Order.BigOperators.Group.Finset
import NetProg.Python.ClientServer
import NetProg.Python.PassFailures

namespace NetProg.PySelectServer

open Finset (range)

/-! ## What the server has of a connection -/

/-- What is queued for connection `i`. -/
def queue (s : Server) (i : ℕ) : List (List Char) := (s.msgQueue (i + 1)).getD []

/-- Connection `i` was not accepted yet. -/
abbrev Waits (s : Server) (i : ℕ) : Prop := s.made ≤ i + 1

section Updates

variable {s : Server} {c : Sock} {q : List (List Char)} {i : ℕ}

theorem heard_enqueue (data : List UInt8) (text : List Char) :
    heard (s.enqueue c q data text) i = heard s i ++ if c = i + 1 then data else [] := by
  unfold heard chunks
  rw [Server.enqueue_log, List.flatMap_append, List.flatten_append]
  split_ifs with hc <;> simp [Call.chunkOn, hc]

theorem replied_enqueue (data : List UInt8) (text : List Char) :
    replied (s.enqueue c q data text) i = replied s i := by
  simp [replied, acceptedBytes, Call.acceptedOn]

theorem queue_enqueue (data : List UInt8) (text : List Char) :
    queue (s.enqueue c q data text) i = if c = i + 1 then q ++ [text] else queue s i := by
  unfold queue
  rw [Server.enqueue_msgQueue]
  split_ifs with hc
  · simp [hc]
  · rw [Function.update_of_ne (Ne.symm hc)]

theorem heard_sends (msg : List UInt8) (n : ℕ) : heard (s.sends c q msg n) i = heard s i := by
  simp [heard, chunks, Server.sends, Call.chunkOn]

theorem replied_sends (msg : List UInt8) (n : ℕ) :
    replied (s.sends c q msg n) i = replied s i ++ if c = i + 1 then msg.take n else [] := by
  simp [replied, acceptedBytes, Server.sends, Call.acceptedOn]

theorem queue_sends (msg : List UInt8) (n : ℕ) :
    queue (s.sends c q msg n) i = if c = i + 1 then q else queue s i := by
  unfold queue Server.sends
  split_ifs with hc
  · simp [hc]
  · simp [Function.update_of_ne (Ne.symm hc)]

theorem queue_addConn (h : s.msgQueue s.made = none) : queue s.addConn i = queue s i := by
  unfold queue Server.addConn
  by_cases hi : i + 1 = s.made
  · simp [hi, h]
  · simp [Function.update_of_ne hi]

end Updates

/-! ## One entry of a pass -/

/-- What stays of the other connections. -/
structure Same (s t : Server) (i : ℕ) : Prop where
  heard : heard t i = heard s i
  queue : queue t i = queue s i
  replied : replied t i = replied s i
  outputs : i + 1 ∈ t.outputs ↔ i + 1 ∈ s.outputs
  waits : Waits t i ↔ Waits s i

/-- What an entry does for its connection. -/
inductive Entry (s t : Server) (i : ℕ) : Prop
  | accept (hwaits : Waits s i) (haccepted : ¬ Waits t i) (hheard : heard t i = heard s i)
    (hqueue : queue t i = queue s i) (hreplied : replied t i = replied s i)
    (houtputs : i + 1 ∈ t.outputs ↔ i + 1 ∈ s.outputs)
  | read {data : List UInt8} {text : List Char} (hdata : data ≠ []) (hheard : heard t i = heard s i ++ data)
    (hqueue : queue t i = queue s i ++ [text]) (hreplied : replied t i = replied s i) (hwaits : Waits t i ↔ Waits s i)
  | send {msg : List Char} {m : List UInt8} (hm : m ≠ []) (hheard : heard t i = heard s i)
    (hqueue : queue s i = msg :: queue t i) (hreplied : replied t i = replied s i ++ m)
    (houtputs : i + 1 ∈ t.outputs ↔ i + 1 ∈ s.outputs) (hwaits : Waits t i ↔ Waits s i)
  | empty (hheard : heard t i = heard s i) (hqueue : queue t i = queue s i) (hreplied : replied t i = replied s i)
    (hin : i + 1 ∈ s.outputs) (hout : i + 1 ∉ t.outputs) (hwaits : Waits t i ↔ Waits s i)

/-- An entry for a connection that was made. -/
structure Moves (connected : ℕ) (s t : Server) (i : ℕ) : Prop where
  connected : i < connected
  entry : Entry s t i
  others : ∀ j, j ≠ i → Same s t j

/-- What holds of the server while the client has sent `sent` on `connected` connections. -/
structure Law (sent : ℕ → List Char) (connected : ℕ) (s : Server) : Prop where
  replies : RepliesInv asciiUpper s
  closed : s.closed = []
  made : s.made ≤ connected + 1
  reads : ∀ i, heard s i <+: encode (sent i)
  texts : ∀ c q, s.msgQueue c = some q → [] ∉ q
  decodes : TextsDecode s

section Pass

variable {sent : ℕ → List Char} {connected : ℕ} {s t : Server}

theorem Law.accept (h : Law sent connected s) (hmade : s.made ≤ connected) :
    Law sent connected s.addConn ∧ ∃ i, Moves connected s s.addConn i := by
  have hfresh : s.msgQueue s.made = none := by
    by_contra hsome
    exact h.replies.inv.fresh ((h.replies.inv.keys _).mp (Option.isSome_iff_ne_none.mpr hsome)).1
  have hpos : 0 < s.made := Nat.pos_of_ne_zero h.replies.inv.made_ne_master
  have hmore : s.addConn.made = s.made + 1 := rfl
  have hsame : ∀ j, queue s.addConn j = queue s j := fun j => queue_addConn hfresh
  refine ⟨⟨h.replies.addConn, h.closed, Nat.succ_le_succ hmade, h.reads, fun c q hq => ?_, h.decodes⟩,
    s.made - 1, by omega, ?_, ?_⟩
  · by_cases hc : c = s.made
    · obtain rfl : [] = q := by simpa [Server.addConn, hc] using hq
      exact List.not_mem_nil
    · exact h.texts c q (by simpa [Server.addConn, Function.update_of_ne hc] using hq)
  · refine .accept ?_ ?_ rfl (hsame _) rfl Iff.rfl
    · show s.made ≤ s.made - 1 + 1
      omega
    · show ¬ s.made + 1 ≤ s.made - 1 + 1
      omega
  · intro j hj
    refine ⟨rfl, hsame j, rfl, Iff.rfl, ?_⟩
    show s.made + 1 ≤ j + 1 ↔ s.made ≤ j + 1
    omega

/-- What was read, and what is read next. -/
theorem prefix_append {heard data sent : List UInt8} (hheard : heard <+: sent)
    (hdata : data <+: sent.drop heard.length) : heard ++ data <+: sent := by
  obtain ⟨rest, rfl⟩ := hheard
  rw [List.drop_left] at hdata
  exact (List.prefix_append_right_inj heard).mpr hdata

theorem Law.receive (h : Law sent connected s) {i : ℕ} {q : List (List Char)} (hq : s.msgQueue (i + 1) = some q)
    {data : List UInt8} (hdata : data ≠ []) (hnext : data <+: (encode (sent i)).drop (heard s i).length)
    {text : List Char} (htext : text ≠ []) (hdecode : decode data = some text) :
    Law sent connected (s.enqueue (i + 1) q data text) ∧ Moves connected s (s.enqueue (i + 1) q data text) i := by
  have hlt : i + 1 < s.made := h.replies.inv.inputsMade _ ((h.replies.inv.keys _).mp (by simp [hq])).1
  have hmade := h.made
  have hqueue : queue s i = q := by simp [queue, hq]
  refine ⟨⟨h.replies.enqueue hq data text, ?_, ?_, fun j => ?_, fun c r hr => ?_, fun c d u hmem => ?_⟩, by omega, ?_,
    fun j hj => ?_⟩
  · rw [Server.enqueue_closed]
    exact h.closed
  · rw [Server.enqueue_made]
    exact h.made
  · rw [heard_enqueue]
    by_cases hj : i + 1 = j + 1
    · obtain rfl : i = j := Nat.succ.inj hj
      rw [if_pos rfl]
      exact prefix_append (h.reads i) hnext
    · rw [if_neg hj, List.append_nil]
      exact h.reads j
  · rw [Server.enqueue_msgQueue] at hr
    by_cases hc : c = i + 1
    · subst hc
      obtain rfl : q ++ [text] = r := by simpa using hr
      have hold := h.texts _ q hq
      simpa [hold] using htext
    · rw [Function.update_of_ne hc] at hr
      exact h.texts c r hr
  · rw [Server.enqueue_log, List.mem_append, List.mem_singleton] at hmem
    rcases hmem with hmem | hnew
    · exact h.decodes c d u hmem
    · obtain ⟨-, rfl, rfl⟩ := Call.received.inj hnew
      exact hdecode
  · refine .read hdata (by rw [heard_enqueue, if_pos rfl]) (by rw [queue_enqueue, if_pos rfl, hqueue])
      (replied_enqueue data text) ?_
    rw [Waits, Server.enqueue_made]
  · have hne : ¬ i + 1 = j + 1 := fun heq => hj (Nat.succ.inj heq).symm
    refine ⟨by rw [heard_enqueue, if_neg hne, List.append_nil], by rw [queue_enqueue, if_neg hne],
      replied_enqueue data text, ?_, ?_⟩
    · rw [Server.mem_enqueue_outputs]
      exact or_iff_left fun heq => hne heq.symm
    · rw [Waits, Server.enqueue_made]

/-- A readable socket is handled. -/
theorem Law.read (h : Law sent connected s) (hascii : ∀ i, Ascii (sent i)) {r : Sock × ReadAns}
    (hin : r.1 ∈ s.inputs) (hr : Readable sent connected s r) :
    ∃ t, ReadStep s r t ∧ Law sent connected t ∧ (∃ i, Moves connected s t i) ∧
      (∀ d ∈ s.inputs, d ∈ t.inputs) ∧ (∀ d ∈ s.outputs, d ∈ t.outputs) ∧
      (∀ j, j + 1 ≠ r.1 → heard t j = heard s j) ∧ (r.1 ≠ 0 → t.made = s.made) := by
  obtain ⟨c, a⟩ := r
  obtain ⟨hok, hpeer, hkind⟩ := hr
  have hopen : ∀ d, d ∉ s.closed := by simp [h.closed]
  cases c with
  | zero =>
    obtain ⟨hlaw, hmoves⟩ := h.accept hkind
    exact ⟨_, .accept (hopen _) hok, hlaw, hmoves, fun d hd => List.mem_append_left _ hd, fun d hd => hd,
      fun j _ => rfl, fun hne => absurd rfl hne⟩
  | succ i =>
    obtain ⟨hdata, hnext⟩ := hkind
    obtain ⟨q, hq⟩ := Option.isSome_iff_exists.mp ((h.replies.inv.keys (i + 1)).mpr ⟨hin, Nat.succ_ne_zero i⟩)
    -- the chunk is a slice of the client's text
    have hslice := (hascii i).decode_slice (heard s i).length a.data.length
    rw [← List.prefix_iff_eq_take.mp hnext] at hslice
    obtain ⟨x, text, htext⟩ : ∃ x text, ((sent i).drop (heard s i).length).take a.data.length = x :: text := by
      apply List.exists_cons_of_ne_nil
      intro hnil
      rw [hnil] at hslice
      exact hdata (decode_eq_some_nil.mp hslice)
    rw [htext] at hslice
    obtain ⟨hlaw, hmoves⟩ := h.receive hq hdata hnext (List.cons_ne_nil x text) hslice
    have hstep : ReadStep s (i + 1, a) (s.enqueue (i + 1) q a.data (x :: text)) :=
      .data (Nat.succ_ne_zero i) (hopen _) hok hpeer hslice hq
    refine ⟨_, hstep, hlaw, ⟨i, hmoves⟩, fun d hd => ?_, fun d hd => ?_, fun j hj => ?_,
      fun _ => Server.enqueue_made _ _ _ _ _⟩
    · rwa [Server.enqueue_inputs]
    · exact (Server.mem_enqueue_outputs _ _ _ _ _).mpr (.inl hd)
    · rw [heard_enqueue, if_neg (Ne.symm hj), List.append_nil]

/-- A writable socket is handled. -/
theorem Law.write (h : Law sent connected s) {w : Sock × WriteAns} (hout : w.1 ∈ s.outputs) (hw : Writable w) :
    ∃ t, WriteStep asciiUpper s w t ∧ Law sent connected t ∧ (∃ i, Moves connected s t i) ∧
      (∀ d ∈ s.outputs, d ≠ w.1 → d ∈ t.outputs) := by
  obtain ⟨c, a⟩ := w
  obtain ⟨hpeer, n, hsent, hpos⟩ := hw
  have hopen : ∀ d, d ∉ s.closed := by simp [h.closed]
  have hinv := h.replies.inv
  have hkey := hinv.outputsKeys c hout
  obtain ⟨q, hq⟩ := Option.isSome_iff_exists.mp hkey
  obtain ⟨hin, hmaster⟩ := (hinv.keys c).mp hkey
  obtain ⟨i, rfl⟩ := Nat.exists_eq_succ_of_ne_zero hmaster
  have hlt : i + 1 < s.made := hinv.inputsMade _ hin
  have hmade := h.made
  cases q with
  | nil =>
    have hstep : WriteStep asciiUpper s (i + 1, a) { s with outputs := s.outputs.erase (i + 1) } :=
      .empty hq (hopen _) hpeer hout
    have hgone : i + 1 ∉ s.outputs.erase (i + 1) := hinv.outputsNodup.not_mem_erase
    refine ⟨_, hstep,
      ⟨⟨hinv.writeStep hstep, h.replies.old, h.replies.kept, h.replies.conserved⟩, h.closed, h.made, h.reads, h.texts,
        h.decodes⟩,
      ⟨i, by omega, .empty rfl rfl rfl hout hgone Iff.rfl, fun j hj => ?_⟩, fun d hd hne => ?_⟩
    · exact ⟨rfl, rfl, rfl, List.mem_erase_of_ne fun heq => hj (Nat.succ.inj heq), Iff.rfl⟩
    · exact (List.mem_erase_of_ne hne).mpr hd
  | cons msg q =>
    have hstep : WriteStep asciiUpper s (i + 1, a) (s.sends (i + 1) q (encode (msg.flatMap asciiUpper)) n) :=
      .send hq (hopen _) hpeer hsent
    have hmsg : msg ≠ [] := fun hnil => h.texts _ _ hq (hnil ▸ List.mem_cons_self)
    have hbytes : encode (msg.flatMap asciiUpper) ≠ [] := by
      intro hnil
      have hdecode := decode_encode (msg.flatMap asciiUpper)
      rw [hnil, decode_eq_some_nil.mpr rfl] at hdecode
      obtain ⟨x, msg, rfl⟩ := List.exists_cons_of_ne_nil hmsg
      simp [asciiUpper] at hdecode
    have hqueue : queue s i = msg :: q := by simp [queue, hq]
    have hreplies := h.replies.sends hq n (hinv.writeStep hstep)
    refine ⟨_, hstep, ⟨hreplies, h.closed, h.made, fun j => ?_, fun c r hr => ?_, fun c d u hmem => ?_⟩,
      ⟨i, by omega, ?_, fun j hj => ?_⟩, fun d hd _ => hd⟩
    · rw [heard_sends]
      exact h.reads j
    · by_cases hc : c = i + 1
      · subst hc
        obtain rfl : q = r := by simpa [Server.sends] using hr
        exact fun hnil => h.texts _ _ hq (List.mem_cons_of_mem msg hnil)
      · exact h.texts c r (by simpa [Server.sends, Function.update_of_ne hc] using hr)
    · exact h.decodes c d u (by simpa [Server.sends] using hmem)
    · have hm : (encode (msg.flatMap asciiUpper)).take n ≠ [] := by
        rw [Ne, List.take_eq_nil_iff, not_or]
        exact ⟨Nat.pos_iff_ne_zero.mp hpos, hbytes⟩
      have htaken : queue s i = msg :: queue (s.sends (i + 1) q (encode (msg.flatMap asciiUpper)) n) i := by
        rw [queue_sends, if_pos rfl, hqueue]
      refine .send hm (heard_sends _ _) htaken ?_ Iff.rfl Iff.rfl
      rw [replied_sends, if_pos rfl]
    · have hne : ¬ i + 1 = j + 1 := fun heq => hj (Nat.succ.inj heq).symm
      have hreplied : replied (s.sends (i + 1) q (encode (msg.flatMap asciiUpper)) n) j = replied s j := by
        rw [replied_sends, if_neg hne, List.append_nil]
      exact ⟨heard_sends _ _, by rw [queue_sends, if_neg hne], hreplied, Iff.rfl, Iff.rfl⟩

/-! ## What is left to do -/

/-- For connection `i`, on which `total i` bytes are sent in the end: a byte may take a read, a send, and an entry
that takes the socket out of `outputs`. -/
def load (total : ℕ → ℕ) (s : Server) (i : ℕ) : ℕ :=
  3 * (total i - (heard s i).length) + (queue s i).length + (if i + 1 ∈ s.outputs then 1 else 0) +
    if Waits s i then 1 else 0

/-- Something that the client sent, or an answer to it, has not come back. -/
def Owes (sent : ℕ → List Char) (got : ℕ → List UInt8) (s : Server) (i : ℕ) : Prop :=
  (heard s i).length < (encode (sent i)).length ∨ queue s i ≠ [] ∨ (got i).length < (replied s i).length

theorem Same.load_eq {i : ℕ} (h : Same s t i) (total : ℕ → ℕ) : load total t i = load total s i := by
  unfold load
  rw [h.heard, h.queue, if_congr h.outputs rfl rfl, if_congr h.waits rfl rfl]

/-- **Every entry does some of it.** -/
theorem Entry.load_lt {i : ℕ} (h : Entry s t i) {total : ℕ → ℕ} (hle : (heard t i).length ≤ total i) :
    load total t i < load total s i := by
  unfold load
  cases h with
  | accept hwaits haccepted hheard hqueue hreplied houtputs =>
    rw [hheard, hqueue, if_congr houtputs rfl rfl, if_pos hwaits, if_neg haccepted]
    omega
  | read hdata hheard hqueue hreplied hwaits =>
    have hpos := List.length_pos_iff.mpr hdata
    rw [hheard, List.length_append] at hle ⊢
    rw [hqueue, List.length_append, List.length_singleton, if_congr hwaits rfl rfl]
    split_ifs <;> omega
  | send hm hheard hqueue hreplied houtputs hwaits =>
    rw [hheard, hqueue, List.length_cons, if_congr houtputs rfl rfl, if_congr hwaits rfl rfl]
    omega
  | empty hheard hqueue hreplied hin hout hwaits =>
    rw [hheard, hqueue, if_pos hin, if_neg hout, if_congr hwaits rfl rfl]
    omega

theorem Entry.replied {i : ℕ} (h : Entry s t i) : replied s i <+: replied t i := by
  cases h with
  | send hm hheard hqueue hreplied houtputs hwaits =>
    rw [hreplied]
    exact List.prefix_append _ _
  | accept hwaits haccepted hheard hqueue hreplied houtputs => rw [hreplied]
  | read hdata hheard hqueue hreplied hwaits => rw [hreplied]
  | empty hheard hqueue hreplied hin hout hwaits => rw [hreplied]

/-- **No entry loses what is owed.** -/
theorem Entry.owes {i : ℕ} (h : Entry s t i) {got : ℕ → List UInt8} (hgot : got i <+: PySelectServer.replied s i)
    (howes : Owes sent got s i) : Owes sent got t i := by
  unfold Owes at howes ⊢
  cases h with
  | accept hwaits haccepted hheard hqueue hreplied houtputs => rwa [hheard, hqueue, hreplied]
  | empty hheard hqueue hreplied hin hout hwaits => rwa [hheard, hqueue, hreplied]
  | read hdata hheard hqueue hreplied hwaits => exact .inr (.inl (by simp [hqueue]))
  | send hm hheard hqueue hreplied houtputs hwaits =>
    have hle := hgot.length_le
    have hpos := List.length_pos_iff.mpr hm
    refine .inr (.inr ?_)
    rw [hreplied, List.length_append]
    omega

/-- From `s` the server has come to `t`, with `m` entries. -/
structure Ran (sent : ℕ → List Char) (connected : ℕ) (s t : Server) (m : ℕ) : Prop where
  law : Law sent connected t
  load : ∀ (total : ℕ → ℕ) (n : ℕ), connected ≤ n → (∀ i, (encode (sent i)).length ≤ total i) →
    ∑ i ∈ range n, load total t i + m ≤ ∑ i ∈ range n, load total s i
  owes : ∀ (got : ℕ → List UInt8) i, got i <+: replied s i → Owes sent got s i → Owes sent got t i
  replied : ∀ i, replied s i <+: replied t i

namespace Ran

theorem refl (h : Law sent connected s) : Ran sent connected s s 0 :=
  ⟨h, fun _ _ _ _ => Nat.le_refl _, fun _ _ _ howes => howes, fun _ => List.prefix_rfl⟩

theorem single (h : Law sent connected t) {i : ℕ} (hmoves : Moves connected s t i) : Ran sent connected s t 1 := by
  refine ⟨h, fun total n hn htotal => ?_, fun got j hgot howes => ?_, fun j => ?_⟩
  · have hlt := hmoves.entry.load_lt ((h.reads i).length_le.trans (htotal i))
    refine Finset.sum_lt_sum (fun j _ => ?_) ⟨i, Finset.mem_range.mpr (hmoves.connected.trans_le hn), hlt⟩
    by_cases hj : j = i
    · exact hj ▸ hlt.le
    · exact ((hmoves.others j hj).load_eq total).le
  · by_cases hj : j = i
    · subst hj
      exact hmoves.entry.owes hgot howes
    · have hsame := hmoves.others j hj
      unfold Owes at howes ⊢
      rwa [hsame.heard, hsame.queue, hsame.replied]
  · by_cases hj : j = i
    · exact hj ▸ hmoves.entry.replied
    · rw [(hmoves.others j hj).replied]

theorem trans {u : Server} {m n : ℕ} (h : Ran sent connected s t m) (h' : Ran sent connected t u n) :
    Ran sent connected s u (m + n) := by
  refine ⟨h'.law, fun total k hk htotal => ?_, fun got i hgot howes => ?_, fun i => (h.replied i).trans (h'.replied i)⟩
  · have hfirst := h.load total k hk htotal
    have hsecond := h'.load total k hk htotal
    omega
  · exact h'.owes got i (hgot.trans (h.replied i)) (h.owes got i hgot howes)

end Ran

/-- **The first loop does not raise.** -/
theorem Law.reads_run (h : Law sent connected s) (hascii : ∀ i, Ascii (sent i)) {l : List (Sock × ReadAns)}
    (hnodup : (l.map Prod.fst).Nodup) (hl : ∀ r ∈ l, r.1 ∈ s.inputs ∧ Readable sent connected s r) :
    ∃ t, l.foldlM onReadable s = .ok t ∧ Ran sent connected s t l.length ∧ ∀ d ∈ s.outputs, d ∈ t.outputs := by
  induction l generalizing s with
  | nil => exact ⟨s, rfl, .refl h, fun _ hd => hd⟩
  | cons r l ih =>
    rw [List.map_cons, List.nodup_cons] at hnodup
    obtain ⟨hin, hr⟩ := hl r List.mem_cons_self
    obtain ⟨u, hstep, hlaw, ⟨i, hmoves⟩, hinputs, houtputs, hheard, hmade⟩ := h.read hascii hin hr
    have hrest : ∀ r' ∈ l, r'.1 ∈ u.inputs ∧ Readable sent connected u r' := by
      intro r' hr'
      have hne : r'.1 ≠ r.1 := fun heq => hnodup.1 (heq ▸ List.mem_map_of_mem hr')
      obtain ⟨hin', hok, hpeer, hkind⟩ := hl r' (List.mem_cons_of_mem r hr')
      refine ⟨hinputs _ hin', hok, hpeer, ?_⟩
      obtain ⟨c, a⟩ := r'
      cases c with
      | zero => exact (hmade (Ne.symm hne)).symm ▸ hkind
      | succ j =>
        show a.data ≠ [] ∧ a.data <+: (encode (sent j)).drop (heard u j).length
        rw [hheard j hne]
        exact hkind
    obtain ⟨t, hloop, hran, hmore⟩ := ih hlaw hnodup.2 hrest
    refine ⟨t, ?_, ?_, fun d hd => hmore d (houtputs d hd)⟩
    · rw [List.foldlM_cons, onReadable_eq_ok.mpr hstep]
      exact hloop
    · rw [List.length_cons, Nat.add_comm]
      exact (Ran.single hlaw hmoves).trans hran

/-- **The second loop does not raise.** -/
theorem Law.writes_run (h : Law sent connected s) {l : List (Sock × WriteAns)} (hnodup : (l.map Prod.fst).Nodup)
    (hl : ∀ w ∈ l, w.1 ∈ s.outputs ∧ Writable w) :
    ∃ t, l.foldlM (onWritable asciiUpper) s = .ok t ∧ Ran sent connected s t l.length := by
  induction l generalizing s with
  | nil => exact ⟨s, rfl, .refl h⟩
  | cons w l ih =>
    rw [List.map_cons, List.nodup_cons] at hnodup
    obtain ⟨hout, hw⟩ := hl w List.mem_cons_self
    obtain ⟨u, hstep, hlaw, ⟨i, hmoves⟩, houtputs⟩ := h.write hout hw
    have hrest : ∀ w' ∈ l, w'.1 ∈ u.outputs ∧ Writable w' := by
      intro w' hw'
      have hne : w'.1 ≠ w.1 := fun heq => hnodup.1 (heq ▸ List.mem_map_of_mem hw')
      obtain ⟨hout', hwritable⟩ := hl w' (List.mem_cons_of_mem w hw')
      exact ⟨houtputs _ hout' hne, hwritable⟩
    obtain ⟨t, hloop, hran⟩ := ih hlaw hnodup.2 hrest
    refine ⟨t, ?_, ?_⟩
    · rw [List.foldlM_cons, onWritable_eq_ok.mpr hstep]
      exact hloop
    · rw [List.length_cons, Nat.add_comm]
      exact (Ran.single hlaw hmoves).trans hran

/-- **A pass does not raise**, and does something. -/
theorem Law.pass_run (h : Law sent connected s) (hascii : ∀ i, Ascii (sent i)) {e : Ready}
    (he : Answers sent connected s e) : ∃ t m, body asciiUpper s e = .next t ∧ 0 < m ∧ Ran sent connected s t m := by
  obtain ⟨⟨⟨hnodup, hin⟩, ⟨hnodup', hout⟩, -⟩, hreadable, hwritable, hnone, hwork⟩ := he
  obtain ⟨u, hreads, hran, houtputs⟩ := h.reads_run hascii hnodup fun r hr => ⟨(hin r hr).1, hreadable r hr⟩
  obtain ⟨t, hwrites, hran'⟩ := hran.law.writes_run hnodup' fun w hw => ⟨houtputs _ (hout w hw), hwritable w hw⟩
  have hpass : pass asciiUpper s e = .ok t := pass_eq_ok.mpr ⟨u, t, hreads, hwrites, by rw [hnone]; rfl⟩
  refine ⟨t, _, ?_, ?_, hran.trans hran'⟩
  · unfold body
    rw [if_neg (List.ne_nil_of_mem h.replies.inv.master), if_neg fun hall => hwork ⟨hall.1, hall.2.1⟩, hpass]
  · by_contra hzero
    apply hwork
    constructor <;> apply List.eq_nil_of_length_eq_zero <;> omega

end Pass

end NetProg.PySelectServer
