/-
# NetProg.Python.PassFailures -- when a pass of the select server fails on its own bookkeeping.

The first loop closes and forgets a socket whose client has closed.  `select` may have named the same
socket writable, or exceptional, and then the second loop looks up a key that is gone, or the third one
uses a closed socket.  Nothing else goes wrong with the bookkeeping: `Stale` says of the answers of a pass
that such a socket is reached before anything else raises; a pass fails on its own bookkeeping in that
case only.
-/
import NetProg.Python.Bookkeeping

namespace NetProg.PySelectServer

/-! ## The condition -/

/-- Among the readable sockets of `l`, the connection `c` has reached its end. -/
def AtEof (l : List (Sock × ReadAns)) (c : Sock) : Prop :=
  ∃ a, (c, a) ∈ l ∧ c ≠ masterSocket ∧ a.data = []

/-- The connection `c` has something queued at the loop head, or receives something. -/
def HasMessage (s : Server) (l : List (Sock × ReadAns)) (c : Sock) : Prop :=
  s.msgQueue c ≠ some [] ∨ ∃ a, (c, a) ∈ l ∧ a.data ≠ []

/-- The first loop raises at this socket: the kernel refuses a call, or the bytes do not decode. -/
def ReadFails (r : Sock × ReadAns) : Prop :=
  r.2.ok = false ∨ (r.1 ≠ masterSocket ∧ (decode r.2.data = none ∨ r.2.peer = false))

/-- The kernel refuses a call that the second loop makes on this socket. -/
def WriteFails (s : Server) (e : Ready) (w : Sock × WriteAns) : Prop :=
  w.2.peer = false ∨ (HasMessage s e.readable w.1 ∧ w.2.sent = none)

/-- The kernel refuses the call that the third loop makes on this socket. -/
def ExceptFails (x : Sock × Bool) : Prop := x.2 = false

/-- The second or the third loop reaches a socket that the first one closed. -/
def Stale (s : Server) (e : Ready) : Prop :=
  (∀ r ∈ e.readable, ¬ ReadFails r) ∧
    (ReachesBad (fun w => AtEof e.readable w.1) (WriteFails s e) e.writable ∨
      (∀ w ∈ e.writable, ¬ AtEof e.readable w.1 ∧ ¬ WriteFails s e w) ∧
        ReachesBad (fun x => AtEof e.readable x.1) ExceptFails e.exceptional)

/-- The pass looks up or deletes a missing key, removes an absent element, or uses a closed socket. -/
def OwnFailure (upper : Char → List Char) (s : Server) (e : Ready) : Prop :=
  ∃ x, pass upper s e = .error x ∧ x.isOwn = true

section Facts

variable {l : List (Sock × ReadAns)} {c d : Sock} {a : ReadAns} {s : Server}

theorem atEof_append : AtEof (l ++ [(c, a)]) d ↔
    AtEof l d ∨ (d = c ∧ c ≠ masterSocket ∧ a.data = []) := by
  constructor
  · rintro ⟨b, hmem, hd, hdata⟩
    rcases List.mem_append.mp hmem with hmem | hmem
    · exact Or.inl ⟨b, hmem, hd, hdata⟩
    · obtain ⟨rfl, rfl⟩ := Prod.mk.inj (List.mem_singleton.mp hmem)
      exact Or.inr ⟨rfl, hd, hdata⟩
  · rintro (⟨b, hmem, hd, hdata⟩ | ⟨rfl, hd, hdata⟩)
    · exact ⟨b, List.mem_append_left _ hmem, hd, hdata⟩
    · exact ⟨a, List.mem_append_right _ (List.mem_singleton_self _), hd, hdata⟩

theorem hasMessage_append : HasMessage s (l ++ [(c, a)]) d ↔
    HasMessage s l d ∨ (d = c ∧ a.data ≠ []) := by
  constructor
  · rintro (hqueue | ⟨b, hmem, hdata⟩)
    · exact Or.inl (Or.inl hqueue)
    · rcases List.mem_append.mp hmem with hmem | hmem
      · exact Or.inl (Or.inr ⟨b, hmem, hdata⟩)
      · obtain ⟨rfl, rfl⟩ := Prod.mk.inj (List.mem_singleton.mp hmem)
        exact Or.inr ⟨rfl, hdata⟩
  · rintro ((hqueue | ⟨b, hmem, hdata⟩) | ⟨rfl, hdata⟩)
    · exact Or.inl hqueue
    · exact Or.inr ⟨b, List.mem_append_left _ hmem, hdata⟩
    · exact Or.inr ⟨a, List.mem_append_right _ (List.mem_singleton_self _), hdata⟩

theorem call_granted (hopen : c ∉ s.closed) : s.call c true = .ok () := by
  rw [Server.call, if_neg hopen]
  rfl

theorem call_refused (hopen : c ∉ s.closed) : s.call c false = .error .osError := by
  rw [Server.call, if_neg hopen]
  rfl

theorem call_closed {ok : Bool} (hclosed : c ∈ s.closed) : s.call c ok = .error .closedSocket := by
  rw [Server.call, if_pos hclosed]

theorem decode_eq_some_nil {b : List UInt8} : decode b = some [] ↔ b = [] := by
  rw [decode_eq_some_iff, encode_nil, eq_comm]

end Facts

/-! ## The first loop -/

/-- What the first loop has made of the head `s` after the readable sockets `done`. -/
structure ReadTo (s : Server) (done : List (Sock × ReadAns)) (t : Server) : Prop where
  inv : Inv t
  stays : ∀ c ∈ s.inputs, ¬ AtEof done c → c ∈ t.inputs
  leaves : ∀ c, AtEof done c → c ∈ t.closed ∧ t.msgQueue c = none
  outputs : ∀ c ∈ s.outputs, ¬ AtEof done c → c ∈ t.outputs
  queue : ∀ c ∈ s.outputs, ¬ AtEof done c → (t.msgQueue c = some [] ↔ ¬ HasMessage s done c)

namespace ReadTo

variable {s t : Server} {done : List (Sock × ReadAns)} {c : Sock} {a : ReadAns}

theorem start (hs : Inv s) : ReadTo s [] s where
  inv := hs
  stays := fun c hc _ => hc
  leaves := by simp [AtEof]
  outputs := fun c hc _ => hc
  queue := by simp [HasMessage]

/-- One more readable socket, which is still in `inputs`. -/
theorem step (hs : Inv s) (h : ReadTo s done t) {t' : Server} (hc : c ∈ t.inputs)
    (hstep : ReadStep t (c, a) t') : ReadTo s (done ++ [(c, a)]) t' := by
  have hinv := h.inv.readStep hstep
  have houtputs : ∀ d ∈ s.outputs, d ∈ s.inputs ∧ d ≠ masterSocket := fun d hd =>
    (hs.keys d).mp (hs.outputsKeys d hd)
  cases hstep with
  | accept hopen hok =>
    have heof : ∀ d, AtEof (done ++ [(masterSocket, a)]) d ↔ AtEof done d := by
      intro d
      rw [atEof_append]
      simp
    refine ⟨hinv, fun d hd hno => ?_, fun d hd => ?_, fun d hd hno => ?_, fun d hd hno => ?_⟩
    · exact List.mem_append_left _ (h.stays d hd (by rwa [← heof]))
    · obtain ⟨hclosed, hkey⟩ := h.leaves d ((heof d).mp hd)
      have hne : d ≠ t.made := Nat.ne_of_lt (h.inv.closedMade d hclosed)
      exact ⟨hclosed, by simpa [Server.addConn, Function.update_of_ne hne] using hkey⟩
    · exact h.outputs d hd (by rwa [← heof])
    · rw [heof] at hno
      have hne : d ≠ t.made :=
        Nat.ne_of_lt (h.inv.inputsMade d (h.stays d (houtputs d hd).1 hno))
      have hqueue := h.queue d hd hno
      rw [hasMessage_append]
      simpa [Server.addConn, Function.update_of_ne hne, (houtputs d hd).2] using hqueue
  | eof hcm hopen hok hpeer hdecode hin hkey =>
    have hdata : a.data = [] := decode_eq_some_nil.mp hdecode
    have hsplit : ∀ d, ¬ AtEof (done ++ [(c, a)]) d → ¬ AtEof done d ∧ d ≠ c := by
      intro d hno
      rw [atEof_append, not_or] at hno
      exact ⟨hno.1, fun heq => hno.2 ⟨heq, hcm, hdata⟩⟩
    refine ⟨hinv, fun d hd hno => ?_, fun d hd => ?_, fun d hd hno => ?_, fun d hd hno => ?_⟩
    · obtain ⟨hold, hne⟩ := hsplit d hno
      exact (List.mem_erase_of_ne hne).mpr (h.stays d hd hold)
    · by_cases hd' : d = c
      · simp [Server.forget, hd']
      · obtain ⟨hclosed, hkey'⟩ := h.leaves d ((atEof_append.mp hd).resolve_right fun hnew => hd' hnew.1)
        refine ⟨List.mem_append_left _ hclosed, ?_⟩
        simpa [Server.forget, Function.update_of_ne hd'] using hkey'
    · obtain ⟨hold, hne⟩ := hsplit d hno
      exact (List.mem_erase_of_ne hne).mpr (h.outputs d hd hold)
    · obtain ⟨hold, hne⟩ := hsplit d hno
      rw [hasMessage_append]
      simpa [Server.forget, Function.update_of_ne hne, hdata] using h.queue d hd hold
  | @data _ _ x text q hcm hopen hok hpeer hdecode hq =>
    have hdata : a.data ≠ [] := by
      intro hnil
      rw [decode_eq_some_nil.mpr hnil] at hdecode
      simp at hdecode
    have hold : ∀ d, AtEof (done ++ [(c, a)]) d ↔ AtEof done d := by
      intro d
      rw [atEof_append]
      simp [hdata]
    refine ⟨hinv, fun d hd hno => ?_, fun d hd => ?_, fun d hd hno => ?_, fun d hd hno => ?_⟩
    · rw [Server.enqueue_inputs]
      exact h.stays d hd (by rwa [← hold])
    · obtain ⟨hclosed, hkey⟩ := h.leaves d ((hold d).mp hd)
      have hne : d ≠ c := by
        rintro rfl
        simp [hq] at hkey
      rw [Server.enqueue_closed, Server.enqueue_msgQueue, Function.update_of_ne hne]
      exact ⟨hclosed, hkey⟩
    · exact (Server.mem_enqueue_outputs _ _ _ _ _).mpr (Or.inl (h.outputs d hd (by rwa [← hold])))
    · rw [Server.enqueue_msgQueue, hasMessage_append]
      by_cases hdc : d = c
      · subst hdc
        simp [hdata]
      · rw [Function.update_of_ne hdc, h.queue d hd (by rwa [← hold])]
        simp [hdc]

end ReadTo

/-- Before each entry of the first loop. -/
def ReadGood (s : Server) (e : Ready) (t : Server) (l : List (Sock × ReadAns)) : Prop :=
  ∃ done, e.readable = done ++ l ∧ ReadTo s done t ∧ ∀ r ∈ l, r.1 ∈ t.inputs

/-- **The first loop raises only what is not its own fault.** -/
theorem readEntries {s : Server} {e : Ready} (hs : Inv s) (hnodup : (e.readable.map Prod.fst).Nodup) :
    Entries onReadable (fun x => x.isOwn = true) (fun _ => False) ReadFails (ReadGood s e) where
  atBad := fun _ h => h.elim
  atFails := by
    rintro t ⟨c, a⟩ l ⟨done, hcut, hto, hin⟩ - hfails
    have hopen : c ∉ t.closed := hto.inv.inputsOpen c (hin _ List.mem_cons_self)
    unfold onReadable
    dsimp only
    cases hok : a.ok with
    | false =>
      refine ⟨.osError, ?_, by decide⟩
      rw [call_refused hopen]
      by_cases hc : c = masterSocket
      · rw [if_pos hc]
        rfl
      · rw [if_neg hc]
        rfl
    | true =>
      obtain ⟨hc, hbad⟩ := hfails.resolve_left (by simp [hok])
      rw [if_neg hc, call_granted hopen]
      cases hdecode : decode a.data with
      | none => exact ⟨.decodeError c, rfl, by simp [Exn.isOwn]⟩
      | some text =>
        have hpeer : a.peer = false := hbad.resolve_left (by simp [hdecode])
        refine ⟨.osError, ?_, by decide⟩
        rw [hpeer, call_refused hopen]
        cases text <;> rfl
  atNext := by
    rintro t ⟨c, a⟩ l ⟨done, hcut, hto, hin⟩ - hok
    have hc : c ∈ t.inputs := hin _ List.mem_cons_self
    have hopen : c ∉ t.closed := hto.inv.inputsOpen c hc
    simp only [ReadFails, not_or, not_and, Bool.not_eq_false] at hok
    -- the step exists, and the sockets to come are others
    have hex : ∃ t', ReadStep t (c, a) t' ∧ ∀ d ∈ t.inputs, d ≠ c → d ∈ t'.inputs := by
      by_cases hcm : c = masterSocket
      · subst hcm
        exact ⟨_, .accept hopen hok.1, fun d hd _ => List.mem_append_left _ hd⟩
      · obtain ⟨hdecode, hpeer⟩ := hok.2 hcm
        obtain ⟨q, hq⟩ := Option.isSome_iff_exists.mp ((hto.inv.keys c).mpr ⟨hc, hcm⟩)
        cases htext : decode a.data with
        | none => exact absurd htext hdecode
        | some text =>
          cases text with
          | nil =>
            refine ⟨_, .eof hcm hopen hok.1 hpeer htext hc (by simp [hq]), fun d hd hne => ?_⟩
            exact (List.mem_erase_of_ne hne).mpr hd
          | cons x text =>
            refine ⟨_, .data hcm hopen hok.1 hpeer htext hq, fun d hd _ => ?_⟩
            rwa [Server.enqueue_inputs]
    obtain ⟨t', hstep, hothers⟩ := hex
    refine ⟨t', onReadable_eq_ok.mpr hstep, done ++ [(c, a)], by simp [hcut], hto.step hs hc hstep, ?_⟩
    intro r hr
    refine hothers r.1 (hin r (List.mem_cons_of_mem _ hr)) fun heq => ?_
    rw [hcut, List.map_append, List.map_cons] at hnodup
    have hnot : c ∉ l.map Prod.fst := (List.nodup_cons.mp (List.nodup_append.mp hnodup).2.1).1
    exact hnot (heq ▸ List.mem_map_of_mem hr)

/-! ## The second loop -/

/-- Before each entry of the second loop, which began at `s₁`: the sockets to come have not changed. -/
structure WriteGood (s s₁ t : Server) (l : List (Sock × WriteAns)) : Prop where
  inv : Inv t
  inputs : t.inputs = s₁.inputs
  closed : t.closed = s₁.closed
  nodup : (l.map Prod.fst).Nodup
  entries : ∀ w ∈ l, w.1 ∈ s.outputs ∧ (w.1 ∈ s₁.outputs → w.1 ∈ t.outputs) ∧
    t.msgQueue w.1 = s₁.msgQueue w.1

/-- A socket of the second loop that the first one did not close is open, in `outputs`, and has a queue;
the queue is empty exactly when there is no message. -/
theorem WriteGood.head {s s₁ t : Server} {e : Ready} (hs : Inv s) (hto : ReadTo s e.readable s₁)
    {w : Sock × WriteAns} {l : List (Sock × WriteAns)} (h : WriteGood s s₁ t (w :: l))
    (hno : ¬ AtEof e.readable w.1) :
    w.1 ∉ t.closed ∧ w.1 ∈ t.outputs ∧
      ∃ q, t.msgQueue w.1 = some q ∧ (q = [] ↔ ¬ HasMessage s e.readable w.1) := by
  obtain ⟨hout, hstays, hsame⟩ := h.entries w List.mem_cons_self
  have hin : w.1 ∈ s.inputs := ((hs.keys _).mp (hs.outputsKeys _ hout)).1
  have hout' : w.1 ∈ t.outputs := hstays (hto.outputs _ hout hno)
  obtain ⟨q, hq⟩ := Option.isSome_iff_exists.mp (h.inv.outputsKeys _ hout')
  refine ⟨?_, hout', q, hq, ?_⟩
  · rw [h.closed]
    exact hto.inv.inputsOpen _ (hto.stays _ hin hno)
  · rw [← hto.queue _ hout hno, ← hsame, hq]
    simp

/-- **The second loop fails on the bookkeeping at the sockets that the first one closed.** -/
theorem writeEntries (upper : Char → List Char) {s s₁ : Server} {e : Ready} (hs : Inv s)
    (hto : ReadTo s e.readable s₁) :
    Entries (onWritable upper) (fun x => x.isOwn = true) (fun w => AtEof e.readable w.1)
      (WriteFails s e) (WriteGood s s₁) where
  atBad := by
    rintro t ⟨c, a⟩ l h heof
    have hkey : t.msgQueue c = none :=
      (h.entries _ List.mem_cons_self).2.2.trans (hto.leaves c heof).2
    refine ⟨.keyError, ?_, rfl⟩
    simp only [onWritable, hkey]
    rfl
  atFails := by
    rintro t ⟨c, a⟩ l h hno hfails
    obtain ⟨hopen, -, q, hq, hempty⟩ := h.head hs hto hno
    refine ⟨.osError, ?_, by decide⟩
    simp only [onWritable]
    simp only [hq]
    cases hpeer : a.peer with
    | false =>
      rw [call_refused hopen]
      cases q <;> rfl
    | true =>
      obtain ⟨hmessage, hsent⟩ := hfails.resolve_left (by simp [hpeer])
      cases q with
      | nil => exact absurd hmessage (hempty.mp rfl)
      | cons msg q =>
        replace hsent : a.sent = none := hsent
        rw [hsent, call_granted hopen, Option.isSome_none, call_refused hopen]
        rfl
  atNext := by
    rintro t ⟨c, a⟩ l h hno hok
    obtain ⟨hopen, hout, q, hq, hempty⟩ := h.head hs hto hno
    simp only [WriteFails, not_or, not_and, Bool.not_eq_false] at hok
    have hnot : c ∉ l.map Prod.fst := (List.nodup_cons.mp h.nodup).1
    have hne : ∀ w ∈ l, w.1 ≠ c := by
      rintro w hw rfl
      exact hnot (List.mem_map_of_mem hw)
    have hrest : ∀ w ∈ l, w.1 ∈ s.outputs ∧ (w.1 ∈ s₁.outputs → w.1 ∈ t.outputs) ∧
        t.msgQueue w.1 = s₁.msgQueue w.1 := fun w hw => h.entries w (List.mem_cons_of_mem _ hw)
    cases q with
    | nil =>
      have hstep : WriteStep upper t (c, a) { t with outputs := t.outputs.erase c } :=
        .empty hq hopen hok.1 hout
      refine ⟨_, onWritable_eq_ok.mpr hstep, h.inv.writeStep hstep, h.inputs, h.closed,
        (List.nodup_cons.mp h.nodup).2, fun w hw => ⟨(hrest w hw).1, fun h₁ => ?_, (hrest w hw).2.2⟩⟩
      exact (List.mem_erase_of_ne (hne w hw)).mpr ((hrest w hw).2.1 h₁)
    | cons msg q =>
      have hmessage : HasMessage s e.readable c := by
        by_contra hnone
        exact absurd (hempty.mpr hnone) (by simp)
      obtain ⟨n, hn⟩ := Option.ne_none_iff_exists'.mp (hok.2 hmessage)
      have hstep : WriteStep upper t (c, a) (t.sends c q (encode (msg.flatMap upper)) n) :=
        .send hq hopen hok.1 hn
      refine ⟨_, onWritable_eq_ok.mpr hstep, h.inv.writeStep hstep, h.inputs, h.closed,
        (List.nodup_cons.mp h.nodup).2, fun w hw => ⟨(hrest w hw).1, (hrest w hw).2.1, ?_⟩⟩
      rw [← (hrest w hw).2.2]
      exact Function.update_of_ne (hne w hw) _ _

/-! ## The third loop -/

/-- Before each entry of the third loop. -/
structure ExceptGood (e : Ready) (t : Server) (l : List (Sock × Bool)) : Prop where
  inv : Inv t
  nodup : (l.map Prod.fst).Nodup
  entries : ∀ x ∈ l, x.1 ≠ masterSocket ∧ (AtEof e.readable x.1 → x.1 ∈ t.closed) ∧
    (¬ AtEof e.readable x.1 → x.1 ∈ t.inputs)

/-- **The third loop fails on the bookkeeping at the sockets that the first one closed.** -/
theorem exceptEntries (e : Ready) :
    Entries onExceptional (fun x => x.isOwn = true) (fun x => AtEof e.readable x.1) ExceptFails
      (ExceptGood e) where
  atBad := by
    rintro t ⟨c, peer⟩ l h heof
    refine ⟨.closedSocket, ?_, rfl⟩
    exact bind_eq_error.mpr (Or.inl (call_closed ((h.entries _ List.mem_cons_self).2.1 heof)))
  atFails := by
    rintro t ⟨c, peer⟩ l h hno hfails
    have hopen : c ∉ t.closed := h.inv.inputsOpen c ((h.entries _ List.mem_cons_self).2.2 hno)
    obtain rfl : peer = false := hfails
    exact ⟨.osError, bind_eq_error.mpr (Or.inl (call_refused hopen)), by decide⟩
  atNext := by
    rintro t ⟨c, peer⟩ l h hno hok
    obtain ⟨hc, -, hstays⟩ := h.entries _ List.mem_cons_self
    have hin : c ∈ t.inputs := hstays hno
    obtain rfl : peer = true := by simpa [ExceptFails] using hok
    have hstep : ExceptStep t (c, true) (t.forget c) :=
      .gone (h.inv.inputsOpen c hin) hin ((h.inv.keys c).mpr ⟨hin, hc⟩)
    have hnot : c ∉ l.map Prod.fst := (List.nodup_cons.mp h.nodup).1
    refine ⟨_, onExceptional_eq_ok.mpr hstep, h.inv.exceptStep hstep, (List.nodup_cons.mp h.nodup).2, ?_⟩
    intro x hx
    obtain ⟨hxm, hclosed, hstays⟩ := h.entries x (List.mem_cons_of_mem _ hx)
    refine ⟨hxm, fun heof => List.mem_append_left _ (hclosed heof), fun hno => ?_⟩
    refine (List.mem_erase_of_ne ?_).mpr (hstays hno)
    rintro rfl
    exact hnot (List.mem_map_of_mem hx)

/-! ## The main result -/

/-- The second and the third loop, from where the first one ended. -/
theorem laterLoops_iff (upper : Char → List Char) {s s₁ : Server} {e : Ready} (hs : Inv s)
    (he : Admits s e) (hto : ReadTo s e.readable s₁) :
    (∃ x, (do
        let s₂ ← e.writable.foldlM (onWritable upper) s₁
        e.exceptional.foldlM onExceptional s₂) = .error x ∧ x.isOwn = true) ↔
      ReachesBad (fun w => AtEof e.readable w.1) (WriteFails s e) e.writable ∨
        (∀ w ∈ e.writable, ¬ AtEof e.readable w.1 ∧ ¬ WriteFails s e w) ∧
          ReachesBad (fun x => AtEof e.readable x.1) ExceptFails e.exceptional := by
  obtain ⟨-, ⟨hwnodup, hwritable⟩, hxnodup, hexceptional⟩ := he
  have hwrite := writeEntries upper hs hto
  have hwgood : WriteGood s s₁ s₁ e.writable :=
    ⟨hto.inv, rfl, rfl, hwnodup, fun w hw => ⟨hwritable w hw, id, rfl⟩⟩
  have hexcept : ∀ {s₂}, WriteGood s s₁ s₂ [] → ExceptGood e s₂ e.exceptional := by
    intro s₂ h₂
    refine ⟨h₂.inv, hxnodup, fun x hx => ⟨(hexceptional x hx).2, fun heof => ?_, fun hno => ?_⟩⟩
    · exact h₂.closed ▸ (hto.leaves _ heof).1
    · exact h₂.inputs ▸ hto.stays _ (hexceptional x hx).1 hno
  constructor
  · rintro ⟨x, herror, hown⟩
    rcases bind_eq_error.mp herror with h₂ | ⟨s₂, h₂, h₃⟩
    · exact Or.inl ((hwrite.raises_iff hwgood).mp ⟨x, h₂, hown⟩)
    · obtain ⟨hall, hgood₂⟩ := hwrite.of_ok hwgood h₂
      exact Or.inr ⟨hall, ((exceptEntries e).raises_iff (hexcept hgood₂)).mp ⟨x, h₃, hown⟩⟩
  · rintro (hreach | ⟨hall, hreach⟩)
    · obtain ⟨x, h₂, hown⟩ := (hwrite.raises_iff hwgood).mpr hreach
      exact ⟨x, bind_eq_error.mpr (Or.inl h₂), hown⟩
    · obtain ⟨s₂, h₂, hgood₂⟩ := hwrite.ends hwgood hall
      obtain ⟨x, h₃, hown⟩ := ((exceptEntries e).raises_iff (hexcept hgood₂)).mpr hreach
      exact ⟨x, bind_eq_error.mpr (Or.inr ⟨s₂, h₂, h₃⟩), hown⟩

theorem ownFailure_iff {upper : Char → List Char} {s : Server} {e : Ready} (hs : Inv s)
    (he : Admits s e) : OwnFailure upper s e ↔ Stale s e := by
  have hread := readEntries hs he.1.1
  have hgood : ReadGood s e s e.readable :=
    ⟨[], rfl, ReadTo.start hs, fun r hr => (he.1.2 r hr).1⟩
  have hend : ∀ {s₁}, ReadGood s e s₁ [] → ReadTo s e.readable s₁ := by
    rintro s₁ ⟨done, hcut, hto, -⟩
    rwa [hcut, List.append_nil]
  constructor
  · rintro ⟨x, hpass, hown⟩
    rcases bind_eq_error.mp hpass with h₁ | ⟨s₁, h₁, hlater⟩
    · obtain ⟨_, _, _, _, hfalse, _⟩ := (hread.raises_iff hgood).mp ⟨x, h₁, hown⟩
      exact hfalse.elim
    · obtain ⟨hall, hgood₁⟩ := hread.of_ok hgood h₁
      exact ⟨fun r hr => (hall r hr).2, (laterLoops_iff upper hs he (hend hgood₁)).mp ⟨x, hlater, hown⟩⟩
  · rintro ⟨hall, hlater⟩
    obtain ⟨s₁, h₁, hgood₁⟩ := hread.ends hgood fun r hr => ⟨id, hall r hr⟩
    obtain ⟨x, herror, hown⟩ := (laterLoops_iff upper hs he (hend hgood₁)).mpr hlater
    exact ⟨x, bind_eq_error.mpr (Or.inr ⟨s₁, h₁, herror⟩), hown⟩

/-- **A pass does not fail on its own bookkeeping, unless it reaches a socket that its first loop
closed.** -/
theorem selectServer_noOwnFailure_iff (upper : Char → List Char) {s : Server} {e : Ready}
    (hs : AtHead (selectServer upper) s) (he : Admits s e) : ¬ OwnFailure upper s e ↔ ¬ Stale s e :=
  not_congr (ownFailure_iff (Inv.atHead hs) he)

/-- A client sends a message and closes; its connection is then both readable and writable. -/
theorem selectServer_keyError :
    ∃ s e, AtHead (selectServer asciiUpper) s ∧ Admits s e ∧ e = smooth [(1, [])] [(1, 2)] ∧
      pass asciiUpper s e = .error .keyError ∧ OwnFailure asciiUpper s e := by
  obtain ⟨s, hs, hend⟩ := exists_atHead_of_run (selectServer asciiUpper)
    [smooth [(0, [])] [], smooth [(1, [104, 105])] []]
    (fun s => decide (Admits s (smooth [(1, [])] [(1, 2)])) &&
      (match pass asciiUpper s (smooth [(1, [])] [(1, 2)]) with
        | .error x => x == .keyError
        | .ok _ => false))
    (by decide +kernel)
  simp only [Bool.and_eq_true, decide_eq_true_eq] at hend
  have hpass : pass asciiUpper s (smooth [(1, [])] [(1, 2)]) = .error .keyError := by
    cases h : pass asciiUpper s (smooth [(1, [])] [(1, 2)]) with
    | ok t => simp [h] at hend
    | error x => simpa [h] using hend.2
  exact ⟨s, _, hs, hend.1, rfl, hpass, .keyError, hpass, rfl⟩

/-- The client closes after its answer was sent, and its connection is not writable any more. -/
theorem selectServer_noOwnFailure_iff_drained :
    ∃ s, AtHead (selectServer asciiUpper) s ∧ Admits s (smooth [(1, [])] []) ∧
      ¬ OwnFailure asciiUpper s (smooth [(1, [])] []) := by
  obtain ⟨s, hs, hend⟩ := exists_atHead_of_run (selectServer asciiUpper)
    [smooth [(0, [])] [], smooth [(1, [104, 105])] [], smooth [] [(1, 2)], smooth [] [(1, 2)]]
    (fun s => decide (Admits s (smooth [(1, [])] []))) (by decide +kernel)
  have he : Admits s (smooth [(1, [])] []) := by simpa using hend
  refine ⟨s, hs, he, (selectServer_noOwnFailure_iff asciiUpper hs he).mpr ?_⟩
  rintro ⟨-, hreach | ⟨-, hreach⟩⟩
  · exact not_reachesBad_nil hreach
  · exact not_reachesBad_nil hreach

end NetProg.PySelectServer
