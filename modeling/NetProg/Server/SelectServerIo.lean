/-
# NetProg.Server.SelectServerIo -- on which descriptors a pass of `select_server` receives and sends.

The cases for end of file and for an error close the client, clear its slot, and rejoin the code behind the
`switch`, which formats what is left in `recv_buf` and sends it to the descriptor just closed.  What a pass
does is read off its log: `openAfter` and `slotsAfter` are the open descriptors and the slots after a part of
it, and they are those of the state at that point (`Logged`).  The pass obeys the law exactly when no client
that the scan comes to leaves, and no echo overruns `send_buf` (`selectServer_ioLaw_iff`); SIGPIPE ends a scan
behind a `send` that was all right.
-/
import NetProg.Base.History
import NetProg.Server.SelectServerScan

namespace NetProg.SelectServer

variable {n : ℕ} {h : Host}

/-! ## The law -/

/-- The open descriptors, after a part of the pass. -/
def openAfter (opened : Finset ℤ) (l : List (Ev n)) : Finset ℤ :=
  l.foldl (fun o e =>
    match e with
    | .accept fd => if fd < 0 then o else insert fd o
    | .close fd => o.erase fd
    | _ => o) opened

/-- The slots, after a part of the pass. -/
def slotsAfter (slots : Fin n → ℤ) (l : List (Ev n)) : Fin n → ℤ :=
  l.foldl (fun t e =>
    match e with
    | .setSlot i fd => Function.update t i fd
    | _ => t) slots

/-- A `recv` is on an open client, and so is a `send`, unless it is on the connection just accepted. -/
def IoRule (s : Srv n) (before : List (Ev n)) : Ev n → Prop
  | .recv fd _ => fd ∈ openAfter s.opened before ∧ ∃ i, slotsAfter s.cliSocks before i = fd
  | .send fd _ => fd ∈ openAfter s.opened before ∧
      ((∃ i, slotsAfter s.cliSocks before i = fd) ∨ .accept fd ∈ before)
  | _ => True

/-- The echoes sent. -/
def echoes (l : List (Ev n)) : List (ℤ × List UInt8) :=
  l.filterMap fun e => match e with
    | .send fd text => if cstr "ECHO BACK : " <+: text then some (fd, text) else none
    | _ => none

/-- The echoes that the messages received ask for: one for each that is not empty. -/
def answered (l : List (Ev n)) : List (ℤ × List UInt8) :=
  l.filterMap fun e => match e with
    | .recv fd ans => if ans.gone then none else some (fd, echoText (recvBuf ans))
    | _ => none

/-- What a pass from the loop head `s` may do. -/
structure IoLaw (s : Srv n) (l : List (Ev n)) : Prop where
  io : Each (IoRule s) l
  echoes : echoes l = answered l

/-- The pass gets to the scan: no connection is refused, `accept` does not fail, and the greeting raises no signal. -/
def ScanStarts (h : Host) (s : Srv n) (a : Answers n) : Prop :=
  h.masterSock ∈ a.select.reported → 0 ≤ a.accept ∧ ¬ s.curConnCnt > n - 1 ∧ a.acceptPipe = false

/-- The client sent data, and its echo fits. -/
def Answerable (ans : ReadAnswer) : Prop := ans.gone = false ∧ fits ans = true

instance (ans : ReadAnswer) : Decidable (Answerable ans) := inferInstanceAs (Decidable (_ ∧ _))

/-- Every ready client that the scan reaches has sent data, and its echo fits: the ready clients below the bound, up
to one whose echo raises SIGPIPE. -/
def AllAnswerable (h : Host) (s : Srv n) (a : Answers n) : Prop :=
  ∀ i : Fin n, s.Ready a.select.reported i →
    (i : ℤ) < s.curConnCnt + (if h.masterSock ∈ a.select.reported then 1 else 0) →
      (∀ j, j < i → s.Ready a.select.reported j → a.echoPipe j = false) → Answerable (a.recv i)

instance (h : Host) (s : Srv n) (a : Answers n) : Decidable (ScanStarts h s a) :=
  inferInstanceAs (Decidable (_ → _ ∧ _ ∧ _))

instance (h : Host) (s : Srv n) (a : Answers n) : Decidable (AllAnswerable h s a) :=
  inferInstanceAs (Decidable (∀ i : Fin n, s.Ready _ i → _ → (∀ j, j < i → s.Ready _ j → _) → Answerable (a.recv i)))

/-! ## The log and the state -/

/-- The log of the pass from `s₀` accounts for the state. -/
structure Logged (s₀ s : Srv n) : Prop where
  opened : s.opened = openAfter s₀.opened s.evs
  cliSocks : s.cliSocks = slotsAfter s₀.cliSocks s.evs

/-- So far the pass from `s₀` is as it should be. -/
structure Obeys (s₀ s : Srv n) : Prop where
  logged : Logged s₀ s
  law : IoLaw s₀ s.evs

section Log

variable {s₀ s : Srv n}

theorem echoes_append (l l' : List (Ev n)) : echoes (l ++ l') = echoes l ++ echoes l' :=
  List.filterMap_append

theorem answered_append (l l' : List (Ev n)) : answered (l ++ l') = answered l ++ answered l' :=
  List.filterMap_append

theorem openAfter_append (o : Finset ℤ) (l l' : List (Ev n)) :
    openAfter o (l ++ l') = openAfter (openAfter o l) l' := List.foldl_append

theorem slotsAfter_append (t : Fin n → ℤ) (l l' : List (Ev n)) :
    slotsAfter t (l ++ l') = slotsAfter (slotsAfter t l) l' := List.foldl_append

/-- One more entry, and the state it leads to. -/
theorem Logged.snoc (hlog : Logged s₀ s) {t : Srv n} {e : Ev n} (hevs : t.evs = s.evs ++ [e])
    (hopened : t.opened = openAfter s.opened [e]) (hslots : t.cliSocks = slotsAfter s.cliSocks [e]) :
    Logged s₀ t where
  opened := by rw [hopened, hevs, openAfter_append, ← hlog.opened]
  cliSocks := by rw [hslots, hevs, slotsAfter_append, ← hlog.cliSocks]

theorem IoLaw.snoc {l : List (Ev n)} (hlaw : IoLaw s₀ l) {e : Ev n} (hrule : IoRule s₀ l e)
    (hechoes : NetProg.SelectServer.echoes [e] = answered [e]) : IoLaw s₀ (l ++ [e]) where
  io := hlaw.io.snoc hrule
  echoes := by rw [echoes_append, answered_append, hlaw.echoes, hechoes]

/-- An entry that is no `recv` and no `send`. -/
theorem Obeys.silent (hs : Obeys s₀ s) {t : Srv n} {e : Ev n} (hevs : t.evs = s.evs ++ [e])
    (hopened : t.opened = openAfter s.opened [e]) (hslots : t.cliSocks = slotsAfter s.cliSocks [e])
    (hrule : ∀ l, IoRule s₀ l e) (hechoes : echoes [e] = answered [e]) : Obeys s₀ t where
  logged := hs.logged.snoc hevs hopened hslots
  law := by
    rw [hevs]
    exact hs.law.snoc (hrule _) hechoes

/-- A received message and its echo, both on the descriptor of an open client. -/
theorem Obeys.echo (hs : Obeys s₀ s) {i : Fin n} {ans : ReadAnswer} (hgone : ans.gone = false)
    (hopen : s.cliSocks i ∈ s.opened) :
    Obeys s₀ ((s.log (.recv (s.cliSocks i) ans)).log (.send (s.cliSocks i) (echoText (recvBuf ans)))) := by
  have hrecv : Logged s₀ (s.log (.recv (s.cliSocks i) ans)) := hs.logged.snoc rfl rfl rfl
  have hheld : IoRule s₀ s.evs (.recv (s.cliSocks i) ans) :=
    ⟨hs.logged.opened ▸ hopen, i, congrFun hs.logged.cliSocks.symm i⟩
  have hsend : IoRule s₀ (s.evs ++ [.recv (s.cliSocks i) ans])
      (.send (s.cliSocks i) (echoText (recvBuf ans))) := by
    refine ⟨?_, .inl ⟨i, congrFun hrecv.cliSocks.symm i⟩⟩
    have hopened : s.opened = openAfter s₀.opened (s.evs ++ [.recv (s.cliSocks i) ans]) := hrecv.opened
    exact hopened ▸ hopen
  refine ⟨hrecv.snoc rfl rfl rfl, (hs.law.io.snoc hheld).snoc hsend, ?_⟩
  have hecho : cstr "ECHO BACK : " <+: echoText (recvBuf ans) := List.prefix_append _ _
  have hevs : ((s.log (.recv (s.cliSocks i) ans)).log (.send (s.cliSocks i) (echoText (recvBuf ans)))).evs =
      s.evs ++ [.recv (s.cliSocks i) ans] ++ [.send (s.cliSocks i) (echoText (recvBuf ans))] := rfl
  rw [hevs, echoes_append, echoes_append, answered_append, answered_append, hs.law.echoes]
  simp [echoes, answered, hecho, hgone]

/-- A message to the connection that was just accepted, which is no echo. -/
theorem Obeys.greet (hs : Obeys s₀ s) {fd : ℤ} {text : List UInt8} (hopen : fd ∈ s.opened)
    (haccepted : .accept fd ∈ s.evs) (htext : ¬ cstr "ECHO BACK : " <+: text) :
    Obeys s₀ (s.log (.send fd text)) where
  logged := hs.logged.snoc rfl rfl rfl
  law := by
    refine hs.law.snoc ⟨?_, .inr haccepted⟩ ?_
    · rw [← hs.logged.opened]
      exact hopen
    · simp [echoes, answered, htext]

end Log

/-! ## Up to the scan -/

section Listener

variable {s : Srv n}

theorem obeys_select (s : Srv n) (ans : SelectAnswer) : Obeys s (s.select ans) := by
  cases ans <;> exact ⟨⟨rfl, rfl⟩, Each.nil, rfl⟩

variable {s₀ : Srv n} {newSock : ℤ}

theorem Obeys.accept (hs : Obeys s₀ s) (hfd : ¬ newSock < 0) : Obeys s₀ (s.accept newSock) :=
  hs.silent rfl (if_neg hfd).symm rfl (fun _ => trivial) rfl

/-- A connection that is refused is told so, and closed. -/
theorem Obeys.refuse (hs : Obeys s₀ s) (hopen : newSock ∈ s.opened)
    (haccepted : .accept newSock ∈ s.evs) : Obeys s₀ (s.refuse newSock) :=
  (hs.greet hopen haccepted (by decide)).silent rfl rfl rfl (fun _ => trivial) rfl

/-- The table entry, when there is one, and the accepted connection. -/
theorem Obeys.store (hs : Obeys s₀ s) (haccepted : .accept newSock ∈ s.evs) :
    Obeys s₀ (s.store newSock) ∧ .accept newSock ∈ (s.store newSock).evs ∧
      (s.store newSock).opened = s.opened := by
  unfold Srv.store
  cases SlotTable.firstSlot (fun fd => -1 == fd) s.cliSocks with
  | none => exact ⟨hs, haccepted, rfl⟩
  | some i =>
    refine ⟨hs.silent rfl rfl rfl (fun _ => trivial) rfl, ?_, rfl⟩
    exact List.mem_append_left _ haccepted

theorem Obeys.keep (hs : Obeys s₀ s) (hopen : newSock ∈ s.opened)
    (haccepted : .accept newSock ∈ s.evs) : Obeys s₀ (s.keep newSock) := by
  have hset : Obeys s₀ ({ s with
      maxSd := if s.maxSd < newSock then newSock else s.maxSd
      activeFds := insert newSock s.activeFds
      curConnCnt := s.curConnCnt + 1 }.log (.fdSet newSock)) :=
    hs.silent rfl rfl rfl (fun _ => trivial) rfl
  exact hset.greet hopen (List.mem_append_left _ haccepted) (by decide)

/-- The listener's block obeys the law, however it leaves. -/
theorem listener_obeys (hs : Obeys s₀ s) (newSock : ℤ) (pipe : Bool) :
    Obeys s₀ (s.listener h newSock pipe).state := by
  have hopen : newSock ∈ (s.accept newSock).opened := Finset.mem_insert_self _ _
  have haccepted : .accept newSock ∈ (s.accept newSock).evs := List.mem_append_right _ List.mem_cons_self
  unfold Srv.listener
  split_ifs with hmaster hneg hfull
  · exact hs.silent rfl (if_pos hneg).symm rfl (fun _ => trivial) rfl
  · exact (hs.accept hneg).refuse hopen haccepted
  · obtain ⟨hstored, hmem, hsame⟩ := (hs.accept hneg).store haccepted
    rw [Srv.state_signal]
    exact hstored.keep (hsame ▸ hopen) hmem
  · exact hs

end Listener

/-! ## The scan -/

section Scan

variable {s₀ s : Srv n} (a : Answers n)

/-- The scan only adds to the log. -/
theorem evs_prefix_scan (is : List (Fin n)) (s : Srv n) : s.evs <+: (s.scan a is).state.evs := by
  induction is generalizing s with
  | nil => exact List.prefix_refl _
  | cons i is ih =>
    have hreceive : s.evs <+: (s.receive i (a.recv i)).evs := by
      unfold Srv.receive
      split_ifs
      · exact ⟨[.recv (s.cliSocks i) (a.recv i), .close (s.cliSocks i), .fdClr (s.cliSocks i),
            .setSlot i (-1)],
          by simp [Srv.drop, Srv.log]⟩
      · exact List.prefix_append _ _
    rw [Srv.scan]
    split_ifs with hlt hfree hready
    · exact ih s
    · unfold Srv.serve Srv.echoBack Srv.signal
      have hsend : s.evs <+: ((s.receive i (a.recv i)).log
          (.send (s.cliSocks i) (echoText (recvBuf (a.recv i))))).evs :=
        hreceive.trans (List.prefix_append _ _)
      split_ifs
      · exact hsend
      · exact hsend.trans (ih _)
      · exact hreceive
    · exact ih s
    · exact List.prefix_refl _

/-- What the loop body does for a client that sent data whose echo fits. -/
theorem serve_answerable {i : Fin n} {ans : ReadAnswer} (hans : Answerable ans) (pipe : Bool) :
    s.serve i ans pipe = ((s.log (.recv (s.cliSocks i) ans)).log
      (.send (s.cliSocks i) (echoText (recvBuf ans)))).signal pipe := by
  rw [Srv.serve, Srv.receive, hans.1, if_neg Bool.false_ne_true, Srv.echoBack, hans.2, if_pos rfl, hans.1,
    Bool.not_false, Bool.and_true]

theorem Obeys.answer (hs : Obeys s₀ s) (hrep : Represents h s) {i : Fin n} (hocc : 0 ≤ s.cliSocks i)
    {ans : ReadAnswer} (hans : Answerable ans) :
    Obeys s₀ ((s.log (.recv (s.cliSocks i) ans)).log (.send (s.cliSocks i) (echoText (recvBuf ans)))) ∧
      Represents h ((s.log (.recv (s.cliSocks i) ans)).log
        (.send (s.cliSocks i) (echoText (recvBuf ans)))) := by
  obtain ⟨t, ht⟩ := hrep
  exact ⟨hs.echo hans.1 (ht.tracks.slot_opened hocc), t, ht.congr rfl rfl rfl rfl rfl⟩

/-- **A scan that comes to no client that leaves, and to no echo that overruns, obeys the law.** -/
theorem scan_obeys {is : List (Fin n)} (hsorted : is.Pairwise (· < ·)) (hs : Obeys s₀ s) (hrep : Represents h s)
    (hgood : ∀ i ∈ is, s.Ready s.rfds i → (i : ℤ) < s.curConnCnt →
      (∀ j ∈ is, j < i → s.Ready s.rfds j → a.echoPipe j = false) → Answerable (a.recv i)) :
    Obeys s₀ (s.scan a is).state := by
  induction is generalizing s with
  | nil => exact hs
  | cons i is ih =>
    obtain ⟨hi, hsorted⟩ := List.pairwise_cons.mp hsorted
    rw [List.forall_mem_cons] at hgood
    have hrest : (s.Ready s.rfds i → a.echoPipe i = false) →
        ∀ k ∈ is, s.Ready s.rfds k → (k : ℤ) < s.curConnCnt →
          (∀ j ∈ is, j < k → s.Ready s.rfds j → a.echoPipe j = false) → Answerable (a.recv k) := by
      intro hpipe k hk hready hlt hbefore
      refine hgood.2 k hk hready hlt ?_
      rw [List.forall_mem_cons]
      exact ⟨fun _ => hpipe, hbefore⟩
    rw [Srv.scan]
    split_ifs with hlt hfree hready
    · refine ih hsorted hs hrep (hrest fun hr => ?_)
      exact absurd hr.1 (not_le.mpr hfree)
    · have hocc : 0 ≤ s.cliSocks i := by omega
      have hfirst : ∀ j ∈ i :: is, j < i → s.Ready s.rfds j → a.echoPipe j = false := by
        intro j hj hji
        rcases List.mem_cons.mp hj with rfl | hj
        · exact absurd hji (lt_irrefl _)
        · exact absurd hji (not_lt.mpr (le_of_lt (hi j hj)))
      have hans := hgood.1 ⟨hocc, hready⟩ hlt hfirst
      obtain ⟨hobeys, hrep'⟩ := hs.answer hrep hocc hans
      rw [serve_answerable hans]
      cases hpipe : a.echoPipe i with
      | true => exact hobeys
      | false => exact ih hsorted hobeys hrep' (hrest fun _ => hpipe)
    · exact ih hsorted hs hrep (hrest fun hr => absurd hr.2 hready)
    · exact hs

/-- The client left: its descriptor is closed before the echo goes out on it. -/
theorem serve_gone {ans : ReadAnswer} (hlog : Logged s₀ s) {i : Fin n} (hgone : ans.gone = true)
    {l : List (Ev n)}
    (hl : ((s.receive i ans).log (.send (s.cliSocks i) (echoText (recvBuf ans)))).evs <+: l) :
    ¬ IoLaw s₀ l := by
  rintro ⟨hio, -⟩
  obtain ⟨rest, rfl⟩ := hl
  have hrule := hio (s.receive i ans).evs _ rest (List.append_assoc _ _ _)
  have hdropped : openAfter s₀.opened (s.receive i ans).evs = s.opened.erase (s.cliSocks i) := by
    have hdrop : (s.receive i ans).evs = s.evs ++ [.recv (s.cliSocks i) ans, .close (s.cliSocks i),
        .fdClr (s.cliSocks i), .setSlot i (-1)] := by
      rw [Srv.receive, if_pos hgone]
      simp only [Srv.drop, Srv.log, List.append_assoc, List.cons_append, List.nil_append]
    rw [hdrop, openAfter_append, ← hlog.opened]
    rfl
  apply Finset.notMem_erase (s.cliSocks i) s.opened
  rw [← hdropped]
  exact hrule.1

/-- The echo overruns `send_buf`: the message is left without one. -/
theorem serve_overrun {ans : ReadAnswer} (hlaw : IoLaw s₀ s.evs) {i : Fin n} (hgone : ans.gone = false) :
    ¬ IoLaw s₀ (s.receive i ans).evs := by
  rintro ⟨-, hechoes⟩
  rw [Srv.receive, hgone, if_neg Bool.false_ne_true] at hechoes
  have hmore : echoes s.evs ++ [] = answered s.evs ++ [(s.cliSocks i, echoText (recvBuf ans))] := by
    simpa [Srv.log, echoes, answered, hgone] using hechoes
  rw [List.append_nil, hlaw.echoes] at hmore
  exact List.cons_ne_nil _ _ (List.self_eq_append_right.mp hmore)

/-- A client that left has its reply built from an empty buffer. -/
theorem fits_of_gone {ans : ReadAnswer} (hgone : ans.gone = true) : fits ans = true := by
  cases ans with
  | error => decide
  | data bs =>
    obtain rfl : bs = [] := List.isEmpty_iff.mp hgone
    decide

/-- An end of file, an error or an overrun below the bound breaks the law, unless SIGPIPE comes before it. -/
theorem scan_not_ioLaw {is : List (Fin n)} (hsorted : is.Pairwise (· < ·)) (hs : Obeys s₀ s)
    (hrep : Represents h s) {i : Fin n} (hi : i ∈ is) (hready : s.Ready s.rfds i)
    (hlt : (i : ℤ) < s.curConnCnt) (hpipe : ∀ j, j < i → s.Ready s.rfds j → a.echoPipe j = false)
    (hbad : ¬ Answerable (a.recv i)) : ¬ IoLaw s₀ (s.scan a is).state.evs := by
  induction is generalizing s with
  | nil => exact absurd hi List.not_mem_nil
  | cons j is ih =>
    obtain ⟨hj, hsorted⟩ := List.pairwise_cons.mp hsorted
    have hjlt : (j : ℤ) < s.curConnCnt := by
      rcases List.mem_cons.mp hi with rfl | hmem
      · exact hlt
      · have hji : (j : ℕ) < i := hj i hmem
        omega
    rw [Srv.scan, if_pos hjlt]
    split_ifs with hfree hjready
    · have hij : i ≠ j := by
        rintro rfl
        have := hready.1
        omega
      exact ih hsorted hs hrep (List.mem_of_ne_of_mem hij hi) hready hlt hpipe
    · have hocc : 0 ≤ s.cliSocks j := by omega
      cases hgone : (a.recv j).gone with
      | true =>
        rw [Srv.serve, Srv.echoBack, fits_of_gone hgone, if_pos rfl, hgone, Bool.not_true, Bool.and_false]
        exact serve_gone hs.logged hgone (evs_prefix_scan a is _)
      | false =>
        cases hfits : fits (a.recv j) with
        | true =>
          have hij : i ≠ j := by
            rintro rfl
            exact hbad ⟨hgone, hfits⟩
          have hmem : i ∈ is := List.mem_of_ne_of_mem hij hi
          obtain ⟨hobeys, hrep'⟩ := hs.answer hrep hocc ⟨hgone, hfits⟩
          rw [serve_answerable ⟨hgone, hfits⟩, hpipe j (hj i hmem) ⟨hocc, hjready⟩]
          exact ih hsorted hobeys hrep' hmem hready hlt hpipe
        | false =>
          rw [Srv.serve, Srv.echoBack, hfits, if_neg Bool.false_ne_true]
          exact serve_overrun hs.law hgone
    · have hij : i ≠ j := by
        rintro rfl
        exact hjready hready.2
      exact ih hsorted hs hrep (List.mem_of_ne_of_mem hij hi) hready hlt hpipe

end Scan

/-! ## One pass -/

section Pass

variable {s : Srv n} {a : Answers n}

/-- Nothing is ready when `select` fails or times out. -/
theorem body_idle (hsel : ∀ rfds, a.select ≠ .ready rfds) :
    (s.body h a).state.evs = [] ∧ a.select.reported = ∅ := by
  unfold Srv.body
  cases hcase : a.select with
  | error eintr => cases eintr <;> exact ⟨rfl, rfl⟩
  | timeout => exact ⟨rfl, rfl⟩
  | ready rfds => exact absurd hcase (hsel rfds)

theorem listener_refuses {rfds : Finset ℤ} (hsel : a.select = .ready rfds) (hrefuse : Refuses h s a) :
    (s.select (.ready rfds)).listener h a.accept a.acceptPipe =
      .again (((s.select (.ready rfds)).accept a.accept).refuse a.accept) := by
  obtain ⟨hmaster, haccept, hfull⟩ := hrefuse
  rw [hsel] at hmaster
  rw [Srv.listener, if_pos (show h.masterSock ∈ (s.select (.ready rfds)).rfds from hmaster),
    if_neg (not_lt.mpr haccept)]
  exact if_pos hfull

/-- A pass that gets to the scan: the law is decided by the clients that the scan reaches. -/
theorem AtScan.ioLaw_iff {s₁ : Srv n} (hat : AtScan h s a s₁) (hs : Obeys s s₁)
    (hrep : Represents h s₁) :
    IoLaw s (s₁.scan a (List.finRange n)).state.evs ↔ AllAnswerable h s a := by
  have hready : ∀ i, s₁.Ready s₁.rfds i ↔ s.Ready a.select.reported i := by
    intro i
    rw [hat.rfds]
    exact hat.ready i
  constructor
  · intro hlaw i hi hlt hpipe
    by_contra hbad
    rw [← hat.count] at hlt
    apply scan_not_ioLaw a (List.pairwise_lt_finRange n) hs hrep (List.mem_finRange i) ((hready i).mpr hi) hlt
      (fun j hj hr => hpipe j hj ((hready j).mp hr)) hbad
    exact hlaw
  · intro hall
    refine (scan_obeys a (List.pairwise_lt_finRange n) hs hrep fun i _ hi hlt hpipe => ?_).law
    rw [hat.count] at hlt
    refine hall i ((hready i).mp hi) hlt fun j hj hr => ?_
    exact hpipe j (List.mem_finRange j) hj ((hready j).mpr hr)

theorem pass_ioLaw_iff (hs : Represents h s) (ha : Admits s a) :
    IoLaw s (s.body h a).state.evs ↔ (ScanStarts h s a → AllAnswerable h s a) := by
  by_cases hidle : ∀ rfds, a.select ≠ .ready rfds
  · obtain ⟨hevs, hnone⟩ := body_idle (h := h) (s := s) hidle
    rw [hevs]
    refine iff_of_true ⟨Each.nil, rfl⟩ fun _ i hi => ?_
    rw [hnone] at hi
    exact absurd hi.2 (Finset.notMem_empty _)
  obtain ⟨rfds, hsel⟩ : ∃ rfds, a.select = .ready rfds := by simpa using hidle
  have hbody : s.body h a =
      ((s.select (.ready rfds)).listener h a.accept a.acceptPipe).andThen (Srv.scan a (List.finRange n)) := by
    simp only [Srv.body, hsel]
  have hobeys : Obeys s ((s.select (.ready rfds)).listener h a.accept a.acceptPipe).state :=
    listener_obeys (obeys_select s (.ready rfds)) a.accept a.acceptPipe
  have hto : ((s.select (.ready rfds)).listener h a.accept a.acceptPipe).ToHead (Represents h) :=
    listener_represents (select_represents hs (.ready rfds)) ha.2.1 a.acceptPipe
  have hmem : h.masterSock ∈ a.select.reported ↔ h.masterSock ∈ rfds := by rw [hsel]; rfl
  rw [hbody]
  by_cases hrefuse : Refuses h s a
  · rw [listener_refuses hsel hrefuse] at hobeys ⊢
    refine iff_of_true hobeys.law fun hstarts => ?_
    exact absurd hrefuse.2.2 (hstarts hrefuse.1).2.1
  rcases listener_atScan hs ha hrefuse hsel with
    ⟨s₁, hlisten, hat, haccept⟩ | ⟨msg, s₁, hlisten, hmaster, hends, -⟩
  · have hstarts : ScanStarts h s a := by
      intro hm
      obtain ⟨haccepted, hpipe⟩ := haccept (hmem.mp hm)
      exact ⟨haccepted, fun hfull => hrefuse ⟨hm, haccepted, hfull⟩, hpipe⟩
    rw [hlisten] at hobeys hto ⊢
    rw [Flow.andThen_next, hat.ioLaw_iff hobeys hto, forall_prop_of_true hstarts]
  · rw [hlisten] at hobeys ⊢
    refine iff_of_true hobeys.law fun hstarts => ?_
    obtain ⟨haccepted, -, hpipe⟩ := hstarts (hmem.mpr hmaster)
    exact absurd ⟨haccepted, hpipe⟩ hends

end Pass

/-! ## The main result -/

/-- What a run shows of each pass: the loop head it starts from, and the kernel's answers. -/
def passes (f : Flow (Srv n)) (a : Answers n) : List (Srv n × Answers n) := [(f.state, a)]

/-- The passes of a run start at loop heads, with answers that are possible there. -/
theorem passes_admitted {f : Flow (Srv n)} {ps : List (Srv n × Answers n)}
    (hf : ((server n h).observe passes).Reachable (f, ps)) :
    ∀ p ∈ ps, AtHead (server n h) p.1 ∧ Admits p.1 p.2 := by
  refine whileLoop_observe_invariant
    (P := fun _ ps => ∀ p ∈ ps, AtHead (server n h) p.1 ∧ Admits p.1 p.2) (by simp) ?_ hf
  intro s ps a hs hps ha
  rw [List.forall_mem_append]
  refine ⟨hps, fun p hp => ?_⟩
  obtain rfl := List.mem_singleton.mp hp
  exact ⟨hs, ha⟩

/-- **When `select_server` does no I/O on a descriptor it has closed.**  Every pass of a run obeys the law
if and only if in each that gets to the scan all the ready clients that it reaches have sent data with an
echo that fits. -/
theorem selectServer_ioLaw_iff (h : Host) {f : Flow (Srv maxClientsNum)}
    {ps : List (Srv maxClientsNum × Answers maxClientsNum)}
    (hf : ((selectServer h).observe passes).Reachable (f, ps)) :
    (∀ p ∈ ps, IoLaw p.1 (p.1.body h p.2).state.evs) ↔
      ∀ p ∈ ps, ScanStarts h p.1 p.2 → AllAnswerable h p.1 p.2 :=
  forall₂_congr fun p hp =>
    have hpass := passes_admitted hf p hp
    pass_ioLaw_iff (server_represents hpass.1) hpass.2

/-- A client connects, and says "hi". -/
theorem selectServer_ioLaw_iff_oneClient :
    ∃ f ps, ((selectServer demoHost).observe passes).Reachable (f, ps) ∧ ps.length = 2 ∧
      ∀ p ∈ ps, IoLaw p.1 (p.1.body demoHost p.2).state.evs := by
  have hf := System.reachable_of_run ((selectServer demoHost).observe passes)
    [passOf {3} 4 [], passOf {4} 6 []] rfl
  exact ⟨_, _, hf, rfl, (selectServer_ioLaw_iff demoHost hf).mpr (by decide)⟩

/-- The client leaves: `select_server` sends it an echo after `close`. -/
theorem selectServer_sends_after_close :
    ∃ f ps, ((selectServer demoHost).observe passes).Reachable (f, ps) ∧
      ¬ ∀ p ∈ ps, IoLaw p.1 (p.1.body demoHost p.2).state.evs := by
  have hf := System.reachable_of_run ((selectServer demoHost).observe passes)
    [passOf {3} 4 [], passOf {4} 6 [0]] rfl
  refine ⟨_, _, hf, fun hall => ?_⟩
  have hlaw := hall _ (List.mem_append_right _ List.mem_cons_self)
  have hsend := hlaw.io [.recv 4 (.data []), .close 4, .fdClr 4, .setSlot 0 (-1)]
    (.send 4 (cstr "ECHO BACK : ")) [] rfl
  exact absurd hsend.1 (by decide)

end NetProg.SelectServer
