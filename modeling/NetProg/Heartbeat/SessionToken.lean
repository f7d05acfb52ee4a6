/-
# NetProg.Heartbeat.SessionToken -- one token, shared by the client's flag and the bytes in flight.

The flag `got_reply` is a token.  The client's SIGALRM turns it into a heartbeat, the server turns the
heartbeat into a reply, and the client's SIGURG turns the reply into the flag again.  Statement by
statement the token is also in a signal that is pending, or with a handler that has not yet set the flag;
between `send` and `got_reply = 0` the flag does not count.  `tokens` counts all of these places, and no
step of the session makes the count larger than one, nested handlers included.
-/
import NetProg.Heartbeat.Session

namespace NetProg.HeartbeatSession

open NetProg.HeartbeatCli NetProg.HeartbeatSrv

/-- A handler for SIGURG that has not yet set `got_reply`. -/
def isReading : Frame → Bool
  | .urg .recv | .urg (.assign _ _) => true
  | .urg .reset | .alrm _ => false

section Frames

variable (fs : List Frame)

@[simp] theorem countP_reading_alrm (pc : AlrmPc) :
    (Frame.alrm pc :: fs).countP isReading = fs.countP isReading :=
  List.countP_cons_of_neg Bool.false_ne_true

@[simp] theorem countP_reading_recv :
    (Frame.urg .recv :: fs).countP isReading = fs.countP isReading + 1 := List.countP_cons_of_pos rfl

@[simp] theorem countP_reading_assign (got : Bool) (c : Char) :
    (Frame.urg (.assign got c) :: fs).countP isReading = fs.countP isReading + 1 :=
  List.countP_cons_of_pos rfl

@[simp] theorem countP_reading_reset :
    (Frame.urg .reset :: fs).countP isReading = fs.countP isReading :=
  List.countP_cons_of_neg Bool.false_ne_true

@[simp] theorem countP_alrm_alrm (pc : AlrmPc) :
    (Frame.alrm pc :: fs).countP Frame.isAlrm = fs.countP Frame.isAlrm + 1 :=
  List.countP_cons_of_pos rfl

@[simp] theorem countP_alrm_urg (pc : UrgPc) :
    (Frame.urg pc :: fs).countP Frame.isAlrm = fs.countP Frame.isAlrm :=
  List.countP_cons_of_neg Bool.false_ne_true

end Frames

/-- The flag, when it counts: not after the `send` of a handler that is about to clear it. -/
def Session.holdsFlag (s : Session) : Bool :=
  s.cli.gotReply && !decide (.alrm .clear ∈ s.cli.frames)

/-- In how many places the token is; a byte that waits at the client's mark is counted by its signal. -/
def Session.tokens (s : Session) : ℕ :=
  s.holdsFlag.toNat + s.down.pending.toNat + s.cli.frames.countP isReading +
    s.up.inFlight.length + s.down.wire.length

/-- A reply answers a heartbeat, and all the heartbeats before that one are answered already. -/
def Answers (pre : List Act) (e : Act) : Prop :=
  e = .answer → pre.count .answer + 1 = pre.count .heartbeat

/-- The invariant of all runs. -/
structure TokenInv (s : Session) : Prop where
  lone : s.tokens ≤ 1
  oneAlrm : s.cli.frames.countP Frame.isAlrm ≤ 1
  send : .alrm .send ∈ s.cli.frames → s.cli.gotReply = true
  up : s.up.Only 'c'
  upMark : s.up.pending = true → s.up.mark.isSome = true
  down : s.down.Only 's'
  downMark : s.down.mark.isSome = true → s.down.pending = true ∨ .urg .recv ∈ s.cli.frames
  beats : s.log.count .heartbeat = s.log.count .answer + s.up.inFlight.length
  law : Each Answers s.log

namespace TokenInv

variable {cli : Client} {srv : Srv} {s : Session}

theorem start : TokenInv (Session.start cli srv) where
  lone := by simp [Session.tokens, Session.start, Session.holdsFlag, Urgent.idle, Urgent.inFlight]
  oneAlrm := by simp [Session.start]
  send := by simp [Session.start]
  up := Urgent.Only.idle
  upMark := by simp [Session.start, Urgent.idle]
  down := Urgent.Only.idle
  downMark := by simp [Session.start, Urgent.idle]
  beats := by simp [Session.start, Urgent.idle, Urgent.inFlight]
  law := Each.nil

/-! ## What the count excludes -/

/-- While a byte is on its way up, it is the only one. -/
theorem up_lone (hs : TokenInv s) : s.up.inFlight.length ≤ 1 := by
  have := hs.lone
  simp only [Session.tokens] at this
  omega

/-- While a byte is on the wire down, there is none at the mark. -/
theorem down_lone (hs : TokenInv s) : s.down.inFlight.length ≤ 1 := by
  have hlone := hs.lone
  simp only [Session.tokens] at hlone
  cases hmark : s.down.mark with
  | none =>
    simp only [Urgent.inFlight, hmark, Option.toList_none, List.nil_append]
    omega
  | some c =>
    simp only [Urgent.inFlight, hmark, Option.toList_some, List.length_append, List.length_singleton]
    rcases hs.downMark (by simp [hmark]) with hpending | hrecv
    · simp only [hpending, Bool.toNat_true] at hlone
      omega
    · have : 0 < s.cli.frames.countP isReading := List.countP_pos_iff.mpr ⟨_, hrecv, rfl⟩
      omega

/-- Above the running handler for SIGALRM there is no other one below. -/
theorem no_alrm_below (hs : TokenInv s) {pc : AlrmPc} {fs : List Frame}
    (hframes : s.cli.frames = .alrm pc :: fs) (pc' : AlrmPc) : .alrm pc' ∉ fs := by
  intro hmem
  have hone := hs.oneAlrm
  have : 0 < fs.countP Frame.isAlrm := List.countP_pos_iff.mpr ⟨_, hmem, rfl⟩
  rw [hframes, List.countP_cons_of_pos rfl] at hone
  omega

/-- While a handler reads, no other handler does, no signal is pending, and the flag does not count. -/
theorem reading (hs : TokenInv s) {pc : UrgPc} {fs : List Frame} (hframes : s.cli.frames = .urg pc :: fs)
    (hpc : isReading (.urg pc) = true) :
    s.holdsFlag = false ∧ s.down.pending = false ∧ fs.countP isReading = 0 ∧
      s.up.inFlight.length = 0 ∧ s.down.wire.length = 0 := by
  have hlone := hs.lone
  rw [Session.tokens, hframes, List.countP_cons_of_pos hpc] at hlone
  refine ⟨?_, ?_, by omega, by omega, by omega⟩
  · rw [← Bool.toNat_eq_zero]
    omega
  · rw [← Bool.toNat_eq_zero]
    omega

/-! ## One lemma for each event -/

theorem arriveUp (hs : TokenInv s) {l : Urgent Char} (harrive : s.up.arrive = some l) :
    TokenInv { s with up := l } := by
  have hup := hs.up.arrive harrive hs.up_lone
  obtain ⟨c, hwire, hmark, rfl⟩ := Urgent.arrive_lone harrive hs.up_lone
  have hlength : s.up.inFlight.length = 1 := by simp [Urgent.inFlight, hwire, hmark]
  refine { hs with lone := ?_, up := hup, upMark := fun _ => rfl, beats := ?_ }
  · have hlone := hs.lone
    simp only [Session.tokens, hlength] at hlone
    simpa [Session.tokens, Session.holdsFlag, Urgent.inFlight] using hlone
  · have hbeats := hs.beats
    rw [hlength] at hbeats
    exact hbeats

theorem arriveDown (hs : TokenInv s) {l : Urgent Char} (harrive : s.down.arrive = some l) :
    TokenInv { s with down := l } := by
  have hdown := hs.down.arrive harrive hs.down_lone
  obtain ⟨c, hwire, hmark, rfl⟩ := Urgent.arrive_lone harrive hs.down_lone
  refine { hs with lone := ?_, down := hdown, downMark := fun _ => Or.inl rfl }
  have hlone := hs.lone
  simp only [Session.tokens, hwire, List.length_singleton] at hlone
  simp only [Session.tokens, Session.holdsFlag, Bool.toNat_true, List.length_nil] at hlone ⊢
  omega

/-- The server's handler finds a heartbeat, and answers it. -/
theorem srvUrg_eq (hs : TokenInv s) (hpending : s.up.pending = true) (junk : Char) :
    s.up.inFlight.length = 1 ∧ s.up.take.inFlight.length = 0 ∧
      s.srvUrg junk =
        { s with
          srv := s.srv.sigUrg
          up := s.up.signal.take
          down := if s.live then s.down.send 's' else s.down
          log := s.log ++ [.answer] } := by
  obtain ⟨c, hmark⟩ := Option.isSome_iff_exists.mp (hs.upMark hpending)
  have hc : c = 'c' := hs.up.mark hmark
  have htake : s.up.inFlight.length = s.up.take.inFlight.length + 1 := by
    rw [Urgent.inFlight_take hmark, List.length_cons]
  have hlone := hs.up_lone
  refine ⟨by omega, by omega, ?_⟩
  simp [Session.srvUrg, hmark, hc, Srv.answer]

theorem srvUrg (hs : TokenInv s) (hpending : s.up.pending = true) (junk : Char) :
    TokenInv (s.srvUrg junk) := by
  obtain ⟨hone, hzero, heq⟩ := hs.srvUrg_eq hpending junk
  have hbeats := hs.beats
  rw [heq]
  refine { hs with lone := ?_, up := hs.up.signal.take, upMark := ?_, down := ?_, downMark := ?_,
                   beats := ?_, law := hs.law.snoc fun _ => by omega }
  · have hlone := hs.lone
    have hwire : (if s.live then s.down.send 's' else s.down).wire.length ≤ s.down.wire.length + 1 := by
      split_ifs <;> simp [Urgent.send]
    have hpend : (if s.live then s.down.send 's' else s.down).pending = s.down.pending := by
      split_ifs <;> rfl
    have hup : s.up.signal.take.inFlight.length = 0 := hzero
    simp only [Session.tokens, Session.holdsFlag, hpend, hup] at hlone ⊢
    omega
  · simp [Urgent.take, Urgent.signal]
  · split_ifs
    · exact hs.down.send
    · exact hs.down
  · split_ifs
    · exact hs.downMark
    · exact hs.downMark
  · have hup : s.up.signal.take.inFlight.length = 0 := hzero
    simp only [List.count_append, hup]
    simp
    omega

theorem onAlrm (hs : TokenInv s) (hfree : s.cli.frames.all (fun f => !f.isAlrm) = true) :
    TokenInv s.onAlrm := by
  have hnone : s.cli.frames.countP Frame.isAlrm = 0 := by
    simpa [List.countP_eq_zero] using hfree
  refine { hs with lone := ?_, oneAlrm := ?_, send := ?_, downMark := ?_, beats := ?_,
                   law := hs.law.snoc (by simp [Answers]) }
  · simpa [Session.tokens, Session.holdsFlag, Session.onAlrm] using hs.lone
  · simp [Session.onAlrm, hnone]
  · simpa [Session.onAlrm] using hs.send
  · simpa [Session.onAlrm] using hs.downMark
  · simpa [Session.onAlrm] using hs.beats

theorem onUrg (hs : TokenInv s) (hpending : s.down.pending = true) : TokenInv s.onUrg := by
  refine { hs with lone := ?_, oneAlrm := hs.oneAlrm, send := ?_, down := hs.down.signal,
                   downMark := fun _ => Or.inr List.mem_cons_self }
  · -- the token moves from the pending signal to the handler
    have hlone := hs.lone
    simp only [Session.tokens, Session.holdsFlag, hpending] at hlone
    simp [Session.tokens, Session.holdsFlag, Session.onUrg, Urgent.signal] at hlone ⊢
    omega
  · simpa [Session.onUrg] using hs.send

/-- A statement of the client's handler for SIGALRM that sends nothing and closes nothing: the head frame
moves or is gone. -/
theorem alrmMoves (hs : TokenInv s) {s' : Session} {pc : AlrmPc} {fs : List Frame}
    (hframes : s.cli.frames = .alrm pc :: fs)
    (hmoves : s'.cli.frames = fs ∨
      ∃ pc', s'.cli.frames = .alrm pc' :: fs ∧ (pc' = .send → s'.cli.gotReply = true))
    (hup : s'.up = s.up) (hdown : s'.down = s.down) (hlone : s'.tokens ≤ s.tokens)
    (hlog : s'.log = s.log ∨ ∃ e, s'.log = s.log ++ [e] ∧ e ≠ .heartbeat ∧ e ≠ .answer) :
    TokenInv s' := by
  have hbelow := hs.no_alrm_below hframes
  have hone := hs.oneAlrm
  have hmark := hs.downMark
  rw [hframes] at hone hmark
  refine { lone := hlone.trans hs.lone, oneAlrm := ?_, send := ?_, up := hup ▸ hs.up,
           upMark := hup ▸ hs.upMark, down := hdown ▸ hs.down, downMark := ?_, beats := ?_, law := ?_ }
  · rw [countP_alrm_alrm] at hone
    rcases hmoves with hfs | ⟨pc', hfs, -⟩
    · rw [hfs]
      omega
    · rwa [hfs, countP_alrm_alrm]
  · rcases hmoves with hfs | ⟨pc', hfs, hsend⟩
    · rw [hfs]
      exact fun hmem => absurd hmem (hbelow .send)
    · rw [hfs]
      intro hmem
      rcases List.mem_cons.mp hmem with heq | hmem
      · exact hsend (Frame.alrm.inj heq).symm
      · exact absurd hmem (hbelow .send)
  · rw [hdown]
    rcases hmoves with hfs | ⟨pc', hfs, -⟩ <;> simpa [hfs] using hmark
  · rw [hup]
    rcases hlog with hlog | ⟨e, hlog, hbeat, hanswer⟩
    · rw [hlog, hs.beats]
    · rw [hlog, List.count_append, List.count_append, hs.beats, List.count_singleton,
        List.count_singleton, if_neg (by simpa using hbeat), if_neg (by simpa using hanswer)]
      omega
  · rcases hlog with hlog | ⟨e, hlog, -, hanswer⟩
    · exact hlog ▸ hs.law
    · rw [hlog]
      exact hs.law.snoc fun he => absurd he hanswer

/-- Where the token can be while the handler for SIGALRM runs. -/
theorem tokens_alrm {pc : AlrmPc} {fs : List Frame} (hframes : s.cli.frames = .alrm pc :: fs) :
    s.tokens = s.holdsFlag.toNat + s.down.pending.toNat + fs.countP isReading +
      s.up.inFlight.length + s.down.wire.length := by
  rw [Session.tokens, hframes, countP_reading_alrm]

/-- The heartbeat: the flag stops counting, and the heartbeat starts. -/
theorem alrmSend (hs : TokenInv s) {fs : List Frame} (hframes : s.cli.frames = .alrm .send :: fs) :
    TokenInv (s.alrm fs .send) := by
  have hbelow := hs.no_alrm_below hframes
  have htokens := tokens_alrm hframes
  cases hlive : s.live with
  | true =>
    have hone := hs.oneAlrm
    have hmark := hs.downMark
    have hlone := hs.lone
    rw [hframes] at hone hmark
    have hgot : s.cli.gotReply = true := hs.send (by simp [hframes])
    have hflag : s.holdsFlag = true := by simp [Session.holdsFlag, hgot, hframes, hbelow]
    rw [htokens, hflag, Bool.toNat_true] at hlone
    have heq : s.alrm fs .send = { s with
        cli := s.cli.alrmStep fs .send, up := s.up.send 'c', log := s.log ++ [.heartbeat] } := by
      simp [Session.alrm, hlive]
    rw [heq]
    refine { hs with lone := ?_, oneAlrm := hone, send := ?_, up := hs.up.send, downMark := ?_,
                     beats := ?_, law := hs.law.snoc (by simp [Answers]) }
    · simp only [Session.tokens, Session.holdsFlag, Client.alrmStep, Client.send_gotReply, Client.send_frames,
        List.mem_cons_self, decide_true, Bool.not_true, Bool.and_false, Bool.toNat_false, countP_reading_alrm,
        Urgent.inFlight_send, List.length_append, List.length_singleton]
      omega
    · simp [Client.alrmStep, hbelow]
    · simpa [Client.alrmStep, Client.logs] using hmark
    · have hbeats := hs.beats
      simp
      omega
  | false =>
    refine hs.alrmMoves hframes (Or.inr ⟨.clear, ?_, by simp⟩) ?_ ?_ ?_
      (Or.inr ⟨.unsent, ?_, by simp, by simp⟩)
    · simp [Session.alrm, hlive, Client.alrmStep]
    · simp [Session.alrm, hlive]
    · simp [Session.alrm, hlive]
    · rw [htokens]
      simp [Session.tokens, Session.holdsFlag, Session.alrm, hlive, Client.alrmStep]
    · simp [Session.alrm, hlive]

/-- The close: what is in flight to the client is discarded. -/
theorem alrmClose (hs : TokenInv s) {fs : List Frame} (hframes : s.cli.frames = .alrm .close :: fs) :
    TokenInv (s.alrm fs .close) := by
  have hbelow := hs.no_alrm_below hframes
  have hone := hs.oneAlrm
  have hlone := hs.lone
  rw [tokens_alrm hframes] at hlone
  rw [hframes] at hone
  refine { hs with lone := ?_, oneAlrm := hone, send := ?_, down := hs.down.discard, downMark := ?_,
                   beats := ?_, law := hs.law.snoc (by simp [Answers]) }
  · have hflag : (s.alrm fs .close).holdsFlag = s.holdsFlag := by
      simp [Session.holdsFlag, Session.alrm, Client.alrmStep, Client.logs, hframes]
    rw [Session.tokens, hflag]
    simp only [Session.alrm, Client.alrmStep, Client.logs, Urgent.discard, countP_reading_alrm,
      List.length_nil]
    omega
  · simp [Session.alrm, Client.alrmStep, Client.logs, hbelow]
  · simp [Session.alrm, Urgent.discard]
  · simpa [Session.alrm] using hs.beats

/-- The report, which is printed once in an outage. -/
theorem alrmReport (hs : TokenInv s) {fs : List Frame} (hframes : s.cli.frames = .alrm .report :: fs) :
    TokenInv (s.alrm fs .report) := by
  have hkept : ∀ s' : Session, s'.cli.gotReply = s.cli.gotReply → s'.cli.frames = fs →
      s'.up = s.up → s'.down = s.down → s'.tokens ≤ s.tokens := by
    intro s' hgot hfs hup hdown
    rw [tokens_alrm hframes]
    simp [Session.tokens, Session.holdsFlag, hgot, hfs, hup, hdown, hframes]
  cases hreset : s.cli.alreadyReset with
  | true =>
    have heq : s.alrm fs .report = { s with cli := { s.cli with frames := fs } } := by
      simp [Session.alrm, Client.alrmStep, hreset]
    rw [heq]
    exact hs.alrmMoves hframes (Or.inl rfl) rfl rfl (hkept _ rfl rfl rfl rfl) (Or.inl rfl)
  | false =>
    have heq : s.alrm fs .report = { s with
        cli := { s.cli with alreadyReset := true, frames := fs }.logs [.lostConnection]
        log := s.log ++ [.lost] } := by
      simp [Session.alrm, Client.alrmStep, hreset]
    rw [heq]
    exact hs.alrmMoves hframes (Or.inl rfl) rfl rfl (hkept _ rfl rfl rfl rfl)
      (Or.inr ⟨.lost, rfl, by simp, by simp⟩)

/-- The client's handler for SIGALRM turns the flag into a heartbeat. -/
theorem alrm (hs : TokenInv s) {pc : AlrmPc} {fs : List Frame}
    (hframes : s.cli.frames = .alrm pc :: fs) : TokenInv (s.alrm fs pc) := by
  cases pc with
  | alarm =>
    refine hs.alrmMoves hframes (Or.inr ⟨.test, rfl, by simp⟩) rfl rfl ?_ (Or.inl rfl)
    rw [tokens_alrm hframes]
    simp [Session.tokens, Session.holdsFlag, Session.alrm, Client.alrmStep, hframes]
  | test =>
    refine hs.alrmMoves hframes (Or.inr ⟨_, rfl, ?_⟩) rfl rfl ?_ (Or.inl rfl)
    · intro hsend
      by_contra hgot
      have hclear : s.cli.gotReply = false := Bool.eq_false_iff.mpr hgot
      simp [hclear] at hsend
    · rw [tokens_alrm hframes]
      cases hgot : s.cli.gotReply <;>
        simp [Session.tokens, Session.holdsFlag, Session.alrm, Client.alrmStep, hframes, hgot]
  | send => exact hs.alrmSend hframes
  | clear =>
    refine hs.alrmMoves hframes (Or.inl rfl) rfl rfl ?_ (Or.inl rfl)
    rw [tokens_alrm hframes]
    simp [Session.tokens, Session.holdsFlag, Session.alrm, Client.alrmStep]
  | close => exact hs.alrmClose hframes
  | report => exact hs.alrmReport hframes

/-- A handler that reads above a set flag: the handler for SIGALRM below it, if there is one, is about to
clear the flag. -/
theorem clear_below (hs : TokenInv s) {pc : UrgPc} {fs : List Frame}
    (hframes : s.cli.frames = .urg pc :: fs) (hpc : isReading (.urg pc) = true)
    (hgot : s.cli.gotReply = true) {pc' : AlrmPc} (hmem : .alrm pc' ∈ fs) : pc' = .clear := by
  by_contra hne
  have hflag := (hs.reading hframes hpc).1
  have hclear : .alrm .clear ∈ fs := by simpa [Session.holdsFlag, hgot, hframes] using hflag
  have hone := hs.oneAlrm
  rw [hframes, countP_alrm_urg] at hone
  -- the two frames would be two handlers for SIGALRM
  obtain ⟨l, r, rfl⟩ := List.append_of_mem hmem
  rw [List.countP_append, countP_alrm_alrm] at hone
  rcases List.mem_append.mp hclear with hl | hr
  · have : 0 < l.countP Frame.isAlrm := List.countP_pos_iff.mpr ⟨_, hl, rfl⟩
    omega
  · have hr' : .alrm .clear ∈ r :=
      (List.mem_cons.mp hr).resolve_left fun heq => hne (Frame.alrm.inj heq).symm
    have : 0 < r.countP Frame.isAlrm := List.countP_pos_iff.mpr ⟨_, hr', rfl⟩
    omega

/-- A handler for SIGURG that has not yet set the flag does `recv`, and gets `c` or nothing. -/
theorem urgRecv (hs : TokenInv s) {fs : List Frame} (hframes : s.cli.frames = .urg .recv :: fs)
    (junk : Char) : TokenInv (s.urg fs junk .recv) := by
  have hone := hs.oneAlrm
  have hsend := hs.send
  rw [hframes] at hone hsend
  have hlone := hs.lone
  rw [Session.tokens, hframes, countP_reading_recv] at hlone
  cases hmark : s.down.mark with
  | none =>
    have heq : s.urg fs junk .recv = { s with cli := s.cli.urgStep fs false junk .recv } := by
      simp [Session.urg, hmark]
    rw [heq]
    refine { hs with lone := ?_, oneAlrm := hone, send := ?_, downMark := ?_ }
    · simpa [Session.tokens, Session.holdsFlag, Client.urgStep, Client.logs, hframes] using hlone
    · simpa [Client.urgStep, Client.logs] using hsend
    · simp [hmark]
  | some c =>
    have heq : s.urg fs junk .recv = { s with
        cli := s.cli.urgStep fs true c .recv
        down := s.down.take
        log := s.log ++ if c = 's' then [.reply] else [] } := by
      simp [Session.urg, hmark]
    rw [heq, if_pos (hs.down.mark hmark)]
    refine { hs with lone := ?_, oneAlrm := hone, send := ?_, down := hs.down.take, downMark := ?_,
                     beats := ?_, law := hs.law.snoc (by simp [Answers]) }
    · simpa [Session.tokens, Session.holdsFlag, Client.urgStep, Client.logs, hframes,
        Urgent.take] using hlone
    · simpa [Client.urgStep, Client.logs] using hsend
    · simp [Urgent.take]
    · simpa using hs.beats

/-- The client's handler for SIGURG turns the byte that it read into the flag. -/
theorem urg (hs : TokenInv s) {pc : UrgPc} {fs : List Frame}
    (hframes : s.cli.frames = .urg pc :: fs) (junk : Char) : TokenInv (s.urg fs junk pc) := by
  have hone := hs.oneAlrm
  have hmark := hs.downMark
  rw [hframes] at hone hmark
  have hlone := hs.lone
  cases pc with
  | recv => exact hs.urgRecv hframes junk
  | assign got c =>
    obtain ⟨-, hpending, hcount, hup, hwire⟩ := hs.reading hframes rfl
    have heq : s.urg fs junk (.assign got c) =
        { s with cli := { s.cli with gotReply := c == 's', frames := .urg .reset :: fs } } := by
      simp [Session.urg, Client.urgStep]
    rw [heq]
    refine { hs with lone := ?_, oneAlrm := hone, send := ?_, downMark := ?_ }
    · -- whatever the flag is now, there is nothing else
      simp only [Session.tokens, hpending, countP_reading_reset, hcount, hup, hwire, Bool.toNat_false]
      have := Bool.toNat_le (Session.holdsFlag
        { s with cli := { s.cli with gotReply := c == 's', frames := .urg .reset :: fs } })
      omega
    · intro hmem
      have hbelow : .alrm .send ∈ fs := by simpa using hmem
      have hgot : s.cli.gotReply = true := hs.send (by simp [hframes, hbelow])
      exact absurd (hs.clear_below hframes rfl hgot hbelow) (by decide)
    · simpa using hmark
  | reset =>
    have heq : s.urg fs junk .reset =
        { s with cli := { s.cli with alreadyReset := false, frames := fs } } := by
      simp [Session.urg, Client.urgStep]
    rw [heq]
    refine { hs with lone := ?_, oneAlrm := hone, send := ?_, downMark := ?_ }
    · simpa [Session.tokens, Session.holdsFlag, hframes] using hlone
    · intro hmem
      exact hs.send (by simpa [hframes] using hmem)
    · simpa using hmark

/-- **One step keeps the invariant**, whichever handlers are nested. -/
theorem step {s' : Session} {e : Ev} (hs : TokenInv s) (hstep : s.Step e s') : TokenInv s' := by
  cases hstep with
  | arriveUp harrive => exact hs.arriveUp harrive
  | arriveDown harrive => exact hs.arriveDown harrive
  | srvUrg hpending => exact hs.srvUrg hpending _
  | srvAlrm => exact { hs with lone := hs.lone }
  | sigalrm harmed hfree => exact hs.onAlrm hfree
  | sigurg hpending hfree => exact hs.onUrg hpending
  | alrm hframes => exact hs.alrm hframes
  | urg hframes => exact hs.urg hframes _

/-- The invariant holds in every run. -/
theorem reachable (hreach : (session cli srv).Reachable s) : TokenInv s :=
  System.invariant _ start (fun _ _ _ _ hI hstep => hI.step (session_step_iff.mp hstep)) hreach

end TokenInv

end NetProg.HeartbeatSession
