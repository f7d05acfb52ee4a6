/-
# NetProg.Heartbeat.SessionReply -- when a received reply is not forgotten.

The handler for SIGALRM closes the connection when it finds `got_reply == 0`, and takes that to mean that
no reply came.  That is wrong in two windows.  A reply that is received between the handler's `send` and
its `got_reply = 0` is overwritten; and a SIGALRM that interrupts the handler for SIGURG between its
`recv` and its assignment looks at the flag too early.  `Timely` excludes these two and nothing else; in
every run without them a SIGALRM that closes the connection, or reports the server as lost, was delivered
while a heartbeat had no reply.
-/
import NetProg.Heartbeat.SessionToken

namespace NetProg.HeartbeatSession

open NetProg.HeartbeatCli NetProg.HeartbeatSrv

/-! ## Reading the log -/

/-- A heartbeat was sent, or tried, and no reply was received since. -/
def owes (l : List Act) : Bool :=
  match l.reverse.find? fun e => e == .heartbeat || e == .unsent || e == .reply with
  | some .heartbeat | some .unsent => true
  | _ => false

/-- The log up to the last delivery of a SIGALRM. -/
def beforeAlarm (l : List Act) : List Act := (l.reverse.dropWhile (· != .alarm)).tail.reverse

/-- The SIGALRM that closes the connection, or reports the server as lost, was delivered while a heartbeat
had no reply. -/
def Remembers (pre : List Act) (e : Act) : Prop :=
  e = .close ∨ e = .lost → owes (beforeAlarm pre) = true

section Log

variable (l : List Act)

theorem owes_snoc (e : Act) : owes (l ++ [e]) =
    match e with
    | .heartbeat | .unsent => true
    | .reply => false
    | _ => owes l := by
  cases e <;> simp [owes]

theorem beforeAlarm_snoc (e : Act) :
    beforeAlarm (l ++ [e]) = if e = .alarm then l else beforeAlarm l := by
  cases e <;> simp [beforeAlarm]

theorem beforeAlarm_other {e : Act} (he : e ≠ .alarm) : beforeAlarm (l ++ [e]) = beforeAlarm l := by
  rw [beforeAlarm_snoc, if_neg he]

end Log

/-! ## The condition -/

/-- The step does not fall into one of the two windows: no reply is received above a handler that is about
to clear the flag, and no SIGALRM is delivered above a handler that has received one. -/
def Timely (s : Session) (e : Ev) : Prop :=
  match e, s.cli.frames with
  | .urg _, .urg .recv :: fs => s.down.mark = some 's' → .alrm .clear ∉ fs
  | .sigalrm, fs => ¬ HoldsReply fs
  | _, _ => True

instance (s : Session) (e : Ev) : Decidable (Timely s e) := by
  unfold Timely
  split <;> infer_instance

/-! ## The invariant -/

/-- What an active handler may rely on. -/
def FrameOk (s : Session) : Frame → Prop
  | .alrm .alarm | .alrm .test => s.cli.gotReply = true ∨ owes (beforeAlarm s.log) = true
  | .alrm .clear | .urg (.assign false _) => owes s.log = true
  | .alrm .close | .alrm .report => owes (beforeAlarm s.log) = true
  | .urg .recv => s.down.mark = none → owes s.log = true
  | .urg (.assign true c) => c = 's'
  | .alrm .send | .urg .reset => True

/-- The invariant of the timely runs. -/
structure ReplyInv (s : Session) : Prop where
  token : TokenInv s
  frames : ∀ f ∈ s.cli.frames, FrameOk s f
  flag : s.cli.gotReply = false → HoldsReply s.cli.frames ∨ owes s.log = true
  pending : s.down.pending = true → s.down.mark = none → owes s.log = true
  law : Each Remembers s.log

/-- What a step must keep so that an active handler can still rely on it. -/
theorem FrameOk.mono {s s' : Session} {f : Frame} (h : FrameOk s f)
    (hgot : f = .alrm .alarm ∨ f = .alrm .test → s.cli.gotReply = true → s'.cli.gotReply = true)
    (hbefore : f.isAlrm = true → beforeAlarm s'.log = beforeAlarm s.log)
    (howes : f = .alrm .clear ∨ isReading f = true → owes s.log = true → owes s'.log = true)
    (hmark : f = .urg .recv → s'.down.mark = none → s.down.mark = none ∨ owes s'.log = true) :
    FrameOk s' f := by
  cases f with
  | alrm pc =>
    cases pc with
    | alarm | test =>
      simp only [FrameOk, hbefore rfl] at h ⊢
      exact h.imp_left (hgot (by simp))
    | send => trivial
    | clear => exact howes (Or.inl rfl) h
    | close | report =>
      simp only [FrameOk, hbefore rfl] at h ⊢
      exact h
  | urg pc =>
    cases pc with
    | recv =>
      intro hnone
      rcases hmark rfl hnone with hbefore | hnow
      · exact howes (Or.inr rfl) (h hbefore)
      · exact hnow
    | assign got c =>
      cases got with
      | true => exact h
      | false => exact howes (Or.inr rfl) h
    | reset => trivial

/-- A step that touches neither the flag nor the log nor the reply in flight. -/
theorem FrameOk.congr {s s' : Session} {f : Frame} (h : FrameOk s f)
    (hgot : s'.cli.gotReply = s.cli.gotReply) (hlog : s'.log = s.log)
    (hmark : s'.down.mark = s.down.mark) : FrameOk s' f := by
  refine h.mono (fun _ => hgot.trans) ?_ ?_ ?_
  · rw [hlog]
    exact fun _ => rfl
  · rw [hlog]
    exact fun _ => id
  · rw [hmark]
    exact fun _ hnone => Or.inl hnone

namespace ReplyInv

variable {cli : Client} {srv : Srv} {s : Session}

theorem start : ReplyInv (Session.start cli srv) where
  token := TokenInv.start
  frames := by simp [Session.start]
  flag := by simp [Session.start]
  pending := by simp [Session.start, Urgent.idle]
  law := Each.nil

/-- While a signal waits or a handler is about to read, no reply is held and the flag is clear: a
heartbeat has no reply. -/
theorem owes_of_waiting (hs : ReplyInv s) (hclear : .alrm .clear ∉ s.cli.frames)
    (hwait : s.down.pending = true ∨ .urg .recv ∈ s.cli.frames) : owes s.log = true := by
  have hlone := hs.token.lone
  simp only [Session.tokens] at hlone
  have hgot : s.cli.gotReply = false := by
    cases hgot : s.cli.gotReply with
    | false => rfl
    | true =>
      have hflag : s.holdsFlag = true := by simp [Session.holdsFlag, hgot, hclear]
      rw [hflag, Bool.toNat_true] at hlone
      rcases hwait with hpending | hrecv
      · rw [hpending, Bool.toNat_true] at hlone
        omega
      · have : 0 < s.cli.frames.countP isReading := List.countP_pos_iff.mpr ⟨_, hrecv, rfl⟩
        omega
  refine (hs.flag hgot).resolve_left fun hheld => ?_
  obtain ⟨l, r, hframes⟩ := List.append_of_mem hheld
  rw [hframes, List.countP_append, countP_reading_assign] at hlone
  rcases hwait with hpending | hrecv
  · rw [hpending, Bool.toNat_true] at hlone
    omega
  · rw [hframes] at hrecv
    rcases List.mem_append.mp hrecv with hl | hr
    · have : 0 < l.countP isReading := List.countP_pos_iff.mpr ⟨_, hl, rfl⟩
      omega
    · have : 0 < r.countP isReading :=
        List.countP_pos_iff.mpr ⟨_, (List.mem_cons.mp hr).resolve_left (by simp), rfl⟩
      omega

/-! ## One lemma for each event -/

theorem arriveUp (hs : ReplyInv s) {l : Urgent Char} (harrive : s.up.arrive = some l) :
    ReplyInv { s with up := l } where
  token := hs.token.arriveUp harrive
  frames := fun f hf => (hs.frames f hf).congr rfl rfl rfl
  flag := hs.flag
  pending := hs.pending
  law := hs.law

theorem arriveDown (hs : ReplyInv s) {l : Urgent Char} (harrive : s.down.arrive = some l) :
    ReplyInv { s with down := l } := by
  have htoken := hs.token.arriveDown harrive
  obtain ⟨c, -, -, rfl⟩ := Urgent.arrive_lone harrive hs.token.down_lone
  refine ⟨htoken, fun f hf => ?_, hs.flag, fun _ hnone => ?_, hs.law⟩
  · exact (hs.frames f hf).mono (fun _ => id) (fun _ => rfl) (fun _ => id)
      fun _ hnone => absurd hnone (by simp)
  · exact absurd hnone (by simp)

theorem srvUrg (hs : ReplyInv s) (hpending : s.up.pending = true) (junk : Char) :
    ReplyInv (s.srvUrg junk) := by
  have htoken := hs.token.srvUrg hpending junk
  obtain ⟨-, -, heq⟩ := hs.token.srvUrg_eq hpending junk
  rw [heq] at htoken ⊢
  have howes : owes (s.log ++ [.answer]) = owes s.log := owes_snoc _ _
  have hdown : (if s.live then s.down.send 's' else s.down).pending = s.down.pending ∧
      (if s.live then s.down.send 's' else s.down).mark = s.down.mark := by
    split_ifs <;> exact ⟨rfl, rfl⟩
  refine ⟨htoken, fun f hf => ?_, ?_, ?_, hs.law.snoc (by simp [Remembers])⟩
  · refine (hs.frames f hf).mono (fun _ => id) (fun _ => beforeAlarm_other _ (by simp)) ?_ ?_
    · exact fun _ hbefore => howes.trans hbefore
    · exact fun _ hnone => Or.inl (hdown.2 ▸ hnone)
  · rw [howes]
    exact hs.flag
  · rw [howes, hdown.1, hdown.2]
    exact hs.pending

/-- A SIGALRM that is delivered while no reply is held sees the truth in the flag. -/
theorem onAlrm (hs : ReplyInv s) (hfree : s.cli.frames.all (fun f => !f.isAlrm) = true)
    (htimely : ¬ HoldsReply s.cli.frames) : ReplyInv s.onAlrm := by
  have howes : owes (s.log ++ [.alarm]) = owes s.log := owes_snoc _ _
  refine ⟨hs.token.onAlrm hfree, fun f hf => ?_, ?_, ?_, hs.law.snoc (by simp [Remembers])⟩
  · rcases List.mem_cons.mp hf with rfl | hf
    · have hbefore : beforeAlarm (s.log ++ [.alarm]) = s.log := by simp [beforeAlarm_snoc]
      have hflag : s.cli.gotReply = true ∨ owes s.log = true := by
        cases hgot : s.cli.gotReply with
        | true => exact Or.inl rfl
        | false => exact Or.inr ((hs.flag hgot).resolve_left htimely)
      simpa [FrameOk, Session.onAlrm, hbefore] using hflag
    · have hurg : f.isAlrm = false := by simpa using List.all_eq_true.mp hfree f hf
      refine (hs.frames f hf).mono (fun _ => id) (fun halrm => ?_) ?_ fun _ hnone => Or.inl hnone
      · exact absurd (hurg.symm.trans halrm) (by decide)
      · exact fun _ hbefore => howes.trans hbefore
  · intro hgot
    rcases hs.flag hgot with hheld | hlog
    · exact absurd hheld htimely
    · exact Or.inr (howes.trans hlog)
  · intro hpending hnone
    exact howes.trans (hs.pending hpending hnone)

theorem onUrg (hs : ReplyInv s) (hpending : s.down.pending = true) : ReplyInv s.onUrg := by
  refine ⟨hs.token.onUrg hpending, fun f hf => ?_, fun hgot => ?_, fun h => ?_, hs.law⟩
  · rcases List.mem_cons.mp hf with rfl | hf
    · exact hs.pending hpending
    · exact (hs.frames f hf).congr rfl rfl rfl
  · exact (hs.flag hgot).imp_left (List.mem_cons_of_mem _)
  · simp [Session.onUrg, Urgent.signal] at h

/-- The heartbeat just sent, or tried, is the one without a reply. -/
theorem alrmSend (hs : ReplyInv s) {fs : List Frame} (hframes : s.cli.frames = .alrm .send :: fs) :
    ReplyInv (s.alrm fs .send) := by
  have htoken := hs.token.alrm hframes
  have hfs : ∀ f ∈ fs, FrameOk s f := fun f hf => hs.frames f (by simp [hframes, hf])
  have hkey : ∀ (up : Urgent Char) (e : Act), e = .heartbeat ∨ e = .unsent →
      TokenInv { s with cli := s.cli.alrmStep fs .send, up := up, log := s.log ++ [e] } →
      ReplyInv { s with cli := s.cli.alrmStep fs .send, up := up, log := s.log ++ [e] } := by
    intro up e he htoken
    have howes : owes (s.log ++ [e]) = true := by
      rcases he with rfl | rfl <;> exact owes_snoc _ _
    have hbefore : beforeAlarm (s.log ++ [e]) = beforeAlarm s.log := by
      rcases he with rfl | rfl <;> exact beforeAlarm_other _ (by simp)
    refine ⟨htoken, fun f hf => ?_, fun _ => Or.inr howes, fun _ _ => howes, hs.law.snoc ?_⟩
    · rcases List.mem_cons.mp hf with rfl | hf
      · exact howes
      · exact (hfs f hf).mono (fun _ => id) (fun _ => hbefore) (fun _ _ => howes)
          fun _ hnone => Or.inl hnone
    · rcases he with rfl | rfl <;> simp [Remembers]
  simp only [Session.alrm] at htoken ⊢
  split_ifs at htoken ⊢
  · exact hkey _ _ (Or.inl rfl) htoken
  · exact hkey _ _ (Or.inr rfl) htoken

/-- The connection is closed only when the last alarm found a heartbeat without a reply. -/
theorem alrmClose (hs : ReplyInv s) {fs : List Frame} (hframes : s.cli.frames = .alrm .close :: fs) :
    ReplyInv (s.alrm fs .close) := by
  have htoken := hs.token.alrm hframes
  have hhead : FrameOk s (.alrm .close) := hs.frames _ (by simp [hframes])
  have hbelow := hs.token.no_alrm_below hframes
  have hfs : ∀ f ∈ fs, FrameOk s f := fun f hf => hs.frames f (by simp [hframes, hf])
  have hheld : HoldsReply s.cli.frames → HoldsReply fs := by simp [hframes, HoldsReply]
  have hclear : .alrm .clear ∉ s.cli.frames := by simp [hframes, hbelow]
  have howes : owes (s.log ++ [.close]) = owes s.log := owes_snoc _ _
  have hbefore : beforeAlarm (s.log ++ [.close]) = beforeAlarm s.log := beforeAlarm_other _ (by simp)
  refine ⟨htoken, fun f hf => ?_, fun hgot => ?_, fun hpending _ => ?_, hs.law.snoc fun _ => hhead⟩
  · rcases List.mem_cons.mp hf with rfl | hf
    · exact (congrArg (owes · = true) hbefore).mpr hhead
    · refine (hfs f hf).mono (fun _ => id) (fun _ => hbefore) (fun _ hlog => howes.trans hlog) ?_
      rintro rfl -
      exact Or.inr (howes.trans (hs.owes_of_waiting hclear (Or.inr (by simp [hframes, hf]))))
  · refine (hs.flag hgot).imp (fun hmem => List.mem_cons_of_mem _ (hheld hmem)) fun hlog => ?_
    exact howes.trans hlog
  · exact howes.trans (hs.owes_of_waiting hclear (Or.inl hpending))

/-- The client's handler for SIGALRM: it clears the flag only when it has sent a heartbeat. -/
theorem alrm (hs : ReplyInv s) {pc : AlrmPc} {fs : List Frame}
    (hframes : s.cli.frames = .alrm pc :: fs) : ReplyInv (s.alrm fs pc) := by
  have htoken := hs.token.alrm hframes
  have hhead : FrameOk s (.alrm pc) := hs.frames _ (by simp [hframes])
  have hbelow := hs.token.no_alrm_below hframes
  have hfs : ∀ f ∈ fs, FrameOk s f := fun f hf => hs.frames f (by simp [hframes, hf])
  have hheld : HoldsReply s.cli.frames → HoldsReply fs := by simp [hframes, HoldsReply]
  cases pc with
  | alarm =>
    refine ⟨htoken, fun f hf => ?_, fun hgot => ?_, hs.pending, hs.law⟩
    · rcases List.mem_cons.mp hf with rfl | hf
      · exact hhead
      · exact (hfs f hf).congr rfl rfl rfl
    · exact (hs.flag hgot).imp_left fun hmem => List.mem_cons_of_mem _ (hheld hmem)
  | test =>
    refine ⟨htoken, fun f hf => ?_, fun hgot => ?_, hs.pending, hs.law⟩
    · rcases List.mem_cons.mp hf with rfl | hf
      · cases hgot : s.cli.gotReply with
        | true => trivial
        | false => exact hhead.resolve_left (by simp [hgot])
      · exact (hfs f hf).congr rfl rfl rfl
    · exact (hs.flag hgot).imp_left fun hmem => List.mem_cons_of_mem _ (hheld hmem)
  | send => exact hs.alrmSend hframes
  | clear =>
    refine ⟨htoken, fun f hf => ?_, fun _ => Or.inr hhead, hs.pending, hs.law⟩
    refine (hfs f hf).mono (fun halrm => ?_) (fun _ => rfl) (fun _ => id) fun _ hnone => Or.inl hnone
    rcases halrm with rfl | rfl
    · exact absurd hf (hbelow _)
    · exact absurd hf (hbelow _)
  | close => exact hs.alrmClose hframes
  | report =>
    have howes : owes (s.log ++ [.lost]) = owes s.log := owes_snoc _ _
    simp only [Session.alrm, Client.alrmStep] at htoken ⊢
    split_ifs at htoken ⊢
    · refine ⟨htoken, fun f hf => ?_, fun hgot => (hs.flag hgot).imp_left hheld, hs.pending, hs.law⟩
      exact (hfs f hf).congr rfl rfl rfl
    · refine ⟨htoken, fun f hf => ?_, fun hgot => ?_, fun hpending hnone => ?_,
        hs.law.snoc fun _ => hhead⟩
      · exact (hfs f hf).mono (fun _ => id) (fun _ => beforeAlarm_other _ (by simp))
          (fun _ hlog => howes.trans hlog) fun _ hnone => Or.inl hnone
      · exact (hs.flag hgot).imp hheld fun hlog => howes.trans hlog
      · exact howes.trans (hs.pending hpending hnone)

/-- What SIGURG finds: a reply, which is held from then on, or nothing, because the connection is gone. -/
theorem urgRecv (hs : ReplyInv s) {fs : List Frame} {junk : Char}
    (hframes : s.cli.frames = .urg .recv :: fs) (htimely : Timely s (.urg junk)) :
    ReplyInv (s.urg fs junk .recv) := by
  have htoken := hs.token.urg hframes junk
  have hhead : FrameOk s (.urg .recv) := hs.frames _ (by simp [hframes])
  have hfs : ∀ f ∈ fs, FrameOk s f := fun f hf => hs.frames f (by simp [hframes, hf])
  obtain ⟨-, hpending, hcount, -, -⟩ := hs.token.reading hframes rfl
  cases hmark : s.down.mark with
  | none =>
    have heq : s.urg fs junk .recv = { s with cli := s.cli.urgStep fs false junk .recv } := by
      simp [Session.urg, hmark]
    rw [heq] at htoken ⊢
    have hlog : (s.cli.urgStep fs false junk .recv).frames = .urg (.assign false junk) :: fs := rfl
    refine ⟨htoken, fun f hf => ?_, fun hgot => ?_, hs.pending, hs.law⟩
    · rcases List.mem_cons.mp (hlog ▸ hf) with rfl | hf
      · exact hhead hmark
      · exact (hfs f hf).congr rfl rfl rfl
    · refine (hs.flag hgot).imp_left fun hheld => ?_
      rw [hframes] at hheld
      exact List.mem_cons_of_mem _ ((List.mem_cons.mp hheld).resolve_left (by simp))
  | some c =>
    have hc : c = 's' := hs.token.down.mark hmark
    have hclear : .alrm .clear ∉ fs := by
      simp only [Timely, hframes] at htimely
      exact htimely (by rw [hmark, hc])
    have heq : s.urg fs junk .recv = { s with
        cli := s.cli.urgStep fs true 's' .recv
        down := s.down.take
        log := s.log ++ [.reply] } := by
      simp [Session.urg, hmark, hc]
    rw [heq] at htoken ⊢
    refine ⟨htoken, fun f hf => ?_, fun _ => Or.inl List.mem_cons_self, fun h => ?_,
      hs.law.snoc (by simp [Remembers])⟩
    · rcases List.mem_cons.mp hf with rfl | hf
      · rfl
      · -- the frames below do not read, and are not about to clear the flag
        have hread : isReading f = false := by
          simpa using List.countP_eq_zero.mp hcount f hf
        refine (hfs f hf).mono (fun _ => id) (fun _ => beforeAlarm_other _ (by simp)) ?_ ?_
        · rintro (rfl | hreads)
          · exact absurd hf hclear
          · exact absurd (hread.symm.trans hreads) (by decide)
        · rintro rfl
          exact absurd hread (by decide)
    · exact absurd (hpending.symm.trans h) (by decide)

/-- The client's handler for SIGURG: the reply that it receives is held until the flag is set. -/
theorem urg (hs : ReplyInv s) {pc : UrgPc} {fs : List Frame} {junk : Char}
    (hframes : s.cli.frames = .urg pc :: fs) (htimely : Timely s (.urg junk)) :
    ReplyInv (s.urg fs junk pc) := by
  have htoken := hs.token.urg hframes junk
  have hhead : FrameOk s (.urg pc) := hs.frames _ (by simp [hframes])
  have hfs : ∀ f ∈ fs, FrameOk s f := fun f hf => hs.frames f (by simp [hframes, hf])
  cases pc with
  | recv => exact hs.urgRecv hframes htimely
  | assign got c =>
    obtain ⟨-, hpending, -⟩ := hs.token.reading hframes rfl
    have heq : s.urg fs junk (.assign got c) =
        { s with cli := { s.cli with gotReply := c == 's', frames := .urg .reset :: fs } } := by
      simp [Session.urg, Client.urgStep]
    rw [heq] at htoken ⊢
    refine ⟨htoken, fun f hf => ?_, fun hgot => Or.inr ?_, fun h => ?_, hs.law⟩
    · rcases List.mem_cons.mp hf with rfl | hf
      · trivial
      · refine (hfs f hf).mono (fun halrm hgot => ?_) (fun _ => rfl) (fun _ => id)
          fun _ hnone => Or.inl hnone
        rcases halrm with rfl | rfl
        · exact absurd (hs.token.clear_below hframes rfl hgot hf) (by decide)
        · exact absurd (hs.token.clear_below hframes rfl hgot hf) (by decide)
    · -- the byte was none that the server sent
      cases got with
      | false => exact hhead
      | true =>
        have hc : c = 's' := hhead
        simp [hc] at hgot
    · exact absurd (hpending.symm.trans h) (by decide)
  | reset =>
    have heq : s.urg fs junk .reset =
        { s with cli := { s.cli with alreadyReset := false, frames := fs } } := by
      simp [Session.urg, Client.urgStep]
    rw [heq] at htoken ⊢
    refine ⟨htoken, fun f hf => ?_, fun hgot => ?_, hs.pending, hs.law⟩
    · exact (hfs f hf).congr rfl rfl rfl
    · refine (hs.flag hgot).imp_left fun hheld => ?_
      rw [hframes] at hheld
      exact (List.mem_cons.mp hheld).resolve_left (by simp)

/-- **One timely step keeps the invariant.** -/
theorem step {s' : Session} {e : Ev} (hs : ReplyInv s) (htimely : Timely s e) (hstep : s.Step e s') :
    ReplyInv s' := by
  cases hstep with
  | arriveUp harrive => exact hs.arriveUp harrive
  | arriveDown harrive => exact hs.arriveDown harrive
  | srvUrg hpending => exact hs.srvUrg hpending _
  | srvAlrm =>
    refine ⟨{ hs.token with lone := hs.token.lone }, fun f hf => ?_, hs.flag, hs.pending, hs.law⟩
    exact (hs.frames f hf).congr rfl rfl rfl
  | sigalrm harmed hfree => exact hs.onAlrm hfree (by simpa [Timely] using htimely)
  | sigurg hpending hfree => exact hs.onUrg hpending
  | alrm hframes => exact hs.alrm hframes
  | urg hframes => exact hs.urg hframes htimely

/-- The invariant holds in every timely run. -/
theorem reachable (hreach : ((session cli srv).restrict Timely).Reachable s) : ReplyInv s := by
  refine (session cli srv).restrict_invariant start ?_ hreach
  intro s e s' _ hI htimely hstep
  exact hI.step htimely (session_step_iff.mp hstep)

end ReplyInv

/-! ## The main result -/

/-- **In the timely runs no received reply is forgotten**: a SIGALRM that closes the connection or reports
the server as lost was delivered while a heartbeat had no reply. -/
theorem session_replyNotForgotten (cli : Client) (srv : Srv) {s : Session}
    (hs : ((session cli srv).restrict Timely).Reachable s) : Each Remembers s.log :=
  (ReplyInv.reachable hs).law

/-- The reply is received between the handler's `send` and its `got_reply = 0`.  The next SIGALRM closes
the connection and reports the server as lost. -/
theorem session_forgetsReply :
    ∃ s, (session Client.start Srv.start).Reachable s ∧
      s.log = [.alarm, .heartbeat, .answer, .reply, .alarm, .close, .lost] ∧ s.live = false ∧
      ¬ Each Remembers s.log := by
  obtain ⟨s, hs, hend⟩ := (session Client.start Srv.start).exists_reachable_of_run
    [.sigalrm, .alrm, .alrm, .alrm, .arriveUp, .srvUrg 'x', .arriveDown, .sigurg, .urg 'x', .urg 'x',
      .urg 'x', .alrm, .sigalrm, .alrm, .alrm, .alrm, .alrm]
    (fun s => s.log == [.alarm, .heartbeat, .answer, .reply, .alarm, .close, .lost] && !s.live)
    (by decide +kernel)
  simp only [Bool.and_eq_true, beq_iff_eq, Bool.not_eq_true'] at hend
  refine ⟨s, hs, hend.1, hend.2, fun hlaw => ?_⟩
  rw [hend.1] at hlaw
  have hclose := hlaw [.alarm, .heartbeat, .answer, .reply, .alarm] .close [.lost] rfl (Or.inl rfl)
  exact absurd hclose (by decide)

/-- A heartbeat is answered and the next one is not; the alarm after that closes the connection, and is
right to do so. -/
theorem session_replyNotForgotten_unanswered :
    ∃ s, ((session Client.start Srv.start).restrict Timely).Reachable s ∧
      s.log = [.alarm, .heartbeat, .answer, .reply, .alarm, .heartbeat, .alarm, .close, .lost] ∧
      Each Remembers s.log := by
  obtain ⟨s, hs, hend⟩ := ((session Client.start Srv.start).restrict Timely).exists_reachable_of_run
    [.sigalrm, .alrm, .alrm, .alrm, .alrm, .arriveUp, .srvUrg 'x', .arriveDown, .sigurg, .urg 'x',
      .urg 'x', .urg 'x', .sigalrm, .alrm, .alrm, .alrm, .alrm, .sigalrm, .alrm, .alrm, .alrm, .alrm]
    (fun s => s.log ==
      [.alarm, .heartbeat, .answer, .reply, .alarm, .heartbeat, .alarm, .close, .lost])
    (by decide +kernel)
  exact ⟨s, hs, by simpa using hend, session_replyNotForgotten _ _ hs⟩

end NetProg.HeartbeatSession
