/-
# NetProg.Heartbeat.ClientClose -- when the client's alarm closes only connections that did not answer.

The handler for SIGALRM takes `got_reply == 0` to mean that its last heartbeat was not answered.  The
main loop also clears `got_reply`, at the end of a session, and sets it again only when the next session
starts; the alarm stays armed all the while, and `socket` comes in between.  So an alarm can close a
socket on which nothing was ever sent.  The same happens, within a session, when the reply comes between
two statements of a handler, or when another byte than `'s'` arrives; and a heartbeat that the handler sends on a
`conn_fd` that is closed already, or not connected yet, does not go out.  `Timely` names the steps to avoid;
without them every close by the alarm is right.  It looks at the flag, at the position of the main loop
and of the handlers, at `conn_fd`, and at what the flag was when the last session ended.
-/
import Mathlib.Data.List.Induction
import NetProg.Base.EventLog
import NetProg.Heartbeat.Client

namespace NetProg.HeartbeatCli

/-! ## Reading the log -/

/-- Entries that matter for the question whether a heartbeat is unanswered. -/
def LogEv.matters : LogEv → Bool
  | .socket _ | .sent _ | .reply _ => true
  | _ => false

/-- The main loop's `got_reply = 0`. -/
def LogEv.isCleared : LogEv → Bool
  | .cleared _ => true
  | _ => false

/-- On the connection made by the last `socket`, a heartbeat was sent and no reply came since. -/
def unanswered (l : List LogEv) : Bool :=
  match l.reverse.find? LogEv.matters with
  | some (.sent _) => true
  | _ => false

/-- What is asked of every entry: the alarm closes `conn_fd` only when a heartbeat was sent on that
connection and no reply to it was received. -/
def Justified (pre : List LogEv) : LogEv → Prop
  | .alrmClosed _ => unanswered pre = true
  | _ => True

/-- The last session ended with `got_reply == 0`, and since then there was no `socket`, no heartbeat and
no reply. -/
def endedSilent (l : List LogEv) : Bool :=
  match l.reverse.find? fun e => e.matters || e.isCleared with
  | some (.cleared false) => true
  | _ => false

/-- `Justified`, and a session that ends with `got_reply == 0` owes an answer. -/
def Rightful (pre : List LogEv) : LogEv → Prop
  | .alrmClosed _ | .cleared false => unanswered pre = true
  | _ => True

/-- No connection is closed that owes no answer. -/
def NoStaleClose (l : List LogEv) : Prop := Each Justified l

section Log

variable (l : List LogEv)

theorem unanswered_other {e : LogEv} (he : e.matters = false) :
    unanswered (l ++ [e]) = unanswered l := by
  simp [unanswered, he]

@[simp] theorem unanswered_sent (fd : ℤ) : unanswered (l ++ [.sent fd]) = true := by
  rw [unanswered, List.reverse_append]
  rfl

end Log

/-- A session that ended silent left a heartbeat unanswered, and it still is. -/
theorem unanswered_of_endedSilent {l : List LogEv} (hl : Each Rightful l)
    (hended : endedSilent l = true) : unanswered l = true := by
  induction l using List.reverseRecOn with
  | nil => simp [endedSilent] at hended
  | append_singleton l e ih =>
    obtain ⟨hprev, he⟩ := Each.append_singleton.mp hl
    cases e with
    | socket fd => simp [endedSilent, LogEv.matters] at hended
    | sent fd => exact unanswered_sent l fd
    | reply fd => simp [endedSilent, LogEv.matters] at hended
    | cleared gotReply =>
      cases gotReply with
      | false => exact (unanswered_other l rfl).trans he
      | true => simp [endedSilent, LogEv.matters, LogEv.isCleared] at hended
    | alrmClosed fd => exact (unanswered_other l rfl).trans he
    | unsent | mainClosed | lostConnection | notStartUp =>
      rw [unanswered_other l rfl]
      exact ih hprev (by simpa [endedSilent, LogEv.matters, LogEv.isCleared] using hended)

theorem noStaleClose_of_rightful {l : List LogEv} (hl : Each Rightful l) : NoStaleClose l :=
  hl.mono fun pre e he => by
    cases e with
    | alrmClosed fd => exact he
    | socket | sent | unsent | reply | mainClosed | cleared | lostConnection | notStartUp => trivial

/-- If the last thing that happened was a close by the alarm, a heartbeat was unanswered. -/
theorem NoStaleClose.of_last {l : List LogEv} {fd : ℤ} (hl : NoStaleClose l)
    (hlast : l.getLast? = some (.alrmClosed fd)) : unanswered l = true := by
  obtain ⟨pre, rfl⟩ := List.getLast?_eq_some_iff.mp hlast
  rw [unanswered_other pre rfl]
  exact hl pre (.alrmClosed fd) [] rfl

/-! ## The condition and the invariant -/

/-- The main loop is between its `got_reply = 1` and its `got_reply = 0`. -/
def Client.inSession (s : Client) : Bool :=
  s.pc == .recv || s.pc == .closeSession || s.pc == .clearReply

/-- A handler for SIGURG has received a reply and not yet set `got_reply`. -/
def HoldsReply (fs : List Frame) : Prop := .urg (.assign true 's') ∈ fs

/-- The handler for SIGALRM has sent a heartbeat and not yet cleared `got_reply`, or has found it clear
and not yet closed `conn_fd`. -/
def Committed (fs : List Frame) : Prop := .alrm .clear ∈ fs ∨ .alrm .close ∈ fs

instance (fs : List Frame) : Decidable (HoldsReply fs) := inferInstanceAs (Decidable (_ ∈ _))

instance (fs : List Frame) : Decidable (Committed fs) := inferInstanceAs (Decidable (_ ∨ _))

/-- The test of `got_reply` above the frames `fs`: it finds 1; or it finds 0 within a session, and no
reply is being handled below; or it comes after a session that ended with `got_reply == 0`, before
anything else happened to the connection. -/
def TimelyTest (s : Client) (fs : List Frame) : Prop :=
  s.gotReply = true ∨ (s.inSession = true ∧ ¬ HoldsReply fs) ∨ endedSilent s.log = true

instance (s : Client) (fs : List Frame) : Decidable (TimelyTest s fs) :=
  inferInstanceAs (Decidable (_ ∨ (_ ∧ _) ∨ _))

/-- A reply does not come while the handler for SIGALRM below is committed. -/
def TimelyReply (fs : List Frame) (got : Bool) (c : Char) : Prop :=
  got = true ∧ c = 's' → ¬ Committed fs

instance (fs : List Frame) (got : Bool) (c : Char) : Decidable (TimelyReply fs got c) :=
  inferInstanceAs (Decidable (_ → _))

/-- Within a session no other byte than `'s'` clears `got_reply`. -/
def TimelyAssign (s : Client) (c : Char) : Prop :=
  s.inSession = true → c = 's' ∨ s.gotReply = false

instance (s : Client) (c : Char) : Decidable (TimelyAssign s c) := inferInstanceAs (Decidable (_ → _))

/-- The step does not fall into one of the windows. -/
def Timely (s : Client) (e : Ev) : Prop :=
  match e, s.frames with
  | .alrm, .alrm .test :: fs => TimelyTest s fs
  -- the heartbeat goes out
  | .alrm, .alrm .send :: _ => s.connected = true
  | .urg got c, .urg .recv :: fs => TimelyReply fs got c
  | .urg _ _, .urg (.assign _ c) :: _ => TimelyAssign s c
  | _, _ => True

instance (s : Client) (e : Ev) : Decidable (Timely s e) := by
  unfold Timely
  split <;> infer_instance

/-- The invariant of the timely runs. -/
structure CloseInv (s : Client) : Prop where
  session : s.inSession = true → s.gotReply = false →
    unanswered s.log = true ∨ HoldsReply s.frames
  committed : Committed s.frames → unanswered s.log = true
  law : Each Rightful s.log

namespace CloseInv

variable {v : Variant} {s : Client}

theorem start : CloseInv Client.start where
  session := by
    intro hin
    simp [Client.start, Client.inSession] at hin
  committed := by
    intro hc
    simp [Client.start, Committed] at hc
  law := Each.nil

/-- Without active handlers only the session's clause is left. -/
theorem of_no_frames (hframes : s.frames = [])
    (hsession : s.inSession = true → s.gotReply = false → unanswered s.log = true)
    (hlaw : Each Rightful s.log) : CloseInv s where
  session := fun hin hgot => Or.inl (hsession hin hgot)
  committed := by
    intro hc
    simp [hframes, Committed] at hc
  law := hlaw

/-- Outside a session not even that clause is left. -/
theorem outside (hframes : s.frames = []) (hout : s.inSession = false) (hlaw : Each Rightful s.log) :
    CloseInv s := by
  refine of_no_frames hframes ?_ hlaw
  intro hin
  exact absurd (hout.symm.trans hin) (by decide)

theorem countFailed (hs : CloseInv s) (hframes : s.frames = []) : CloseInv (s.countFailed v) := by
  unfold Client.countFailed
  split_ifs
  · exact outside hframes rfl (hs.law.snoc trivial)
  · exact outside hframes rfl hs.law

/-- The main loop moves with no handler active; it enters a session with `got_reply = 1`. -/
theorem mainStep (hs : CloseInv s) (hframes : s.frames = []) (fd : ℤ) (ok : Bool) :
    CloseInv (s.mainStep v fd ok) := by
  have hclean : s.inSession = true → s.gotReply = false → unanswered s.log = true := by
    intro hin hgot
    exact (hs.session hin hgot).resolve_right (by simp [hframes, HoldsReply])
  unfold Client.mainStep
  cases hpc : s.pc with
  | socket => exact outside hframes rfl (hs.law.snoc trivial)
  | connect =>
    refine outside hframes ?_ hs.law
    cases ok <;> rfl
  | closeFailed => exact outside hframes rfl (hs.law.snoc trivial)
  | countFailed => exact hs.countFailed hframes
  | alarm => exact outside hframes rfl hs.law
  | setReply =>
    -- the session starts here, with the flag set
    refine of_no_frames hframes ?_ hs.law
    intro _ hgot
    exact absurd hgot (by simp)
  | recv =>
    refine of_no_frames hframes ?_ hs.law
    intro _ hgot
    exact hclean (by simp [Client.inSession, hpc]) hgot
  | closeSession =>
    refine of_no_frames hframes ?_ (hs.law.snoc trivial)
    intro _ hgot
    have hsame : unanswered (s.log ++ [.mainClosed s.connFd]) = unanswered s.log :=
      unanswered_other s.log rfl
    exact hsame.trans (hclean (by simp [Client.inSession, hpc]) hgot)
  | clearReply =>
    -- the session ends here; if the flag was clear already, a heartbeat is unanswered
    refine outside hframes rfl (hs.law.snoc ?_)
    cases hgot : s.gotReply with
    | false => exact hclean (by simp [Client.inSession, hpc]) hgot
    | true => trivial
  | sleep => exact outside hframes rfl hs.law

/-- Steps of the handlers that leave `got_reply` and the unanswered heartbeat alone, drop no reply and
commit to nothing. -/
theorem congr {s' : Client} (hs : CloseInv s) (hpc : s'.pc = s.pc) (hgot : s'.gotReply = s.gotReply)
    (hun : unanswered s'.log = unanswered s.log) (hholds : HoldsReply s.frames → HoldsReply s'.frames)
    (hcommitted : Committed s'.frames → Committed s.frames) (hlaw : Each Rightful s'.log) :
    CloseInv s' where
  session := by
    intro hin hclear
    rw [hun]
    refine (hs.session ?_ (hgot ▸ hclear)).imp_right hholds
    simpa only [Client.inSession, hpc] using hin
  committed := fun hc => hun ▸ hs.committed (hcommitted hc)
  law := hlaw

/-- The handler for SIGALRM: it commits only when a heartbeat is unanswered. -/
theorem alrmStep (hs : CloseInv s) {pc : AlrmPc} {fs : List Frame}
    (hframes : s.frames = .alrm pc :: fs) (htimely : Timely s .alrm) :
    CloseInv (s.alrmStep fs pc) := by
  have hholds : ∀ pc', HoldsReply s.frames → HoldsReply (.alrm pc' :: fs) := by
    intro pc'
    simp [hframes, HoldsReply]
  have hdrop : HoldsReply s.frames → HoldsReply fs := by simp [hframes, HoldsReply]
  have hbelow : Committed fs → Committed s.frames := by
    rw [hframes]
    exact Or.imp (List.mem_cons_of_mem _) (List.mem_cons_of_mem _)
  cases pc with
  | alarm =>
    refine hs.congr rfl rfl rfl (hholds _) (fun hc => hbelow ?_) hs.law
    simpa [Client.alrmStep, Committed] using hc
  | test =>
    have htest : TimelyTest s fs := by simpa [Timely, hframes] using htimely
    by_cases hgot : s.gotReply = true
    · refine hs.congr rfl rfl rfl (hholds _) (fun hc => hbelow ?_) hs.law
      simpa [Client.alrmStep, hgot, Committed] using hc
    · -- the handler commits to the close: this is the step the condition is about
      have hun : unanswered s.log = true := by
        rcases htest with hone | ⟨hin, hnone⟩ | hended
        · exact absurd hone hgot
        · have hclear : s.gotReply = false := by simpa using hgot
          exact (hs.session hin hclear).resolve_right fun hheld => hnone (hdrop hheld)
        · exact unanswered_of_endedSilent hs.law hended
      exact ⟨fun _ _ => Or.inl hun, fun _ => hun, hs.law⟩
  | send =>
    -- the heartbeat just sent is the unanswered one
    have hconnected : s.connected = true := by simpa [Timely, hframes] using htimely
    have hsend : s.alrmStep fs .send = { s with frames := .alrm .clear :: fs }.logs [.sent s.connFd] := by
      simp [Client.alrmStep, Client.send, hconnected]
    have hun : unanswered (s.log ++ [.sent s.connFd]) = true := unanswered_sent _ _
    rw [hsend]
    exact ⟨fun _ _ => Or.inl hun, fun _ => hun, hs.law.snoc trivial⟩
  | clear =>
    have hun : unanswered s.log = true := hs.committed (by simp [hframes, Committed])
    exact ⟨fun _ _ => Or.inl hun, fun _ => hun, hs.law⟩
  | close =>
    have hun : unanswered s.log = true := hs.committed (by simp [hframes, Committed])
    refine hs.congr rfl rfl (unanswered_other s.log rfl) (hholds _) (fun hc => hbelow ?_)
      (hs.law.snoc hun)
    simpa [Client.alrmStep, Client.logs, Committed] using hc
  | report =>
    unfold Client.alrmStep
    by_cases hreset : s.alreadyReset = true
    · rw [if_pos hreset]
      exact hs.congr rfl rfl rfl hdrop hbelow hs.law
    · rw [if_neg hreset]
      exact hs.congr rfl rfl (unanswered_other s.log rfl) hdrop hbelow (hs.law.snoc trivial)

/-- The handler for SIGURG: a reply is held until `got_reply` is set. -/
theorem urgStep (hs : CloseInv s) {pc : UrgPc} {fs : List Frame} {got : Bool} {c : Char}
    (hframes : s.frames = .urg pc :: fs) (htimely : Timely s (.urg got c)) :
    CloseInv (s.urgStep fs got c pc) := by
  have hbelow : Committed fs → Committed s.frames := by
    rw [hframes]
    exact Or.imp (List.mem_cons_of_mem _) (List.mem_cons_of_mem _)
  cases pc with
  | recv =>
    have hreply : TimelyReply fs got c := by simpa [Timely, hframes] using htimely
    unfold Client.urgStep
    by_cases hgot : got = true ∧ c = 's'
    · -- the reply is logged and held by this frame, and no frame below counts on its absence
      rcases hgot with ⟨rfl, rfl⟩
      refine ⟨fun _ _ => Or.inr List.mem_cons_self, fun hc => absurd ?_ (hreply ⟨rfl, rfl⟩), ?_⟩
      · simpa [Client.logs, Committed] using hc
      · exact hs.law.snoc trivial
    · rw [if_neg hgot]
      refine hs.congr rfl rfl (by simp [Client.logs]) ?_ (fun hc => hbelow ?_) ?_
      · intro hheld
        rw [hframes] at hheld
        exact List.mem_cons_of_mem _ (by simpa [HoldsReply] using hheld)
      · simpa [Client.logs, Committed] using hc
      · simpa [Client.logs] using hs.law
  | assign got' c' =>
    have hassign : TimelyAssign s c' := by simpa [Timely, hframes] using htimely
    refine ⟨fun hin hclear => ?_, fun hc => hs.committed (hbelow ?_), hs.law⟩
    · have hne : c' ≠ 's' := by
        rintro rfl
        simp [Client.urgStep] at hclear
      -- another byte: the flag was 0 before, and the reply that is held, if any, is a deeper one
      apply (hs.session hin ((hassign hin).resolve_left hne)).imp_right
      intro hheld
      rw [hframes] at hheld
      refine List.mem_cons_of_mem _ ((List.mem_cons.mp hheld).resolve_left fun heq => hne ?_)
      simp only [Frame.urg.injEq, UrgPc.assign.injEq] at heq
      exact heq.2.symm
    · simpa [Client.urgStep, Committed] using hc
  | reset =>
    refine hs.congr rfl rfl rfl ?_ hbelow hs.law
    simp [Client.urgStep, hframes, HoldsReply]

/-- **One timely step keeps the invariant.** -/
theorem step {s' : Client} {e : Ev} (hs : CloseInv s) (htimely : Timely s e) (hstep : s.Step v e s') :
    CloseInv s' := by
  cases hstep with
  | main hframes => exact hs.mainStep hframes _ _
  | sigalrm harmed hfree =>
    refine hs.congr rfl rfl rfl (List.mem_cons_of_mem _) ?_ hs.law
    intro hc
    simpa [Committed] using hc
  | sigurg hfree =>
    refine hs.congr rfl rfl rfl (List.mem_cons_of_mem _) ?_ hs.law
    intro hc
    simpa [Committed] using hc
  | alrm hframes => exact hs.alrmStep hframes htimely
  | urg hframes => exact hs.urgStep hframes htimely

end CloseInv

/-! ## The main result -/

/-- **In the timely runs of both programs the alarm closes a connection only when a heartbeat was sent on
it and not answered.** -/
theorem client_noStaleClose (v : Variant) {s : Client} (hs : ((client v).restrict Timely).Reachable s) :
    NoStaleClose s.log := by
  have hinv : CloseInv s := by
    refine (client v).restrict_invariant CloseInv.start ?_ hs
    intro s e s' _ hI htimely hstep
    exact hI.step htimely (client_step_iff.mp hstep)
  exact noStaleClose_of_rightful hinv.law

/-- The test that finds 0 closes `conn_fd` two statements later, wherever the main loop is; that is right
exactly when a heartbeat is unanswered. -/
theorem test_zero_closes {v : Variant} {s : Client} {fs : List Frame}
    (hframes : s.frames = .alrm .test :: fs) (hgot : s.gotReply = false) :
    ∃ s', (client v).runFrom s [.alrm, .alrm] = some s' ∧
      (NoStaleClose s'.log ↔ NoStaleClose s.log ∧ unanswered s.log = true) := by
  have htest : (client v).step s .alrm = some { s with frames := .alrm .close :: fs } := by
    rw [client_step_iff.mpr (.alrm hframes)]
    simp [Client.alrmStep, hgot]
  have hclose : (client v).step { s with frames := .alrm .close :: fs } .alrm =
      some ({ s with connected := false, frames := .alrm .report :: fs }.logs [.alrmClosed s.connFd]) := rfl
  refine ⟨{ s with connected := false, frames := .alrm .report :: fs }.logs [.alrmClosed s.connFd], ?_, ?_⟩
  · simp only [System.runFrom, htest, hclose]
  · exact Each.append_singleton

/-- A session of `k` statements, the next `socket`, and an alarm that the old session left armed. -/
def reconnect (k : ℕ) : List Ev :=
  List.replicate k (.main 4 true) ++ [.main 5 true, .sigalrm, .alrm, .alrm, .alrm]

/-- The alarm of the first session closes the socket just made for the second one. -/
theorem client_closesFreshSocket :
    (∃ s, (client heartbeatCli).Reachable s ∧ s.log.getLast? = some (.alrmClosed 5) ∧
        .sent 5 ∉ s.log ∧ ¬ NoStaleClose s.log) ∧
      (∃ s, (client heartbeatAndroid).Reachable s ∧ s.log.getLast? = some (.alrmClosed 5) ∧
        .sent 5 ∉ s.log ∧ ¬ NoStaleClose s.log) := by
  have key : ∀ v k, ((client v).runFrom (client v).init (reconnect k)).any (fun s =>
        s.log.getLast? == some (.alrmClosed 5) && !s.log.contains (.sent 5) && !unanswered s.log) = true →
      ∃ s, (client v).Reachable s ∧ s.log.getLast? = some (.alrmClosed 5) ∧ .sent 5 ∉ s.log ∧
        ¬ NoStaleClose s.log := by
    intro v k hrun
    obtain ⟨s, hs, hend⟩ := (client v).exists_reachable_of_run _ _ hrun
    simp only [Bool.and_eq_true, Bool.not_eq_true', beq_iff_eq] at hend
    rcases hend with ⟨⟨hlast, hsent⟩, hun⟩
    refine ⟨s, hs, hlast, by simpa using hsent, fun hlaw => ?_⟩
    exact absurd (hun.symm.trans (hlaw.of_last hlast)) (by decide)
  exact ⟨key _ 7 (by decide +kernel), key _ 8 (by decide +kernel)⟩

/-- A heartbeat stays unanswered for one interval, and the alarm closes the connection; it does so once
more in the `sleep` after that session.  Both closes are right. -/
theorem client_noStaleClose_unanswered :
    ∃ s, ((client heartbeatCli).restrict Timely).Reachable s ∧
      s.log.count (.alrmClosed 4) = 2 ∧ s.pc = .sleep ∧ NoStaleClose s.log := by
  obtain ⟨s, hs, hend⟩ := ((client heartbeatCli).restrict Timely).exists_reachable_of_run
    [.main 4 true, .main 4 true, .main 4 true, .main 4 true, .sigalrm, .alrm, .alrm, .alrm, .alrm,
      .sigalrm, .alrm, .alrm, .alrm, .alrm, .main 4 true, .main 4 true, .sigalrm, .alrm, .alrm, .alrm]
    (fun s => s.log.count (.alrmClosed 4) == 2 && s.pc == .sleep) (by decide +kernel)
  simp only [Bool.and_eq_true, beq_iff_eq] at hend
  exact ⟨s, hs, hend.1, hend.2, client_noStaleClose heartbeatCli hs⟩

end NetProg.HeartbeatCli
