/-
# NetProg.Relay.ForkStrCli -- the two processes of `fork_str_cli` in `C/nonblock_stream_client.c`.

The parent copies stdin to the socket line by line, shuts its write side down and pauses.  The child reads what
the server sends and writes it to stdout.  The two share the socket, and nothing else but a signal: after each
read that returned data the child sends SIGTERM to the parent, which may take effect at any time from then on.
The socket blocks, so a write puts the whole line, or raises SIGPIPE when the server has closed.

A parent that is never signalled writes all of stdin, and shuts down after it (`sent`).  One that is signalled
may be terminated at once, with whatever it has not written.  What the child writes to stdout, from a buffer
without a terminating NUL, is left out.  `fork` is taken to succeed.
-/
import NetProg.Base.CString
import NetProg.Base.Stdio
import NetProg.Base.System
import NetProg.Relay.StrCli

namespace NetProg.ForkStrCli

open Relay (maxSize)

/-- The parent is at `fgets`, at `write` with a line, at `shutdown`, at `pause`, or was terminated, by SIGTERM
or by SIGPIPE. -/
inductive ParentPc where
  | fgets
  | write (sendline : List UInt8)
  | shutdown
  | pause
  | sigterm
  | sigpipe
  deriving DecidableEq, Repr

/-- The child is at `read`, at `kill`, at `fputs`, or has exited: at the end of the server's stream, or because
`read` failed. -/
inductive ChildPc where
  | read
  | kill
  | fputs
  | success
  | failure
  deriving DecidableEq, Repr

/-- Both processes and the socket: what is left of stdin, whether a SIGTERM is pending, what was written to the
server and whether the write side is shut, what has arrived from the server and whether it has closed. -/
structure Session where
  input : List UInt8
  parent : ParentPc
  child : ChildPc
  pending : Bool
  written : List UInt8
  shut : Bool
  arrived : List UInt8
  closed : Bool
  deriving DecidableEq, Repr

/-- A call of the parent; SIGTERM or SIGPIPE takes effect; a call of the child and its result; or what the
server does. -/
inductive Ev where
  | fgets
  | write
  | shutdown
  | sigterm
  | sigpipe
  | read (n : ℕ)
  | eof
  | eintr
  | readFails
  | kill
  | fputs
  | serverSend (bytes : List UInt8)
  | serverClose
  deriving DecidableEq, Repr

/-- The parent runs. -/
def ParentPc.alive : ParentPc → Bool
  | sigterm | sigpipe => false
  | _ => true

namespace Session

def start (text : List UInt8) : Session := ⟨text, .fgets, .read, false, [], false, [], false⟩

/-- `fgets(sendline, sizeof(sendline), stdin)`; it returns NULL at the end of the input. -/
def getLine (s : Session) : Session :=
  match s.input with
  | [] => { s with parent := .shutdown }
  | input => { s with parent := .write (fgets (maxSize - 1) input).1, input := (fgets (maxSize - 1) input).2 }

/-- `write(sockfd, sendline, strlen(sendline))`. -/
def writeLine (s : Session) (sendline : List UInt8) : Session :=
  { s with parent := .fgets, written := s.written ++ untilNul sendline }

/-- `kill(getppid(), SIGTERM)`; without a parent the signal goes to another process. -/
def killParent (s : Session) : Session := { s with child := .fputs, pending := s.pending || s.parent.alive }

def step (s : Session) : Ev → Option Session
  | .fgets => if s.parent = .fgets then some s.getLine else none
  | .write =>
    match s.parent with
    | .write sendline => some (s.writeLine sendline)
    | _ => none
  | .shutdown => if s.parent = .shutdown then some { s with parent := .pause, shut := true } else none
  | .sigterm =>
    if s.pending = true ∧ s.parent.alive = true then some { s with parent := .sigterm } else none
  | .sigpipe =>
    match s.parent with
    | .write _ => if s.closed = true then some { s with parent := .sigpipe } else none
    | _ => none
  | .read n =>
    if s.child = .read ∧ 0 < n ∧ n ≤ maxSize ∧ n ≤ s.arrived.length then
      some { s with child := .kill, arrived := s.arrived.drop n }
    else none
  | .eof =>
    if s.child = .read ∧ s.arrived = [] ∧ s.closed = true then some { s with child := .success } else none
  | .eintr => if s.child = .read then some s else none
  | .readFails => if s.child = .read then some { s with child := .failure } else none
  | .kill => if s.child = .kill then some s.killParent else none
  | .fputs => if s.child = .fputs then some { s with child := .read } else none
  | .serverSend bytes =>
    if s.closed = false then some { s with arrived := s.arrived ++ bytes } else none
  | .serverClose => some { s with closed := true }

end Session

def client (text : List UInt8) : System Session Ev := ⟨Session.start text, Session.step⟩

/-! ## What the parent sends -/

/-- The line that the parent is about to write. -/
def ParentPc.line : ParentPc → List UInt8
  | write sendline => sendline
  | _ => []

/-- While the parent runs, what was written and what is left of stdin are the text, and nothing is left when it
shuts the write side down. -/
structure Sent (text : List UInt8) (s : Session) : Prop where
  all : s.parent.alive = true → s.written ++ (s.parent.line ++ s.input) = text
  ended : s.parent = .shutdown → s.input = []
  paused : s.parent = .pause → s.shut = true
  shut : s.shut = true → s.written = text

/-- The calls of the parent itself. -/
def Ev.ofParent : Ev → Bool
  | fgets | write | shutdown => true
  | _ => false

/-- The other events leave what the parent does as it is, or terminate it. -/
def SameParent (s s' : Session) : Prop :=
  s'.input = s.input ∧ s'.written = s.written ∧ s'.shut = s.shut ∧
    (s'.parent = s.parent ∨ s'.parent.alive = false)

variable {text : List UInt8} {s s' : Session}

theorem sameParent {e : Ev} (hother : e.ofParent = false) (hstep : s.step e = some s') : SameParent s s' := by
  cases e with
  | fgets => cases hother
  | write => cases hother
  | shutdown => cases hother
  | sigterm =>
    simp only [Session.step] at hstep
    split_ifs at hstep
    cases hstep
    exact ⟨rfl, rfl, rfl, .inr rfl⟩
  | sigpipe =>
    simp only [Session.step] at hstep
    split at hstep
    · split_ifs at hstep
      cases hstep
      exact ⟨rfl, rfl, rfl, .inr rfl⟩
    · cases hstep
  | serverClose =>
    cases hstep
    exact ⟨rfl, rfl, rfl, .inl rfl⟩
  | _ =>
    simp only [Session.step] at hstep
    split_ifs at hstep
    cases hstep
    exact ⟨rfl, rfl, rfl, .inl rfl⟩

/-- What the calls of the parent do. -/
theorem parent_cases {e : Ev} (hparent : e.ofParent = true) (hstep : s.step e = some s') :
    s.parent = .fgets ∧ s' = s.getLine ∨
    (∃ sendline, s.parent = .write sendline ∧ s' = s.writeLine sendline) ∨
    s.parent = .shutdown ∧ s' = { s with parent := .pause, shut := true } := by
  cases e with
  | fgets =>
    simp only [Session.step] at hstep
    split_ifs at hstep with hpc
    cases hstep
    exact .inl ⟨hpc, rfl⟩
  | write =>
    simp only [Session.step] at hstep
    split at hstep
    · next sendline hpc =>
      cases hstep
      exact .inr (.inl ⟨sendline, hpc, rfl⟩)
    · cases hstep
  | shutdown =>
    simp only [Session.step] at hstep
    split_ifs at hstep with hpc
    cases hstep
    exact .inr (.inr ⟨hpc, rfl⟩)
  | _ => cases hparent

/-- `fgets` is at the end of stdin, or stores a line of it. -/
theorem getLine_cases (s : Session) :
    s.input = [] ∧ s.getLine = { s with parent := .shutdown } ∨
    ∃ sendline rest, sendline ≠ [] ∧ s.input = sendline ++ rest ∧
      s.getLine = { s with parent := .write sendline, input := rest } := by
  unfold Session.getLine
  split
  · next hinput => exact .inl ⟨hinput, rfl⟩
  · next hne =>
    exact .inr ⟨_, _, fgets_ne_nil (by decide) hne, (fgets_append (maxSize - 1) s.input).symm, rfl⟩

theorem Sent.start (text : List UInt8) : Sent text (Session.start text) where
  all _ := rfl
  ended := by rintro ⟨⟩
  paused := by rintro ⟨⟩
  shut := by rintro ⟨⟩

theorem Sent.of_sameParent (h : Sent text s) (hsame : SameParent s s') : Sent text s' := by
  obtain ⟨hinput, hwritten, hshut, hparent | hdead⟩ := hsame
  · constructor
    · rw [hinput, hwritten, hparent]
      exact h.all
    · rw [hinput, hparent]
      exact h.ended
    · rw [hshut, hparent]
      exact h.paused
    · rw [hshut, hwritten]
      exact h.shut
  · constructor
    · intro halive
      rw [hdead] at halive
      cases halive
    · intro hpc
      rw [hpc] at hdead
      cases hdead
    · intro hpc
      rw [hpc] at hdead
      cases hdead
    · rw [hshut, hwritten]
      exact h.shut

theorem Sent.getLine (h : Sent text s) (hpc : s.parent = .fgets) : Sent text s.getLine := by
  have hall := h.all
  rw [hpc] at hall
  have hall : s.written ++ s.input = text := hall rfl
  rcases getLine_cases s with ⟨hinput, hget⟩ | ⟨sendline, rest, -, hinput, hget⟩
  · rw [hget]
    exact ⟨fun _ => hall, fun _ => hinput, by rintro ⟨⟩, h.shut⟩
  · rw [hget]
    refine ⟨fun _ => ?_, by rintro ⟨⟩, by rintro ⟨⟩, h.shut⟩
    show s.written ++ (sendline ++ rest) = text
    rw [← hinput]
    exact hall

theorem Sent.writeLine (h : Sent text s) (htext : (0 : UInt8) ∉ text) {sendline : List UInt8}
    (hpc : s.parent = .write sendline) : Sent text (s.writeLine sendline) := by
  have hall := h.all
  rw [hpc] at hall
  have hall : s.written ++ (sendline ++ s.input) = text := hall rfl
  have hline : untilNul sendline = sendline := by
    apply untilNul_of_not_mem
    intro hin
    apply htext
    rw [← hall]
    exact List.mem_append_right _ (List.mem_append_left _ hin)
  refine ⟨fun _ => ?_, by rintro ⟨⟩, by rintro ⟨⟩, ?_⟩
  · show s.written ++ untilNul sendline ++ s.input = text
    rw [hline, List.append_assoc]
    exact hall
  · -- a shut write side leaves nothing to write
    intro hshut
    have hnil : s.written = s.written ++ (sendline ++ s.input) := (h.shut hshut).trans hall.symm
    rw [List.self_eq_append_right, List.append_eq_nil_iff] at hnil
    show s.written ++ untilNul sendline = text
    rw [hline, hnil.1, List.append_nil]
    exact h.shut hshut

theorem Sent.shutdown (h : Sent text s) (hpc : s.parent = .shutdown) :
    Sent text { s with parent := .pause, shut := true } := by
  have hall := h.all
  rw [hpc, h.ended hpc] at hall
  have hwritten : s.written = text := by simpa [ParentPc.line] using hall rfl
  refine ⟨fun _ => ?_, by rintro ⟨⟩, fun _ => rfl, fun _ => hwritten⟩
  show s.written ++ s.input = text
  rw [h.ended hpc, List.append_nil]
  exact hwritten

/-- **Every step keeps the text.** -/
theorem Sent.step (h : Sent text s) (htext : (0 : UInt8) ∉ text) {e : Ev} (hstep : s.step e = some s') :
    Sent text s' := by
  cases hparent : e.ofParent with
  | false => exact h.of_sameParent (sameParent hparent hstep)
  | true =>
    rcases parent_cases hparent hstep with ⟨hpc, rfl⟩ | ⟨sendline, hpc, rfl⟩ | ⟨hpc, rfl⟩
    · exact h.getLine hpc
    · exact h.writeLine htext hpc
    · exact h.shutdown hpc

theorem sent (htext : (0 : UInt8) ∉ text) (h : (client text).Reachable s) : Sent text s := by
  refine (client text).invariant (P := Sent text) (.start text) ?_ h
  intro s e s' _ hs hstep
  exact hs.step htext hstep

/-! ## How long the parent runs -/

/-- How many calls the parent has still to make, at most: two for each byte of stdin, and the last two. -/
def work (s : Session) : ℕ :=
  match s.parent with
  | .fgets => 2 * s.input.length + 2
  | .write _ => 2 * s.input.length + 3
  | .shutdown => 1
  | _ => 0

theorem work_getLine (hpc : s.parent = .fgets) : work s.getLine < work s := by
  have hwork : work s = 2 * s.input.length + 2 := by simp only [work, hpc]
  rw [hwork]
  rcases getLine_cases s with ⟨-, hget⟩ | ⟨sendline, rest, hsome, hinput, hget⟩
  · rw [hget]
    show 1 < 2 * s.input.length + 2
    omega
  · have hpos := List.length_pos_iff.mpr hsome
    rw [hget, hinput, List.length_append]
    show 2 * rest.length + 3 < 2 * (sendline.length + rest.length) + 2
    omega

theorem work_of_dead (hdead : s.parent.alive = false) : work s = 0 := by
  unfold work
  cases hpc : s.parent with
  | pause => rfl
  | sigterm => rfl
  | sigpipe => rfl
  | _ =>
    rw [hpc] at hdead
    cases hdead

theorem work_pos (halive : s.parent.alive = true) (hpause : s.parent ≠ .pause) : 0 < work s := by
  unfold work
  cases hpc : s.parent with
  | fgets => exact Nat.succ_pos _
  | write sendline => exact Nat.succ_pos _
  | shutdown => exact Nat.one_pos
  | pause => exact absurd hpc hpause
  | _ =>
    rw [hpc] at halive
    cases halive

theorem work_of_sameParent (h : SameParent s s') : work s' ≤ work s := by
  obtain ⟨hinput, -, -, hparent | hdead⟩ := h
  · unfold work
    rw [hinput, hparent]
  · rw [work_of_dead hdead]
    exact Nat.zero_le _

theorem work_step {e : Ev} (hstep : s.step e = some s') :
    work s' + (if e.ofParent then 1 else 0) ≤ work s := by
  cases hparent : e.ofParent with
  | false => exact work_of_sameParent (sameParent hparent hstep)
  | true =>
    rcases parent_cases hparent hstep with ⟨hpc, rfl⟩ | ⟨sendline, hpc, rfl⟩ | ⟨hpc, rfl⟩
    · exact work_getLine hpc
    · simp [work, Session.writeLine, hpc]
    · simp [work, hpc]

/-- Each call of the parent is one of those that it had to make. -/
theorem work_run (es : List Ev) (h : (client text).runFrom s es = some s') :
    work s' + es.countP Ev.ofParent ≤ work s := by
  induction es generalizing s with
  | nil =>
    cases h
    exact Nat.le_refl _
  | cons e es ih =>
    simp only [System.runFrom] at h
    split at h
    · next t hstep =>
      have hfirst := work_step hstep
      have hrest := ih h
      rw [List.countP_cons]
      omega
    · cases h

/-- A parent that runs and has not come to `pause` can make its next call. -/
theorem parent_enabled (halive : s.parent.alive = true) (hpause : s.parent ≠ .pause) :
    ∃ e, e.ofParent = true ∧ (s.step e).isSome = true := by
  cases hpc : s.parent with
  | fgets => exact ⟨.fgets, rfl, by simp [Session.step, hpc]⟩
  | write sendline => exact ⟨.write, rfl, by simp [Session.step, hpc]⟩
  | shutdown => exact ⟨.shutdown, rfl, by simp [Session.step, hpc]⟩
  | pause => exact absurd hpc hpause
  | sigterm =>
    rw [hpc] at halive
    cases halive
  | sigpipe =>
    rw [hpc] at halive
    cases halive

/-! ## The signal -/

/-- The child does not read data while the parent runs. -/
def Quiet (s : Session) (e : Ev) : Prop :=
  match e with
  | .read _ => s.parent.alive = false
  | _ => True

instance (s : Session) (e : Ev) : Decidable (Quiet s e) := by
  unfold Quiet
  split <;> infer_instance

/-- No SIGTERM was sent or is about to be, and SIGPIPE only comes when the server has closed. -/
structure Undisturbed (s : Session) : Prop where
  child : s.parent.alive = true → s.child ≠ .kill
  pending : s.pending = false
  sigterm : s.parent ≠ .sigterm
  sigpipe : s.parent = .sigpipe → s.closed = true

theorem Undisturbed.start (text : List UInt8) : Undisturbed (Session.start text) where
  child _ := by rintro ⟨⟩
  pending := rfl
  sigterm := by rintro ⟨⟩
  sigpipe := by rintro ⟨⟩

/-- A call of the parent does not disturb it. -/
theorem Undisturbed.of_parent (h : Undisturbed s) {e : Ev} (hparent : e.ofParent = true)
    (hstep : s.step e = some s') : Undisturbed s' := by
  rcases parent_cases hparent hstep with ⟨hpc, rfl⟩ | ⟨sendline, hpc, rfl⟩ | ⟨hpc, rfl⟩
  all_goals
    have hchild := h.child
    rw [hpc] at hchild
  · rcases getLine_cases s with ⟨-, hget⟩ | ⟨sendline, rest, -, -, hget⟩
    all_goals
      rw [hget]
      exact ⟨fun _ => hchild rfl, h.pending, by rintro ⟨⟩, by rintro ⟨⟩⟩
  · exact ⟨fun _ => hchild rfl, h.pending, by rintro ⟨⟩, by rintro ⟨⟩⟩
  · exact ⟨fun _ => hchild rfl, h.pending, by rintro ⟨⟩, by rintro ⟨⟩⟩

/-- The child, or the server, while nothing is sent to the parent. -/
theorem Undisturbed.of_child (h : Undisturbed s) (hparent : s'.parent = s.parent)
    (hchild : s.parent.alive = true → s'.child ≠ .kill) (hpending : s'.pending = s.pending)
    (hclosed : s.closed = true → s'.closed = true) : Undisturbed s' where
  child := by
    rw [hparent]
    exact hchild
  pending := hpending ▸ h.pending
  sigterm := by
    rw [hparent]
    exact h.sigterm
  sigpipe := by
    rw [hparent]
    exact fun hpc => hclosed (h.sigpipe hpc)

theorem Undisturbed.step (h : Undisturbed s) {e : Ev} (hquiet : Quiet s e) (hstep : s.step e = some s') :
    Undisturbed s' := by
  cases e with
  | fgets => exact h.of_parent rfl hstep
  | write => exact h.of_parent rfl hstep
  | shutdown => exact h.of_parent rfl hstep
  | sigterm =>
    simp only [Session.step] at hstep
    split_ifs at hstep with hsent
    have hpending := h.pending
    rw [hsent.1] at hpending
    cases hpending
  | sigpipe =>
    simp only [Session.step] at hstep
    split at hstep
    · split_ifs at hstep with hclosed
      cases hstep
      exact ⟨by rintro ⟨⟩, h.pending, by rintro ⟨⟩, fun _ => hclosed⟩
    · cases hstep
  | read n =>
    simp only [Session.step] at hstep
    split_ifs at hstep
    cases hstep
    have hdead : s.parent.alive = false := hquiet
    refine h.of_child rfl (fun halive => ?_) rfl id
    rw [hdead] at halive
    cases halive
  | kill =>
    simp only [Session.step] at hstep
    split_ifs at hstep with hpc
    cases hstep
    have hdead : s.parent.alive = false := by
      rw [← Bool.not_eq_true]
      exact fun halive => h.child halive hpc
    refine h.of_child rfl (fun _ => by rintro ⟨⟩) ?_ id
    show (s.pending || s.parent.alive) = s.pending
    rw [hdead, Bool.or_false]
  | serverClose =>
    cases hstep
    exact h.of_child rfl h.child rfl fun _ => rfl
  | eintr =>
    simp only [Session.step] at hstep
    split_ifs at hstep
    cases hstep
    exact h
  | serverSend bytes =>
    simp only [Session.step] at hstep
    split_ifs at hstep
    cases hstep
    exact h.of_child rfl h.child rfl id
  | _ =>
    simp only [Session.step] at hstep
    split_ifs at hstep
    cases hstep
    exact h.of_child rfl (fun _ => by rintro ⟨⟩) rfl id

theorem undisturbed (h : ((client text).restrict Quiet).Reachable s) : Undisturbed s := by
  refine (client text).restrict_invariant (.start text) ?_ h
  intro s e s' _ hs hquiet hstep
  exact hs.step hquiet hstep

/-- A parent that was terminated writes nothing more. -/
theorem dead_step (hdead : s.parent.alive = false) {e : Ev} (hstep : s.step e = some s') :
    s'.parent.alive = false ∧ s'.written = s.written := by
  cases hother : e.ofParent with
  | false =>
    obtain ⟨-, hwritten, -, hparent | hdead'⟩ := sameParent hother hstep
    · rw [hparent]
      exact ⟨hdead, hwritten⟩
    · exact ⟨hdead', hwritten⟩
  | true =>
    -- it has no call to make
    have hone := work_step hstep
    rw [if_pos hother, work_of_dead hdead] at hone
    omega

theorem dead_run (hdead : s.parent.alive = false) (es : List Ev) (h : (client text).runFrom s es = some s') :
    s'.written = s.written := by
  have hboth : s'.parent.alive = false ∧ s'.written = s.written := by
    refine (client text).runFrom_induction (P := fun t => t.parent.alive = false ∧ t.written = s.written)
      es ?_ ⟨hdead, rfl⟩ h
    intro t e t' _ ht hstep
    obtain ⟨hdead', hwritten⟩ := dead_step ht.1 hstep
    exact ⟨hdead', hwritten.trans ht.2⟩
  exact hboth.2

/-- Only what stands before a NUL is written. -/
theorem not_mem_written (h : (client text).Reachable s) : (0 : UInt8) ∉ s.written := by
  refine (client text).invariant (P := fun s => (0 : UInt8) ∉ s.written) List.not_mem_nil ?_ h
  intro s e s' _ hs hstep
  cases hparent : e.ofParent with
  | false =>
    rw [(sameParent hparent hstep).2.1]
    exact hs
  | true =>
    rcases parent_cases hparent hstep with ⟨-, rfl⟩ | ⟨sendline, -, rfl⟩ | ⟨-, rfl⟩
    · rcases getLine_cases s with ⟨-, hget⟩ | ⟨sendline, rest, -, -, hget⟩
      all_goals
        rw [hget]
        exact hs
    · show (0 : UInt8) ∉ s.written ++ untilNul sendline
      rw [List.mem_append, not_or]
      exact ⟨hs, not_mem_untilNul sendline⟩
    · exact hs

/-- A read that returns data can be followed by the signal, and that by the end of the parent. -/
theorem terminated_of_read (text : List UInt8) {e : Ev} (hnot : ¬ Quiet s e) (hstep : s.step e = some s') :
    ∃ t, (client text).runFrom s' [.kill, .sigterm] = some t ∧ t.parent = .sigterm ∧ t.child = .fputs ∧
      t.written = s.written ∧ t.closed = s.closed := by
  cases e with
  | read n =>
    have halive : s.parent.alive = true := by
      have hnot : ¬ s.parent.alive = false := hnot
      rwa [Bool.not_eq_false] at hnot
    simp only [Session.step] at hstep
    split_ifs at hstep
    cases hstep
    refine ⟨{ s with
      child := .fputs, pending := s.pending || s.parent.alive, parent := .sigterm,
      arrived := s.arrived.drop n }, ?_, rfl, rfl, rfl, rfl⟩
    simp [System.runFrom, client, Session.step, Session.killParent, halive]
  | _ => exact absurd trivial hnot

/-- **As long as the child reads no data, the parent is not terminated while the server keeps the connection
open, and writes all of a text without NUL and then shuts its write side down**: it is done, or it can make a
next call, of which there are only so many.  A read that returns data while the parent runs can end it there,
with what it has not written lost; and a text with a NUL is never written. -/
theorem input_sent (text : List UInt8) :
    ((0 : UInt8) ∉ text → ∀ es s, ((client text).restrict Quiet).runFrom (Session.start text) es = some s →
      (s.parent = .sigterm → s.child = .success) ∧
      (s.closed = false →
        s.parent = .pause ∧ s.written = text ∧ s.shut = true ∨
        es.countP Ev.ofParent < 2 * text.length + 2 ∧ ∃ e, e.ofParent = true ∧ (s.step e).isSome = true)) ∧
    (∀ s e s', (client text).Reachable s → ¬ Quiet s e → (client text).step s e = some s' →
      ∃ es t, (client text).runFrom s' es = some t ∧ t.parent = .sigterm ∧ t.child ≠ .success ∧
        t.closed = s.closed ∧ ∀ es' u, (client text).runFrom t es' = some u → u.written = s.written) ∧
    ((0 : UInt8) ∈ text → ∀ s, (client text).Reachable s → s.written ≠ text) := by
  refine ⟨?_, ?_, ?_⟩
  · intro htext es s hrun
    have hreach := ((client text).restrict Quiet).reachable_of_run es hrun
    have hquiet := undisturbed hreach
    have hsent := sent htext ((client text).reachable_of_restrict hreach)
    refine ⟨fun hdead => absurd hdead hquiet.sigterm, fun hopen => ?_⟩
    have halive : s.parent.alive = true := by
      cases hpc : s.parent with
      | sigterm => exact absurd hpc hquiet.sigterm
      | sigpipe =>
        have hclosed := hquiet.sigpipe hpc
        rw [hopen] at hclosed
        cases hclosed
      | _ => rfl
    by_cases hpause : s.parent = .pause
    · have hshut := hsent.paused hpause
      exact .inl ⟨hpause, hsent.shut hshut, hshut⟩
    · right
      refine ⟨?_, parent_enabled halive hpause⟩
      have hleft := work_pos halive hpause
      have hdone : work s + es.countP Ev.ofParent ≤ 2 * text.length + 2 :=
        work_run es ((client text).runFrom_of_restrict es hrun)
      omega
  · intro s e s' _ hnot hstep
    obtain ⟨t, hrun, hdead, hchild, hwritten, hclosed⟩ := terminated_of_read text hnot hstep
    refine ⟨_, t, hrun, hdead, ?_, hclosed, fun es u hrun => ?_⟩
    · rw [hchild]
      exact ChildPc.noConfusion
    · have hdead : t.parent.alive = false := by
        rw [hdead]
        rfl
      exact (dead_run hdead es hrun).trans hwritten
  · intro hnul s hreach heq
    apply not_mem_written hreach
    rwa [heq]

/-- Two lines that are sent; the same with an echo that is read after the first; and a NUL. -/
theorem input_sent_two :
    (∃ s : Session, s.written = [97, 10, 98, 10] ∧ s.shut = true) ∧
    (∃ t, (client [97, 10, 98, 10]).Reachable t ∧ t.parent = .sigterm ∧ t.closed = false) ∧
    ∀ s, (client [0]).Reachable s → s.written ≠ [0] := by
  refine ⟨?_, ?_, (input_sent [0]).2.2 (by decide)⟩
  · let s : Session := ⟨[], .pause, .read, false, [97, 10, 98, 10], true, [], false⟩
    have hrun : ((client [97, 10, 98, 10]).restrict Quiet).runFrom (Session.start [97, 10, 98, 10])
        [.fgets, .write, .fgets, .write, .fgets, .shutdown] = some s := by decide
    have hdone := ((input_sent [97, 10, 98, 10]).1 (by decide) _ s hrun).2 rfl
    have hnone : ¬ ∃ e, Ev.ofParent e = true ∧ (s.step e).isSome = true := by
      rintro ⟨e, he, hstep⟩
      cases e with
      | fgets => cases hstep
      | write => cases hstep
      | shutdown => cases hstep
      | _ => cases he
    exact ⟨s, (hdone.resolve_right fun hmore => hnone hmore.2).2⟩
  · let s : Session := ⟨[98, 10], .fgets, .read, false, [97, 10], false, [97, 10], false⟩
    let s' : Session := ⟨[98, 10], .fgets, .kill, false, [97, 10], false, [], false⟩
    have hs : (client [97, 10, 98, 10]).Reachable s :=
      (client [97, 10, 98, 10]).reachable_of_run [.fgets, .write, .serverSend [97, 10]] (by decide)
    have hstep : (client [97, 10, 98, 10]).step s (.read 2) = some s' := by decide
    obtain ⟨es, t, hrun, hdead, -, hclosed, -⟩ :=
      (input_sent [97, 10, 98, 10]).2.1 s (.read 2) s' hs (by decide) hstep
    exact ⟨t, (client [97, 10, 98, 10]).reachable_of_runFrom (.step _ hs hstep) es hrun, hdead, hclosed⟩

/-- **The second line is lost**: the echo of the first one ends the parent, with the connection open. -/
theorem tail_lost : ∃ s, (client [97, 10, 98, 10]).Reachable s ∧ s.parent = .sigterm ∧ s.child = .read ∧
    s.closed = false ∧ s.written = [97, 10] := by
  obtain ⟨s, hreach, hs⟩ := (client [97, 10, 98, 10]).exists_reachable_of_run
    [.fgets, .write, .serverSend [97, 10], .read 2, .kill, .sigterm, .fputs]
    (fun s => s.parent = .sigterm ∧ s.child = .read ∧ s.closed = false ∧ s.written = [97, 10]) (by decide)
  rw [decide_eq_true_iff] at hs
  exact ⟨s, hreach, hs⟩

end NetProg.ForkStrCli
