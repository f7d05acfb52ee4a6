/-
# NetProg.Base.EdgeTriggered -- one source of input under edge-triggered notification.

A program that waits for input at many sources is told of a source once for each edge: the kernel sets
the edge when something arrives and clears it when it reports the source.  From then on the source is in
the program's hand, until the program lets go of it.

A wake-up is lost when input is queued at a source that is neither flagged nor in hand: nobody will look
there again.  `Source.Move` is the discipline that rules it out.  It says what the kernel may do to a
source at any time, and what the program may do to one that it has in hand; the clause that matters is
`leave`: the program lets go only when it found nothing left, or when the edge is set again.

A source that is stranded can only be helped from outside (`Move.stranded`).
-/
import NetProg.Base.System

namespace NetProg

/-- Whether input is queued at a source, whether its edge is set, whether the program has it in hand. -/
structure Source where
  unread : Bool
  edge : Bool
  held : Bool
  deriving DecidableEq, Repr

namespace Source

/-- What one step may do to a source. -/
inductive Move (a b : Source) : Prop where
  /-- Something arrived, or the kernel has another reason to report the source. -/
  | flag (edge : b.edge = true) (held : b.held = a.held)
  /-- Nothing arrived; input that was not taken yet may be withdrawn. -/
  | lose (unread : b.unread = true → a.unread = true) (edge : b.edge = a.edge) (held : b.held = a.held)
  /-- The kernel reports the source. -/
  | report (was : a.edge = true) (unread : b.unread = a.unread) (held : b.held = true)
  /-- A source that was not there before comes into the program's hand. -/
  | appear (was : a.unread = false) (held : b.held = true)
  /-- Input comes and goes while the program has the source in hand. -/
  | take (was : a.held = true) (edge : b.edge = a.edge) (held : b.held = true)
  /-- The program registers the source; the kernel sets the edge if input is queued there. -/
  | watch (was : a.held = true) (unread : b.unread = a.unread) (edge : b.edge = a.unread)
  /-- The program lets go of a source that is drained, or flagged again. -/
  | leave (was : a.held = true) (drained : a.unread = true → a.edge = true)
      (unread : b.unread = a.unread) (edge : b.edge = a.edge)
  /-- The program closes the source. -/
  | gone (was : a.held = true) (unread : b.unread = false)

/-- No wake-up is lost: input that is queued is in hand or will be reported. -/
def Awake (a : Source) : Prop := a.unread = true → a.edge = true ∨ a.held = true

/-- Input is queued, and nobody will look at it. -/
def Stranded (a : Source) : Prop := a.unread = true ∧ a.edge = false ∧ a.held = false

variable {a b : Source}

theorem Move.refl (a : Source) : Move a a := .lose id rfl rfl

theorem Move.of_eq (h : b = a) : Move a b := h ▸ Move.refl a

/-- **One move loses no wake-up.** -/
theorem Move.awake (h : Move a b) (ha : a.Awake) : b.Awake := by
  intro hunread
  cases h with
  | flag edge held => exact .inl edge
  | lose unread edge held =>
    rw [edge, held]
    exact ha (unread hunread)
  | report was unread held => exact .inr held
  | appear was held => exact .inr held
  | take was edge held => exact .inr held
  | watch was unread edge => exact .inl (edge.trans (unread.symm.trans hunread))
  | leave was drained unread edge => exact .inl (edge.trans (drained (unread.symm.trans hunread)))
  | gone was unread => exact absurd hunread (by simp [unread])

/-- What is queued at a source that is not in hand will be reported. -/
theorem Awake.edge (h : a.Awake) (hunread : a.unread = true) (hheld : a.held = false) :
    a.edge = true := by
  rcases h hunread with hedge | hin
  · exact hedge
  · exact absurd hin (by simp [hheld])

/-- **The program cannot help a stranded source**: the source stays stranded, unless the kernel flags it
or its input is withdrawn. -/
theorem Move.stranded (h : Move a b) (ha : a.Stranded) :
    b.Stranded ∨ b.edge = true ∨ b.unread = false := by
  obtain ⟨hunread, hedge, hheld⟩ := ha
  have hfree : ¬ a.held = true := by simp [hheld]
  cases h with
  | flag edge held => exact .inr (.inl edge)
  | lose unread edge held =>
    cases hb : b.unread with
    | false => exact .inr (.inr rfl)
    | true => exact .inl ⟨hb, edge.trans hedge, held.trans hheld⟩
  | report was unread held => exact absurd was (by simp [hedge])
  | appear was held => exact absurd hunread (by simp [was])
  | take was edge held => exact absurd was hfree
  | watch was unread edge => exact absurd was hfree
  | leave was drained unread edge => exact absurd was hfree
  | gone was unread => exact absurd was hfree

end Source

section Systems

variable {S E : Type*} (sys : System S E)

/-- **The wake-up rule.** Where every step moves a source by the discipline, no run loses a wake-up. -/
theorem System.awake (view : S → Source) (hinit : (view sys.init).Awake)
    (hmove : ∀ s e s', sys.Reachable s → sys.step s e = some s' → (view s).Move (view s'))
    {s : S} (h : sys.Reachable s) : (view s).Awake := by
  refine sys.invariant (P := fun s => (view s).Awake) hinit ?_ h
  intro s e s' hreach hawake hstep
  exact (hmove s e s' hreach hstep).awake hawake

end Systems

end NetProg
