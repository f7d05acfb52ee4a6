/-
# NetProg.Base.Urgent -- one direction of a connection, for the bytes sent out of band.

An urgent byte is on the `wire` until it arrives.  It is then the byte at the `mark`, where the receiver
can pick it up, and the receiver is signalled (`pending`).  There is one mark only: an urgent byte that
arrives before the one at the mark was read takes its place, and that one becomes ordinary data
(`stream`).  The rules say that none of this happens as long as one byte is in flight at most.
-/
import Mathlib.Data.List.Basic
import Mathlib.Tactic.Cases

namespace NetProg

/-- The urgent bytes of one direction, oldest first. -/
structure Urgent (α : Type*) where
  wire : List α
  mark : Option α
  pending : Bool
  stream : List α
  deriving DecidableEq, Repr

namespace Urgent

variable {α : Type*}

/-- Nothing was sent yet. -/
def idle : Urgent α where
  wire := []
  mark := none
  pending := false
  stream := []

/-- `send (..., MSG_OOB)` of one byte. -/
def send (l : Urgent α) (a : α) : Urgent α := { l with wire := l.wire ++ [a] }

/-- The oldest byte on the wire arrives. -/
def arrive (l : Urgent α) : Option (Urgent α) :=
  match l.wire with
  | [] => none
  | a :: w => some ⟨w, some a, true, l.stream ++ l.mark.toList⟩

/-- The signal is delivered. -/
def signal (l : Urgent α) : Urgent α := { l with pending := false }

/-- `recv (..., MSG_OOB)` picks up the byte at the mark; the byte is `l.mark`. -/
def take (l : Urgent α) : Urgent α := { l with mark := none }

/-- The receiver closes its end: what has not been read is thrown away. -/
def discard (l : Urgent α) : Urgent α := { l with wire := [], mark := none }

/-- Sent and not yet read, oldest first. -/
def inFlight (l : Urgent α) : List α := l.mark.toList ++ l.wire

@[simp] theorem inFlight_send (l : Urgent α) (a : α) : (l.send a).inFlight = l.inFlight ++ [a] := by
  simp [inFlight, send]

@[simp] theorem inFlight_signal (l : Urgent α) : l.signal.inFlight = l.inFlight := rfl

@[simp] theorem inFlight_discard (l : Urgent α) : l.discard.inFlight = [] := rfl

/-- Reading the byte at the mark takes it out of flight. -/
theorem inFlight_take {l : Urgent α} {a : α} (hmark : l.mark = some a) :
    l.inFlight = a :: l.take.inFlight := by
  simp [inFlight, take, hmark]

/-- With one byte in flight at most, an arrival overwrites nothing: the byte moves from the wire to the
mark. -/
theorem arrive_lone {l l' : Urgent α} (h : l.arrive = some l') (hlone : l.inFlight.length ≤ 1) :
    ∃ a, l.wire = [a] ∧ l.mark = none ∧ l' = ⟨[], some a, true, l.stream⟩ := by
  unfold arrive at h
  cases hwire : l.wire with
  | nil => simp [hwire] at h
  | cons a w =>
    simp only [inFlight, hwire, List.length_append, List.length_cons] at hlone
    have hw : w = [] := List.length_eq_zero_iff.mp (by omega)
    have hmark : l.mark = none := by
      cases hm : l.mark with
      | none => rfl
      | some b =>
        rw [hm, Option.toList_some, List.length_singleton] at hlone
        omega
    refine ⟨a, by rw [hw], hmark, ?_⟩
    simpa [hwire, hmark, hw, eq_comm] using h

/-- Nothing but `a` is in flight, and nothing became ordinary data. -/
structure Only (a : α) (l : Urgent α) : Prop where
  bytes : ∀ b ∈ l.inFlight, b = a
  stream : l.stream = []

namespace Only

variable {a : α} {l l' : Urgent α}

theorem idle : Only a (Urgent.idle : Urgent α) where
  bytes := by simp [inFlight, Urgent.idle]
  stream := rfl

theorem send (h : Only a l) : Only a (l.send a) where
  bytes := by
    intro b hb
    rw [inFlight_send, List.mem_append, List.mem_singleton] at hb
    exact hb.elim (h.bytes b) id
  stream := h.stream

theorem signal (h : Only a l) : Only a l.signal := ⟨h.bytes, h.stream⟩

theorem take (h : Only a l) : Only a l.take where
  bytes := fun b hb => h.bytes b (List.mem_append_right _ hb)
  stream := h.stream

theorem discard (h : Only a l) : Only a l.discard where
  bytes := by simp
  stream := h.stream

/-- An arrival keeps it, when it overwrites nothing. -/
theorem arrive (h : Only a l) (harrive : l.arrive = some l') (hlone : l.inFlight.length ≤ 1) :
    Only a l' := by
  obtain ⟨b, hwire, hmark, rfl⟩ := arrive_lone harrive hlone
  refine ⟨?_, h.stream⟩
  simpa [inFlight, hwire, hmark] using h.bytes

theorem mark (h : Only a l) {b : α} (hmark : l.mark = some b) : b = a :=
  h.bytes b (by simp [inFlight, hmark])

theorem count_eq [DecidableEq α] (h : Only a l) : l.inFlight.count a = l.inFlight.length :=
  List.count_eq_length.mpr fun b hb => (h.bytes b hb).symm

end Only

end Urgent

end NetProg
