/-
# NetProg.Base.Channel -- one direction of a relay: a FIFO with history and half-close.

The abstract purpose of a relay buffer.  A channel remembers everything it consumed from its source and
everything it delivered to its sink, and whether its source has ended (`eof`) and the end has been passed
on (`fin`).  Two laws are fields, so that no channel can break them: what was consumed is what was
delivered followed by the queue (`conserve`), and the end has been passed on exactly when the source has
ended and nothing is queued (`fin_iff`).
-/
import Mathlib.Data.List.Basic
import Mathlib.Tactic.Cases

namespace NetProg

/-- A FIFO between a source and a sink, with its history. -/
structure Channel (α : Type*) where
  consumed : List α
  delivered : List α
  queue : List α
  eof : Bool
  fin : Bool
  conserve : consumed = delivered ++ queue
  fin_iff : fin = true ↔ eof = true ∧ queue = []

namespace Channel

variable {α : Type*}

/-- A fresh channel. -/
def empty : Channel α where
  consumed := []
  delivered := []
  queue := []
  eof := false
  fin := false
  conserve := rfl
  fin_iff := by simp

/-- Take `xs` from the source; only a source that has not ended can give anything. -/
def pull (c : Channel α) (xs : List α) (h : c.eof = false) : Channel α where
  consumed := c.consumed ++ xs
  delivered := c.delivered
  queue := c.queue ++ xs
  eof := c.eof
  fin := c.fin
  conserve := by rw [c.conserve, List.append_assoc]
  fin_iff := by simp [h, c.fin_iff]

/-- The source has ended; with nothing queued the end is passed on at once. -/
def finish (c : Channel α) : Channel α where
  consumed := c.consumed
  delivered := c.delivered
  queue := c.queue
  eof := true
  fin := c.queue.isEmpty
  conserve := c.conserve
  fin_iff := by simp

/-- Deliver the first `k` queued elements; if that drains an ended channel, the end is passed on. -/
def push (c : Channel α) (k : ℕ) : Channel α where
  consumed := c.consumed
  delivered := c.delivered ++ c.queue.take k
  queue := c.queue.drop k
  eof := c.eof
  fin := c.eof && (c.queue.drop k).isEmpty
  conserve := by rw [c.conserve, List.append_assoc, List.take_append_drop]
  fin_iff := by simp

/-- Everything consumed has been delivered exactly when nothing is queued. -/
theorem consumed_eq_delivered_iff (c : Channel α) : c.consumed = c.delivered ↔ c.queue = [] := by
  rw [c.conserve]
  constructor
  · intro h
    simpa using h
  · intro h
    rw [h, List.append_nil]

end Channel

end NetProg
