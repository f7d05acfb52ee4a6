/-
# NetProg.Python.Bookkeeping -- the three collections of the select server at its loop heads.

Each body of the three loops, when it does not raise, is one of five updates (`ReadStep`, `WriteStep`,
`ExceptStep`).  Each update keeps `Inv`: `msg_queue` has a key for every connection in `inputs`, `outputs`
names connections only, and a connection that is not in `outputs` has nothing queued.
-/
import Mathlib.Data.List.Nodup
import NetProg.Python.SelectServer

namespace NetProg.PySelectServer

/-! ## What the bodies do when they do not raise -/

namespace Server

/-- A socket leaves: it is closed and taken out of the three collections. -/
def forget (s : Server) (c : Sock) : Server :=
  { s with
    inputs := s.inputs.erase c
    outputs := s.outputs.erase c
    msgQueue := Function.update s.msgQueue c none
    closed := s.closed ++ [c]
    log := s.log ++ [.deleted c ((s.msgQueue c).getD [])] }

/-- A message is queued behind `q`, and the socket is in `outputs` from now on. -/
def enqueue (s : Server) (c : Sock) (q : List (List Char)) (data : List UInt8) (text : List Char) :
    Server :=
  addOutput
    { s with
      msgQueue := Function.update s.msgQueue c (some (q ++ [text]))
      log := s.log ++ [.received c data text] } c

section Enqueue

variable (s : Server) (c : Sock) (q : List (List Char)) (data : List UInt8) (text : List Char)

@[simp] theorem enqueue_inputs : (s.enqueue c q data text).inputs = s.inputs := by
  unfold enqueue addOutput
  split_ifs <;> rfl

@[simp] theorem enqueue_closed : (s.enqueue c q data text).closed = s.closed := by
  unfold enqueue addOutput
  split_ifs <;> rfl

@[simp] theorem enqueue_made : (s.enqueue c q data text).made = s.made := by
  unfold enqueue addOutput
  split_ifs <;> rfl

@[simp] theorem enqueue_msgQueue : (s.enqueue c q data text).msgQueue =
    Function.update s.msgQueue c (some (q ++ [text])) := by
  unfold enqueue addOutput
  split_ifs <;> rfl

@[simp] theorem enqueue_log : (s.enqueue c q data text).log = s.log ++ [.received c data text] := by
  unfold enqueue addOutput
  split_ifs <;> rfl

theorem mem_enqueue_outputs {d : Sock} :
    d ∈ (s.enqueue c q data text).outputs ↔ d ∈ s.outputs ∨ d = c := by
  unfold enqueue addOutput
  split_ifs with hc
  · exact ⟨Or.inl, fun h => h.elim id fun heq => heq ▸ hc⟩
  · simp

end Enqueue

variable {s t : Server} {c : Sock}

theorem call_eq_ok {ok : Bool} : s.call c ok = .ok () ↔ c ∉ s.closed ∧ ok = true := by
  unfold call
  split_ifs <;> simp_all

theorem removeInput_eq_ok :
    s.removeInput c = .ok t ↔ c ∈ s.inputs ∧ t = { s with inputs := s.inputs.erase c } := by
  unfold removeInput
  split_ifs <;> simp_all [eq_comm]

theorem removeOutput_eq_ok :
    s.removeOutput c = .ok t ↔ c ∈ s.outputs ∧ t = { s with outputs := s.outputs.erase c } := by
  unfold removeOutput
  split_ifs <;> simp_all [eq_comm]

theorem delQueue_eq_ok : s.delQueue c = .ok t ↔
    (s.msgQueue c).isSome ∧ t = { s with
      msgQueue := Function.update s.msgQueue c none
      log := s.log ++ [.deleted c ((s.msgQueue c).getD [])] } := by
  unfold delQueue
  cases s.msgQueue c with
  | none => simp
  | some q => simp [eq_comm]

theorem put_eq_ok {data : List UInt8} {text : List Char} : s.put c data text = .ok t ↔
    ∃ q, s.msgQueue c = some q ∧
      t = { s with
        msgQueue := Function.update s.msgQueue c (some (q ++ [text]))
        log := s.log ++ [.received c data text] } := by
  unfold put
  cases s.msgQueue c with
  | none => simp
  | some q => simp [eq_comm]

end Server

/-- A readable socket is handled. -/
inductive ReadStep (s : Server) : Sock × ReadAns → Server → Prop
  | accept {a} (hopen : masterSocket ∉ s.closed) (hok : a.ok = true) :
      ReadStep s (masterSocket, a) s.addConn
  | eof {c a} (hc : c ≠ masterSocket) (hopen : c ∉ s.closed) (hok : a.ok = true) (hpeer : a.peer = true)
      (hdecode : decode a.data = some []) (hin : c ∈ s.inputs) (hkey : (s.msgQueue c).isSome) :
      ReadStep s (c, a) (s.forget c)
  | data {c a x text q} (hc : c ≠ masterSocket) (hopen : c ∉ s.closed) (hok : a.ok = true)
      (hpeer : a.peer = true) (hdecode : decode a.data = some (x :: text)) (hq : s.msgQueue c = some q) :
      ReadStep s (c, a) (s.enqueue c q a.data (x :: text))

/-- A writable socket is handled. -/
inductive WriteStep (upper : Char → List Char) (s : Server) : Sock × WriteAns → Server → Prop
  | empty {c a} (hq : s.msgQueue c = some []) (hopen : c ∉ s.closed) (hpeer : a.peer = true)
      (hout : c ∈ s.outputs) : WriteStep upper s (c, a) { s with outputs := s.outputs.erase c }
  | send {c a msg q n} (hq : s.msgQueue c = some (msg :: q)) (hopen : c ∉ s.closed)
      (hpeer : a.peer = true) (hsent : a.sent = some n) :
      WriteStep upper s (c, a) (s.sends c q (encode (msg.flatMap upper)) n)

/-- An exceptional socket is handled. -/
inductive ExceptStep (s : Server) : Sock × Bool → Server → Prop
  | gone {c} (hopen : c ∉ s.closed) (hin : c ∈ s.inputs) (hkey : (s.msgQueue c).isSome) :
      ExceptStep s (c, true) (s.forget c)

section Steps

variable {upper : Char → List Char} {s t : Server}

theorem onReadable_eq_ok {r : Sock × ReadAns} : onReadable s r = .ok t ↔ ReadStep s r t := by
  rcases r with ⟨c, a⟩
  constructor
  · intro h
    unfold onReadable at h
    split_ifs at h with hc
    · obtain ⟨_, hcall, h⟩ := bind_eq_ok.mp h
      obtain ⟨hopen, hok⟩ := Server.call_eq_ok.mp hcall
      obtain rfl : s.addConn = t := by simpa [pure, Except.pure] using h
      obtain rfl : c = masterSocket := hc
      exact .accept hopen hok
    · obtain ⟨_, hcall, h⟩ := bind_eq_ok.mp h
      obtain ⟨hopen, hok⟩ := Server.call_eq_ok.mp hcall
      cases hdecode : decode a.data with
      | none => simp [hdecode, throw, throwThe, MonadExceptOf.throw] at h
      | some text =>
        cases text with
        | nil =>
          simp only [hdecode] at h
          obtain ⟨_, hpeer, h⟩ := bind_eq_ok.mp h
          obtain ⟨u, hremove, h⟩ := bind_eq_ok.mp h
          obtain ⟨hin, rfl⟩ := Server.removeInput_eq_ok.mp hremove
          obtain ⟨hkey, rfl⟩ := Server.delQueue_eq_ok.mp h
          exact .eof hc hopen hok (Server.call_eq_ok.mp hpeer).2 hdecode hin hkey
        | cons x text =>
          simp only [hdecode] at h
          obtain ⟨_, hpeer, h⟩ := bind_eq_ok.mp h
          obtain ⟨u, hput, h⟩ := bind_eq_ok.mp h
          obtain ⟨q, hq, rfl⟩ := Server.put_eq_ok.mp hput
          obtain rfl := Except.ok.inj h
          exact .data hc hopen hok (Server.call_eq_ok.mp hpeer).2 hdecode hq
  · intro h
    unfold onReadable
    cases h with
    | accept hopen hok => rw [if_pos rfl, Server.call_eq_ok.mpr ⟨hopen, hok⟩]; rfl
    | eof hc hopen hok hpeer hdecode hin hkey =>
      rw [if_neg hc]
      refine bind_eq_ok.mpr ⟨_, Server.call_eq_ok.mpr ⟨hopen, hok⟩, ?_⟩
      simp only [hdecode]
      refine bind_eq_ok.mpr ⟨_, Server.call_eq_ok.mpr ⟨hopen, hpeer⟩, ?_⟩
      refine bind_eq_ok.mpr ⟨_, Server.removeInput_eq_ok.mpr ⟨hin, rfl⟩, ?_⟩
      exact Server.delQueue_eq_ok.mpr ⟨hkey, rfl⟩
    | data hc hopen hok hpeer hdecode hq =>
      rw [if_neg hc]
      refine bind_eq_ok.mpr ⟨_, Server.call_eq_ok.mpr ⟨hopen, hok⟩, ?_⟩
      simp only [hdecode]
      refine bind_eq_ok.mpr ⟨_, Server.call_eq_ok.mpr ⟨hopen, hpeer⟩, ?_⟩
      exact bind_eq_ok.mpr ⟨_, Server.put_eq_ok.mpr ⟨_, hq, rfl⟩, rfl⟩

theorem onWritable_eq_ok {w : Sock × WriteAns} :
    onWritable upper s w = .ok t ↔ WriteStep upper s w t := by
  rcases w with ⟨c, a⟩
  constructor
  · intro h
    unfold onWritable at h
    cases hq : s.msgQueue c with
    | none => simp [hq, throw, throwThe, MonadExceptOf.throw] at h
    | some q =>
      cases q with
      | nil =>
        simp only [hq] at h
        obtain ⟨_, hcall, h⟩ := bind_eq_ok.mp h
        obtain ⟨hopen, hpeer⟩ := Server.call_eq_ok.mp hcall
        obtain ⟨hout, rfl⟩ := Server.removeOutput_eq_ok.mp h
        exact .empty hq hopen hpeer hout
      | cons msg q =>
        simp only [hq] at h
        obtain ⟨_, hcall, h⟩ := bind_eq_ok.mp h
        obtain ⟨hopen, hpeer⟩ := Server.call_eq_ok.mp hcall
        obtain ⟨_, hsend, h⟩ := bind_eq_ok.mp h
        obtain ⟨n, hn⟩ := Option.isSome_iff_exists.mp (Server.call_eq_ok.mp hsend).2
        obtain rfl := Except.ok.inj h
        rw [show a.sent.getD 0 = n by simp [hn]]
        exact .send hq hopen hpeer hn
  · intro h
    unfold onWritable
    cases h with
    | empty hq hopen hpeer hout =>
      simp only [hq]
      refine bind_eq_ok.mpr ⟨_, Server.call_eq_ok.mpr ⟨hopen, hpeer⟩, ?_⟩
      exact Server.removeOutput_eq_ok.mpr ⟨hout, rfl⟩
    | send hq hopen hpeer hsent =>
      simp only [hq, hsent]
      refine bind_eq_ok.mpr ⟨_, Server.call_eq_ok.mpr ⟨hopen, hpeer⟩, ?_⟩
      exact bind_eq_ok.mpr ⟨_, Server.call_eq_ok.mpr ⟨hopen, rfl⟩, rfl⟩

theorem onExceptional_eq_ok {x : Sock × Bool} : onExceptional s x = .ok t ↔ ExceptStep s x t := by
  rcases x with ⟨c, peer⟩
  constructor
  · intro h
    obtain ⟨_, hcall, h⟩ := bind_eq_ok.mp h
    obtain ⟨hopen, rfl⟩ := Server.call_eq_ok.mp hcall
    obtain ⟨u, hremove, h⟩ := bind_eq_ok.mp h
    obtain ⟨hin, rfl⟩ := Server.removeInput_eq_ok.mp hremove
    obtain ⟨hkey, rfl⟩ := Server.delQueue_eq_ok.mp h
    exact .gone hopen hin hkey
  · rintro ⟨hopen, hin, hkey⟩
    refine bind_eq_ok.mpr ⟨_, Server.call_eq_ok.mpr ⟨hopen, rfl⟩, ?_⟩
    refine bind_eq_ok.mpr ⟨_, Server.removeInput_eq_ok.mpr ⟨hin, rfl⟩, ?_⟩
    exact Server.delQueue_eq_ok.mpr ⟨hkey, rfl⟩

/-- A pass that does not raise is the three loops, one after the other. -/
theorem pass_eq_ok {e : Ready} : pass upper s e = .ok t ↔
    ∃ s₁ s₂, e.readable.foldlM onReadable s = .ok s₁ ∧
      e.writable.foldlM (onWritable upper) s₁ = .ok s₂ ∧ e.exceptional.foldlM onExceptional s₂ = .ok t := by
  unfold pass
  simp only [bind_eq_ok]
  constructor
  · rintro ⟨s₁, h₁, s₂, h₂, h₃⟩
    exact ⟨s₁, s₂, h₁, h₂, h₃⟩
  · rintro ⟨s₁, s₂, h₁, h₂, h₃⟩
    exact ⟨s₁, h₁, s₂, h₂, h₃⟩

end Steps

/-! ## The invariant -/

/-- What holds of the collections at a loop head. -/
structure HeadLaws (s : Server) : Prop where
  inputsNodup : s.inputs.Nodup
  keys : ∀ c, (s.msgQueue c).isSome ↔ c ∈ s.inputs ∧ c ≠ masterSocket
  outputsNodup : s.outputs.Nodup
  outputsKeys : ∀ c ∈ s.outputs, (s.msgQueue c).isSome
  waiting : ∀ c q, s.msgQueue c = some q → c ∉ s.outputs → q = []
  accepted : ∀ c, c < s.made → c ∉ s.closed → c ∈ s.inputs

/-- Those laws, and what keeps them: sockets in `inputs` are open, and all sockets are older than the next
one. -/
structure Inv (s : Server) : Prop extends HeadLaws s where
  inputsMade : ∀ c ∈ s.inputs, c < s.made
  inputsOpen : ∀ c ∈ s.inputs, c ∉ s.closed
  closedMade : ∀ c ∈ s.closed, c < s.made
  master : masterSocket ∈ s.inputs

namespace Inv

variable {upper : Char → List Char} {s t : Server} {c : Sock}

theorem start : Inv Server.start where
  inputsNodup := List.nodup_singleton _
  keys := by simp [Server.start]
  outputsNodup := List.nodup_nil
  outputsKeys := by simp [Server.start]
  waiting := by simp [Server.start]
  accepted := by simp [Server.start, masterSocket]
  inputsMade := by simp [Server.start, masterSocket]
  inputsOpen := by simp [Server.start]
  closedMade := by simp [Server.start]
  master := by simp [Server.start]

theorem fresh (hs : Inv s) : s.made ∉ s.inputs := fun h => absurd (hs.inputsMade _ h) (Nat.lt_irrefl _)

theorem made_ne_master (hs : Inv s) : s.made ≠ masterSocket :=
  Nat.ne_of_gt (hs.inputsMade _ hs.master)

theorem addConn (hs : Inv s) : Inv s.addConn where
  inputsNodup := by
    refine List.nodup_append.mpr ⟨hs.inputsNodup, List.nodup_singleton _, ?_⟩
    rintro a ha b hb rfl
    exact hs.fresh (List.mem_singleton.mp hb ▸ ha)
  keys := by
    intro c
    by_cases hc : c = s.made
    · subst hc
      simp [Server.addConn, hs.made_ne_master]
    · simpa [Server.addConn, Function.update_of_ne hc, hc] using hs.keys c
  outputsNodup := hs.outputsNodup
  outputsKeys := by
    intro c hc
    by_cases heq : c = s.made
    · simp [Server.addConn, heq]
    · simpa [Server.addConn, Function.update_of_ne heq] using hs.outputsKeys c hc
  waiting := by
    intro c q hq hout
    by_cases heq : c = s.made
    · subst heq
      simpa [Server.addConn, eq_comm] using hq
    · exact hs.waiting c q (by simpa [Server.addConn, Function.update_of_ne heq] using hq) hout
  accepted := by
    intro c hc hopen
    rcases Nat.lt_succ_iff_lt_or_eq.mp hc with hlt | rfl
    · exact List.mem_append_left _ (hs.accepted c hlt hopen)
    · exact List.mem_append_right _ (List.mem_singleton_self _)
  inputsMade := by
    intro c hc
    rcases List.mem_append.mp hc with hc | hc
    · exact Nat.lt_succ_of_lt (hs.inputsMade c hc)
    · exact (List.mem_singleton.mp hc) ▸ Nat.lt_succ_self _
  inputsOpen := by
    intro c hc hclosed
    rcases List.mem_append.mp hc with hc | hc
    · exact hs.inputsOpen c hc hclosed
    · exact absurd (hs.closedMade c hclosed) (by simp [List.mem_singleton.mp hc])
  closedMade := fun c hc => Nat.lt_succ_of_lt (hs.closedMade c hc)
  master := List.mem_append_left _ hs.master

/-- A connection that is in `inputs` leaves. -/
theorem forget (hs : Inv s) (hin : c ∈ s.inputs) (hc : c ≠ masterSocket) : Inv (s.forget c) where
  inputsNodup := hs.inputsNodup.erase c
  keys := by
    intro d
    by_cases hd : d = c
    · subst hd
      simp [Server.forget, hs.inputsNodup.mem_erase_iff]
    · simpa [Server.forget, Function.update_of_ne hd, hs.inputsNodup.mem_erase_iff, hd] using hs.keys d
  outputsNodup := hs.outputsNodup.erase c
  outputsKeys := by
    intro d hd
    obtain ⟨hne, hd⟩ := hs.outputsNodup.mem_erase_iff.mp hd
    simpa [Server.forget, Function.update_of_ne hne] using hs.outputsKeys d hd
  waiting := by
    intro d q hq hout
    by_cases hd : d = c
    · simp [Server.forget, hd] at hq
    · refine hs.waiting d q (by simpa [Server.forget, Function.update_of_ne hd] using hq) fun hmem => ?_
      exact hout (hs.outputsNodup.mem_erase_iff.mpr ⟨hd, hmem⟩)
  accepted := by
    intro d hd hopen
    simp only [Server.forget, List.mem_append, List.mem_singleton, not_or] at hopen
    exact hs.inputsNodup.mem_erase_iff.mpr ⟨hopen.2, hs.accepted d hd hopen.1⟩
  inputsMade := fun d hd => hs.inputsMade d (List.mem_of_mem_erase hd)
  inputsOpen := by
    intro d hd hclosed
    obtain ⟨hne, hd⟩ := hs.inputsNodup.mem_erase_iff.mp hd
    rcases List.mem_append.mp hclosed with hclosed | hclosed
    · exact hs.inputsOpen d hd hclosed
    · exact hne (List.mem_singleton.mp hclosed)
  closedMade := by
    intro d hd
    rcases List.mem_append.mp hd with hd | hd
    · exact hs.closedMade d hd
    · exact (List.mem_singleton.mp hd) ▸ hs.inputsMade c hin
  master := hs.inputsNodup.mem_erase_iff.mpr ⟨hc.symm, hs.master⟩

/-- Updates that leave the key of `c` in place, and put `c` into `outputs` or empty its queue. -/
theorem requeue (hs : Inv s) {q : List (List Char)} (hq : s.msgQueue c = some q)
    (q' : List (List Char)) (log : List Call)
    (outputs : List Sock) (hnodup : outputs.Nodup) (hkeys : ∀ d ∈ outputs, d = c ∨ d ∈ s.outputs)
    (hothers : ∀ d ∈ s.outputs, d ≠ c → d ∈ outputs) (hc : c ∉ outputs → q' = []) :
    Inv { s with
      outputs := outputs, msgQueue := Function.update s.msgQueue c (some q'), log := log } where
  inputsNodup := hs.inputsNodup
  keys := by
    intro d
    by_cases hd : d = c
    · subst hd
      simpa [hq] using hs.keys d
    · simpa [Function.update_of_ne hd] using hs.keys d
  outputsNodup := hnodup
  outputsKeys := by
    intro d hd
    by_cases heq : d = c
    · simp [heq]
    · simpa [Function.update_of_ne heq] using hs.outputsKeys d ((hkeys d hd).resolve_left heq)
  waiting := by
    intro d r hr hout
    by_cases hd : d = c
    · subst hd
      obtain rfl : q' = r := by simpa using hr
      exact hc hout
    · refine hs.waiting d r (by simpa [Function.update_of_ne hd] using hr) fun hmem => ?_
      exact hout (hothers d hmem hd)
  accepted := hs.accepted
  inputsMade := hs.inputsMade
  inputsOpen := hs.inputsOpen
  closedMade := hs.closedMade
  master := hs.master

theorem enqueue (hs : Inv s) {q : List (List Char)} (hq : s.msgQueue c = some q) (data : List UInt8)
    (text : List Char) : Inv (s.enqueue c q data text) := by
  unfold Server.enqueue Server.addOutput
  split_ifs with hout
  · exact hs.requeue hq _ _ _ hs.outputsNodup (fun d hd => Or.inr hd) (fun d hd _ => hd)
      fun hno => absurd hout hno
  · refine hs.requeue hq _ _ _ ?_ ?_ ?_ ?_
    · refine List.nodup_append.mpr ⟨hs.outputsNodup, List.nodup_singleton _, ?_⟩
      rintro a ha b hb rfl
      exact hout (List.mem_singleton.mp hb ▸ ha)
    · intro d hd
      rcases List.mem_append.mp hd with hd | hd
      · exact Or.inr hd
      · exact Or.inl (List.mem_singleton.mp hd)
    · exact fun d hd _ => List.mem_append_left _ hd
    · exact fun hno => absurd (List.mem_append_right _ (List.mem_singleton_self c)) hno

/-! ## The passes -/

theorem readStep (hs : Inv s) {r : Sock × ReadAns} (h : ReadStep s r t) : Inv t := by
  cases h with
  | accept => exact hs.addConn
  | eof hc _ _ _ _ hin _ => exact hs.forget hin hc
  | data _ _ _ _ _ hq => exact hs.enqueue hq _ _

theorem writeStep (hs : Inv s) {w : Sock × WriteAns} (h : WriteStep upper s w t) : Inv t := by
  cases h with
  | @empty c a hq _ _ hout =>
    have hsame : Function.update s.msgQueue c (some []) = s.msgQueue := by
      rw [← hq, Function.update_eq_self]
    have := hs.requeue hq [] s.log (s.outputs.erase c) (hs.outputsNodup.erase c)
      (fun d hd => Or.inr (List.mem_of_mem_erase hd))
      (fun d hd hne => hs.outputsNodup.mem_erase_iff.mpr ⟨hne, hd⟩) fun _ => rfl
    rwa [hsame] at this
  | @send c a msg q n hq _ _ _ =>
    -- a connection with something queued is in `outputs`
    refine hs.requeue hq _ _ s.outputs hs.outputsNodup (fun d hd => Or.inr hd) (fun d hd _ => hd) ?_
    exact fun hno => absurd (hs.waiting c _ hq hno) (by simp)

theorem exceptStep (hs : Inv s) {x : Sock × Bool} (h : ExceptStep s x t) : Inv t := by
  cases h with
  | @gone c _ hin hkey => exact hs.forget hin ((hs.keys c).mp hkey).2

/-- **A pass that does not raise keeps the invariant.** -/
theorem pass (hs : Inv s) {e : Ready} (h : pass upper s e = .ok t) : Inv t := by
  obtain ⟨s₁, s₂, h₁, h₂, h₃⟩ := pass_eq_ok.mp h
  have hs₁ : Inv s₁ := foldlM_keeps (fun _ _ _ _ hs h => hs.readStep (onReadable_eq_ok.mp h)) hs h₁
  have hs₂ : Inv s₂ := foldlM_keeps (fun _ _ _ _ hs h => hs.writeStep (onWritable_eq_ok.mp h)) hs₁ h₂
  exact foldlM_keeps (fun _ _ _ _ hs h => hs.exceptStep (onExceptional_eq_ok.mp h)) hs₂ h₃

end Inv

/-- A loop rule for the server: what every pass keeps that does not raise, holds at every loop head. -/
theorem atHead_of_pass {upper : Char → List Char} {P : Server → Prop} (hstart : P Server.start)
    (hpass : ∀ s e t, AtHead (selectServer upper) s → P s → Admits s e → pass upper s e = .ok t → P t)
    {s : Server} (hs : AtHead (selectServer upper) s) : P s := by
  refine atHead_invariant hstart (fun s e hreach hs he => ?_) hs
  unfold body
  split_ifs
  · trivial
  · trivial
  · cases hpass' : pass upper s e with
    | ok t => exact hpass s e t hreach hs he hpass'
    | error x => trivial

theorem Inv.atHead {upper : Char → List Char} {s : Server} (hs : AtHead (selectServer upper) s) :
    Inv s :=
  atHead_of_pass Inv.start (fun _ _ _ _ hs _ h => hs.pass h) hs

/-- **The collections are consistent at every loop head**, and no queued reply is stranded. -/
theorem selectServer_headLaws (upper : Char → List Char) {s : Server}
    (hs : AtHead (selectServer upper) s) : HeadLaws s :=
  (Inv.atHead hs).toHeadLaws

/-- What `str.upper` makes of an ASCII character. -/
def asciiUpper (c : Char) : List Char := [c.toUpper]

/-- A pass on which everything succeeds: the sockets that are readable, with the bytes that `recv` returns,
and those that are writable, with the counts that `send` returns. -/
def smooth (readable : List (Sock × List UInt8)) (writable : List (Sock × ℕ)) : Ready where
  readable := readable.map fun r => (r.1, ⟨true, r.2, true⟩)
  writable := writable.map fun w => (w.1, ⟨true, some w.2⟩)
  exceptional := []

/-- Two clients; the first one's message is queued. -/
theorem selectServer_headLaws_queued :
    ∃ s, AtHead (selectServer asciiUpper) s ∧ s.inputs = [0, 1, 2] ∧ s.outputs = [1] ∧
      s.msgQueue 1 = some [['h', 'i']] ∧ HeadLaws s := by
  obtain ⟨s, hs, hend⟩ := exists_atHead_of_run (selectServer asciiUpper)
    [smooth [(0, [])] [], smooth [(0, []), (1, [104, 105])] []]
    (fun s => s.inputs == [0, 1, 2] && s.outputs == [1] && s.msgQueue 1 == some [['h', 'i']])
    (by decide +kernel)
  simp only [Bool.and_eq_true, beq_iff_eq] at hend
  exact ⟨s, hs, hend.1.1, hend.1.2, hend.2, selectServer_headLaws _ hs⟩

end NetProg.PySelectServer
