/-
# NetProg.Unix.StreamServer -- the replies of `str_echo` of `C/unix_stream_server.c`.

`str_echo` tells an error of `read` from a message, but not the end of the stream: `n == 0` goes on to the
`sprintf`, and the empty message is answered like any other.  Nothing leaves the loop but an error
(`strEcho_ne_ret`), so a client that closes its side gets a reply for every further `read`.  The replies are one for
each message exactly as long as no read returns 0 and every message fits (`strEcho_repliesOnce_iff`).
-/
import NetProg.Base.History
import NetProg.Server.EchoServers

namespace NetProg.UnixStreamServer

open EchoServer (Answers Echo Formats response)
open EchoServer.UnixStream (strEcho serves)

/-- The server of one connection, and the kernel's answers so far. -/
def server : System (Flow Echo × List Answers) Answers := (EchoServer.server strEcho).observe fun _ a => [a]

/-- What the reads of a run returned, errors apart. -/
def stored (l : List Answers) : List (List UInt8) :=
  l.filterMap fun a => match a.recv with
    | .data bs => some bs
    | .error _ => none

/-- The messages among it. -/
def messages (l : List Answers) : List (List UInt8) := (stored l).filter (· ≠ [])

/-- The reply to a message. -/
def reply (bs : List UInt8) : List UInt8 := response ++ untilNul bs

/-- One reply was written for each message and none for anything else, and if a read has returned 0 the loop was
left then. -/
structure RepliesOnce (f : Flow Echo) (l : List Answers) : Prop where
  replies : f.state.sent = (messages l).map reply
  leaves : [] ∈ stored l → ∃ s, f = .ret s

/-! ## One round -/

section Round

variable {s : Echo}

theorem strEcho_error (eintr : Bool) (snd : EchoServer.SendAnswer) :
    (strEcho s ⟨.error eintr, snd⟩).state.sent = s.sent := by
  cases eintr <;> rfl

/-- A message that formats is answered, whatever it is. -/
theorem strEcho_formats {bs : List UInt8} (hbs : bs.length ≤ EchoServer.bufSize) (snd : EchoServer.SendAnswer)
    (h : Formats response bs) : (strEcho s ⟨.data bs, snd⟩).state.sent = s.sent ++ [reply bs] := by
  obtain ⟨t, s', ht, hround, -, hsent⟩ := EchoServer.format_of_formats (s := s) (by decide) h
  have htext : t = untilNul bs := by
    have hstring : cString (store (cleared EchoServer.bufSize) 0 bs).toList = some t := ht
    rw [cString_store_cleared hbs] at hstring
    split_ifs at hstring
    exact (Option.some.inj hstring).symm
  simp only [strEcho, hround, Flow.andThen_next]
  rw [htext] at hsent
  rcases snd with _ | (_ | _) <;> exact hsent

/-- One that does not is not. -/
theorem strEcho_not_formats {bs : List UInt8} (snd : EchoServer.SendAnswer) (h : ¬ Formats response bs) :
    (strEcho s ⟨.data bs, snd⟩).state.sent = s.sent := by
  have hround := EchoServer.format_of_not_formats (s := s) h
  simp only [strEcho, hround, Flow.andThen_undef]
  simp only [Flow.state, Echo.receive, Echo.clear]

/-- **Nothing returns.** -/
theorem strEcho_ne_ret (a : Answers) (s' : Echo) : strEcho s a ≠ .ret s' := by
  intro hret
  obtain ⟨recv, snd⟩ := a
  cases recv with
  | error eintr => cases eintr <;> cases hret
  | data bs =>
    by_cases h : Formats response bs
    · obtain ⟨t, e, -, hround, -, -⟩ := EchoServer.format_of_formats (s := s) (by decide) h
      simp only [strEcho, hround, Flow.andThen_next] at hret
      rcases snd with _ | (_ | _) <;> cases hret
    · simp only [strEcho, EchoServer.format_of_not_formats (s := s) h, Flow.andThen_undef] at hret
      cases hret

end Round

/-! ## Every run -/

/-- What holds of a run: it has not returned, everything read was received, and is answered; what does not
format is the last, and is not. -/
structure Inv (f : Flow Echo) (l : List Answers) : Prop where
  not_ret : ∀ s, f ≠ .ret s
  received : f.state.received = stored l
  answered : f.isUndef = false → f.state.sent = (stored l).map reply
  behind : f.isUndef = true → f.state.sent.length < (stored l).length

section Run

variable {f : Flow Echo} {l : List Answers}

theorem stored_snoc_error (l : List Answers) (eintr : Bool) (snd : EchoServer.SendAnswer) :
    stored (l ++ [⟨.error eintr, snd⟩]) = stored l := by
  simp [stored]

theorem stored_snoc_data (l : List Answers) (bs : List UInt8) (snd : EchoServer.SendAnswer) :
    stored (l ++ [⟨.data bs, snd⟩]) = stored l ++ [bs] := by
  simp [stored]

/-- **One round keeps the invariant.** -/
theorem Inv.round {s : Echo} (h : Inv (.next s) l) {a : Answers} (ha : a.recv.Admits) :
    Inv (strEcho s a).loopBack (l ++ [a]) := by
  have hsent : s.sent = (stored l).map reply := h.answered rfl
  have hreceived : s.received = stored l := h.received
  have hret : ∀ s', (strEcho s a).loopBack ≠ .ret s' := fun s' hret =>
    strEcho_ne_ret a s' (Flow.loopBack_eq_ret.mp hret)
  obtain ⟨recv, snd⟩ := a
  cases recv with
  | error eintr =>
    obtain ⟨hsame, hdefined⟩ := serves.error s eintr snd
    refine ⟨hret, ?_, fun _ => ?_, fun hundef => ?_⟩
    · rw [Flow.state_loopBack, stored_snoc_error, hsame, hreceived]
    · rw [Flow.state_loopBack, stored_snoc_error, strEcho_error, hsent]
    · rw [Flow.isUndef_loopBack, hdefined] at hundef
      cases hundef
  | data bs =>
    obtain ⟨hmore, hdefined⟩ := serves.data s bs snd
    refine ⟨hret, ?_, fun hdef => ?_, fun hundef => ?_⟩
    · rw [Flow.state_loopBack, stored_snoc_data, hmore, hreceived]
    · rw [Flow.isUndef_loopBack, hdefined] at hdef
      rw [Flow.state_loopBack, stored_snoc_data, strEcho_formats ha snd hdef, hsent, List.map_append]
      rfl
    · rw [Flow.isUndef_loopBack] at hundef
      have hnot : ¬ Formats response bs := fun hformats => by
        rw [hdefined.mpr hformats] at hundef
        cases hundef
      rw [Flow.state_loopBack, stored_snoc_data, strEcho_not_formats snd hnot, hsent]
      simp

theorem received_answered (hf : server.Reachable (f, l)) : Inv f l := by
  refine whileLoop_observe_invariant (P := Inv) ⟨?_, rfl, fun _ => rfl, ?_⟩ ?_ hf
  · rintro s ⟨⟩
  · rintro ⟨⟩
  · exact fun s l a _ h ha => h.round ha

theorem messages_of_open (h : [] ∉ stored l) : messages l = stored l := by
  apply List.filter_eq_self.mpr
  intro bs hbs
  have hne : bs ≠ [] := fun hnil => h (hnil ▸ hbs)
  simpa using hne

end Run

/-! ## The main result -/

/-- **When `str_echo` replies once to each message.** -/
theorem strEcho_repliesOnce_iff {f : Flow Echo} {l : List Answers} (hf : server.Reachable (f, l)) :
    RepliesOnce f l ↔ ∀ bs ∈ stored l, bs ≠ [] ∧ (untilNul bs).length ≤ 244 := by
  have h := received_answered hf
  have hlength := serves.isUndef_iff_length (by decide) (System.reachable_of_observe hf)
  rw [h.received] at hlength
  have hpre : EchoServer.bufSize - 1 - response.length = 244 := by decide
  rw [hpre] at hlength
  constructor
  · rintro ⟨hreplies, hleaves⟩
    have hopen : [] ∉ stored l := fun hmem => by
      obtain ⟨s, hs⟩ := hleaves hmem
      exact h.not_ret s hs
    rw [messages_of_open hopen] at hreplies
    have hdefined : f.isUndef = false := by
      by_contra hundef
      have hless := h.behind (by simpa using hundef)
      rw [hreplies, List.length_map] at hless
      exact Nat.lt_irrefl _ hless
    intro bs hbs
    exact ⟨fun hnil => hopen (hnil ▸ hbs), hlength.mp hdefined bs hbs⟩
  · intro hall
    have hopen : [] ∉ stored l := fun hmem => (hall [] hmem).1 rfl
    constructor
    · rw [messages_of_open hopen]
      exact h.answered (hlength.mpr fun bs hbs => (hall bs hbs).2)
    · exact fun hmem => absurd hmem hopen

/-- "hi" is answered once, over an interruption. -/
theorem strEcho_repliesOnce_iff_hi : ∃ f l, server.Reachable (f, l) ∧ stored l = [[104, 105]] ∧
    RepliesOnce f l := by
  obtain ⟨⟨f, l⟩, hf, hl⟩ := server.exists_reachable_of_run
    [⟨.error true, .sent⟩, ⟨.data [104, 105], .sent⟩] (fun q => stored q.2 == [[104, 105]])
    (by decide +kernel)
  have hstored := beq_iff_eq.mp hl
  refine ⟨f, l, hf, hstored, (strEcho_repliesOnce_iff hf).mpr ?_⟩
  rw [hstored]
  decide

/-- The client closes its side: the server goes on, and replies. -/
theorem strEcho_replies_after_eof : ∃ f l, server.Reachable (f, l) ∧ stored l = [[], []] ∧
    f.state.sent = [response, response] ∧ ¬ RepliesOnce f l := by
  obtain ⟨⟨f, l⟩, hf, hl⟩ := server.exists_reachable_of_run [⟨.data [], .sent⟩, ⟨.data [], .sent⟩]
    (fun q => stored q.2 == [[], []] && q.1.state.sent == [response, response]) (by decide +kernel)
  simp only [Bool.and_eq_true, beq_iff_eq] at hl
  obtain ⟨hstored, hsent⟩ := hl
  refine ⟨f, l, hf, hstored, hsent, fun hlaw => ?_⟩
  have hreplies := hlaw.replies
  rw [hsent, messages, hstored] at hreplies
  exact absurd hreplies (by decide)

end NetProg.UnixStreamServer
