/-
# NetProg.Server.ForkServers -- how long `C/basic_tcp_server.c` and `C/unix_stream_server.c` go on serving.

Both fork a child for every connection, and close their own copy of it.  `unix_stream_server` has a handler for
SIGCHLD that calls `waitpid` until it takes no child, and exits when `fork` fails.  `basic_tcp_server` waits for
nobody, and behind a `fork` that failed it closes the connection like any other.

The system has room for `limit` children, and one that has exited takes its place until it is waited for.  So a
server can always come to serve one more connection exactly if it waits for its children (`serves_on_iff`).
The other one uses up the places (`basicTcpServer_wearsOut`): `limit` connections are served in its life, and
then it goes on to accept every connection and to close it at once.

The steps are the calls of the parent, the ends of the children, and the signals, in any order; `fork` may fail
at any time.
-/
import NetProg.Base.Progress
import NetProg.Base.Reaping

namespace NetProg.ForkServer

/-! ## The servers -/

/-- Whether the server installs `sig_chld`, and whether it exits when `fork` fails. -/
structure Style where
  reaps : Bool
  exits : Bool
  deriving DecidableEq, Repr

/-- `main` of `C/basic_tcp_server.c`. -/
def basicTcpServer : Style := ⟨false, false⟩

/-- `main` of `C/unix_stream_server.c`. -/
def unixStreamServer : Style := ⟨true, true⟩

/-- The next call of the parent, or what it gave to `perror` before it exited. -/
inductive Pc where
  | accept
  | fork
  | close
  | exited (error : String)
  deriving DecidableEq, Repr

/-- The parent has not exited. -/
def Pc.alive : Pc → Bool
  | accept | fork | close => true
  | exited _ => false

/-- What became of a connection: a child has it, or it was closed with none. -/
inductive Fate where
  | served
  | turnedAway
  deriving DecidableEq, Repr

/-- The parent, its children and the pending SIGCHLD (`family`), and the connections it took so far. -/
structure Server where
  pc : Pc
  family : Family
  fates : List Fate
  deriving DecidableEq, Repr

/-- `accept` and `fork`, with their results; `close`; a child exits; SIGCHLD is delivered; `waitpid`. -/
inductive Ev where
  | acceptFails (eintr : Bool)
  | accepted
  | forked
  | forkFails
  | close
  | exit
  | deliver
  | waited
  deriving DecidableEq, Repr

/-- `while ((pid = waitpid (-1, &stat, WNOHANG)) > 0)`, in `sig_chld` of `unix_stream_server.c`. -/
def sigChld : ChildHandler := ⟨false, fun took => took⟩

namespace Server

def start : Server := ⟨.accept, .start, []⟩

/-- How many connections got a child. -/
def served (s : Server) : ℕ := s.fates.count .served

/-- The places that the children take. -/
def places (s : Server) : ℕ := s.family.running + s.family.zombies

/-- The parent makes its calls outside of the handler. -/
def call (s : Server) (pc : Pc) (s' : Server) : Option Server :=
  if s.pc = pc ∧ s.family.handling = false then some s' else none

def step (style : Style) (limit : ℕ) (s : Server) : Ev → Option Server
  | .acceptFails eintr => s.call .accept (if eintr then s else { s with pc := .exited "accept" })
  | .accepted => s.call .accept { s with pc := .fork }
  | .forked =>
    if s.places < limit then
      s.call .fork { s with
        pc := .close
        family := { s.family with running := s.family.running + 1 }
        fates := s.fates ++ [.served] }
    else none
  | .forkFails =>
    s.call .fork { s with
      pc := if style.exits then .exited "fork" else .close
      fates := s.fates ++ [.turnedAway] }
  | .close => s.call .close { s with pc := .accept }
  -- without a handler SIGCHLD is ignored, and the child is a zombie all the same
  | .exit =>
    (s.family.step sigChld .exit).map fun f =>
      { s with family := { f with pending := style.reaps } }
  | .deliver => if s.pc.alive then (s.family.step sigChld .deliver).map fun f => { s with family := f } else none
  | .waited => if s.pc.alive then (s.family.step sigChld .wait).map fun f => { s with family := f } else none

end Server

/-- The server, on a system with room for so many children. -/
def server (style : Style) (limit : ℕ) : System Server Ev := ⟨.start, Server.step style limit⟩

/-- **From wherever the server gets**, unless it has exited, it can come to serve one more connection. -/
def KeepsServing (style : Style) (limit : ℕ) : Prop :=
  ∀ s, (server style limit).Reachable s → s.pc.alive = true →
    ∃ t, (server style limit).Leads s t ∧ t.served = s.served + 1

/-! ## One step -/

section Step

variable {style : Style} {limit : ℕ} {s s' : Server}

theorem call_eq {pc : Pc} {t : Server} :
    s.call pc t = some s' ↔ (s.pc = pc ∧ s.family.handling = false) ∧ t = s' :=
  Option.ite_some_none_eq_some

/-- **What a step can do**: a call of the parent, a child that got a place, or a step of the family. -/
theorem step_cases {e : Ev} (hstep : (server style limit).step s e = some s') :
    (s'.family = s.family ∧ (s'.fates = s.fates ∨ s'.fates = s.fates ++ [.turnedAway])) ∨
    (s.family.handling = false ∧ s.places < limit ∧ s'.fates = s.fates ++ [.served] ∧
      s'.family = { s.family with running := s.family.running + 1 }) ∨
    (s'.fates = s.fates ∧ ∃ e' f, e' ≠ .fork ∧ e' ≠ .signal ∧ s.family.step sigChld e' = some f ∧
      s'.family = if e' = .exit then { f with pending := style.reaps } else f) := by
  cases e with
  | acceptFails eintr =>
    obtain ⟨-, rfl⟩ := call_eq.mp hstep
    cases eintr <;> exact .inl ⟨rfl, .inl rfl⟩
  | accepted | close =>
    obtain ⟨-, rfl⟩ := call_eq.mp hstep
    exact .inl ⟨rfl, .inl rfl⟩
  | forked =>
    simp only [server, Server.step] at hstep
    split_ifs at hstep with hplace
    obtain ⟨⟨-, hhandling⟩, rfl⟩ := call_eq.mp hstep
    exact .inr (.inl ⟨hhandling, hplace, rfl, rfl⟩)
  | forkFails =>
    obtain ⟨-, rfl⟩ := call_eq.mp hstep
    exact .inl ⟨rfl, .inr rfl⟩
  | exit =>
    obtain ⟨f, hf, rfl⟩ := Option.map_eq_some_iff.mp hstep
    exact .inr (.inr ⟨rfl, .exit, f, Family.Ev.noConfusion, Family.Ev.noConfusion, hf, rfl⟩)
  | deliver =>
    simp only [server, Server.step] at hstep
    split_ifs at hstep
    obtain ⟨f, hf, rfl⟩ := Option.map_eq_some_iff.mp hstep
    exact .inr (.inr ⟨rfl, .deliver, f, Family.Ev.noConfusion, Family.Ev.noConfusion, hf, rfl⟩)
  | waited =>
    simp only [server, Server.step] at hstep
    split_ifs at hstep
    obtain ⟨f, hf, rfl⟩ := Option.map_eq_some_iff.mp hstep
    exact .inr (.inr ⟨rfl, .wait, f, Family.Ev.noConfusion, Family.Ev.noConfusion, hf, rfl⟩)

/-- The children of a server that waits for them are those of a parent with its handler. -/
theorem family_step (hreaps : style.reaps = true) {e : Ev} (hstep : (server style limit).step s e = some s') :
    (family sigChld).Leads s.family s'.family := by
  rcases step_cases hstep with ⟨hsame, -⟩ | ⟨hhandling, -, -, hforked⟩ | ⟨-, e', f, -, -, hf, hfamily⟩
  · rw [hsame]
    exact .refl _
  · rw [hforked]
    exact .single (e := .fork) (if_pos hhandling)
  · refine .single (e := e') ?_
    have hpending : s'.family = f := by
      rw [hfamily]
      split_ifs with hexit
      · subst hexit
        obtain ⟨-, rfl⟩ := Option.ite_some_none_eq_some.mp hf
        rw [hreaps]
      · rfl
    rw [hpending]
    exact hf

/-- No child of a server that never waits gives up its place. -/
theorem unreaped_step (hreaps : style.reaps = false) {e : Ev} (hstep : (server style limit).step s e = some s')
    (hs : s.family.Quiet ∧ s.served = s.places ∧ s.places ≤ limit) :
    s'.family.Quiet ∧ s'.served = s'.places ∧ s'.places ≤ limit := by
  obtain ⟨⟨hpending, hhandling⟩, hserved, hle⟩ := hs
  rcases step_cases hstep with
    ⟨hsame, hfates⟩ | ⟨-, hplace, hfates, hforked⟩ | ⟨hfates, e', f, hfork, hsignal, hf, hfamily⟩
  · have hserved' : s'.served = s.served := by
      rcases hfates with hfates | hfates <;> simp [Server.served, hfates]
    rw [Server.places, hserved', hsame]
    exact ⟨⟨hpending, hhandling⟩, hserved, hle⟩
  · have hserved' : s'.served = s.served + 1 := by simp [Server.served, hfates]
    simp only [Server.places, hforked, hserved', Family.Quiet] at hserved hplace ⊢
    exact ⟨⟨hpending, hhandling⟩, by omega, by omega⟩
  · have hserved' : s'.served = s.served := congrArg (List.count Fate.served) hfates
    rw [hserved', Server.places, hfamily]
    cases e' with
    | fork => exact absurd rfl hfork
    | signal => exact absurd rfl hsignal
    | exit =>
      obtain ⟨hpos, rfl⟩ := Option.ite_some_none_eq_some.mp hf
      simp only [Server.places, if_pos, Family.Quiet] at hserved hle ⊢
      exact ⟨⟨hreaps, hhandling⟩, by omega, by omega⟩
    | deliver =>
      obtain ⟨⟨hpending', -⟩, -⟩ := Option.ite_some_none_eq_some.mp hf
      rw [hpending] at hpending'
      cases hpending'
    | wait =>
      simp only [Family.step, hhandling] at hf
      cases hf

end Step

/-! ## Every run -/

section Run

variable {style : Style} {limit : ℕ} {s : Server}

/-- **Whoever exits is waited for**: in a state where nothing is pending there is no zombie. -/
theorem no_zombie (hreaps : style.reaps = true) (hs : (server style limit).Reachable s) (hquiet : s.family.Quiet) :
    s.family.zombies = 0 := by
  refine no_zombie_of_drains (h := sigChld) rfl ?_ hquiet
  refine (server style limit).invariant (P := fun s => (family sigChld).Reachable s.family) .init ?_ hs
  intro s e s' _ ih hstep
  exact (family_step hreaps hstep).reachable ih

/-- **A place is never given up**: as many are taken as connections were served. -/
theorem unreaped (hreaps : style.reaps = false) (hs : (server style limit).Reachable s) :
    s.family.Quiet ∧ s.served = s.places ∧ s.places ≤ limit :=
  (server style limit).invariant (P := fun s => s.family.Quiet ∧ s.served = s.places ∧ s.places ≤ limit)
    ⟨⟨rfl, rfl⟩, rfl, Nat.zero_le _⟩ (fun _ _ _ _ ih hstep => unreaped_step hreaps hstep ih) hs

end Run

/-! ## What the server can come to -/

section Leads

variable {style : Style} {limit : ℕ} {s : Server}

/-- All children exit. -/
theorem leads_exits (style : Style) (limit : ℕ) (s : Server) :
    ∃ t, (server style limit).Leads s t ∧ t.pc = s.pc ∧ t.fates = s.fates ∧ t.family.running = 0 := by
  obtain ⟨pc, ⟨running, zombies, pending, handling⟩, fates⟩ := s
  induction running generalizing zombies pending with
  | zero => exact ⟨_, .refl _, rfl, rfl, rfl⟩
  | succ n ih =>
    obtain ⟨t, hleads, hrest⟩ := ih (zombies + 1) style.reaps
    have hstep : (server style limit).step ⟨pc, ⟨n + 1, zombies, pending, handling⟩, fates⟩ .exit =
        some ⟨pc, ⟨n, zombies + 1, style.reaps, handling⟩, fates⟩ := rfl
    exact ⟨t, .step hstep hleads, hrest⟩

/-- The handler waits for all zombies, and returns. -/
theorem leads_waits {pc : Pc} (halive : pc.alive = true) (zombies : ℕ) (pending : Bool) (fates : List Fate) :
    (server style limit).Leads ⟨pc, ⟨0, zombies, pending, true⟩, fates⟩ ⟨pc, ⟨0, 0, pending, false⟩, fates⟩ := by
  induction zombies with
  | zero => exact .single (e := .waited) (if_pos halive)
  | succ n ih => exact .step (e := .waited) (if_pos halive) ih

/-- **Every place can become free.** -/
theorem leads_free (hreaps : style.reaps = true) (hs : (server style limit).Reachable s)
    (halive : s.pc.alive = true) :
    ∃ t, (server style limit).Leads s t ∧ t.pc = s.pc ∧ t.fates = s.fates ∧ t.places = 0 ∧
      t.family.handling = false := by
  obtain ⟨t, hleads, hpc, hfates, hrunning⟩ := leads_exits style limit s
  have hreach := hleads.reachable hs
  obtain ⟨pc, ⟨running, zombies, pending, handling⟩, fates⟩ := t
  dsimp only at hpc hfates hrunning
  subst hpc hfates hrunning
  cases handling with
  | true => exact ⟨_, hleads.trans (leads_waits halive zombies pending _), rfl, rfl, rfl, rfl⟩
  | false =>
    cases pending with
    | true =>
      have hdeliver : (server style limit).step ⟨s.pc, ⟨0, zombies, true, false⟩, s.fates⟩ .deliver =
          some ⟨s.pc, ⟨0, zombies, false, true⟩, s.fates⟩ := if_pos halive
      exact ⟨_, hleads.trans (.step hdeliver (leads_waits halive zombies false _)), rfl, rfl, rfl, rfl⟩
    | false =>
      obtain rfl : zombies = 0 := no_zombie hreaps hreach ⟨rfl, rfl⟩
      exact ⟨_, hleads, rfl, rfl, rfl, rfl⟩

/-- Where there is a place, one more connection can be served. -/
theorem leads_serve (style : Style) (halive : s.pc.alive = true) (hhandling : s.family.handling = false)
    (hplace : s.places < limit) :
    ∃ t, (server style limit).Leads s t ∧ t.pc = .accept ∧ t.family.handling = false ∧
      t.served = s.served + 1 := by
  obtain ⟨pc, family, fates⟩ := s
  dsimp only at halive hhandling
  have hfork : ∃ t, (server style limit).Leads ⟨.fork, family, fates⟩ t ∧ t.pc = .accept ∧
      t.family.handling = false ∧ t.served = fates.count .served + 1 := by
    have hforked : (server style limit).step ⟨.fork, family, fates⟩ .forked =
        some ⟨.close, { family with running := family.running + 1 }, fates ++ [.served]⟩ :=
      (if_pos hplace).trans (if_pos ⟨rfl, hhandling⟩)
    refine ⟨_, .step hforked (.single (e := .close) (if_pos ⟨rfl, hhandling⟩)), rfl, hhandling, ?_⟩
    simp [Server.served]
  have haccept : (server style limit).step ⟨.accept, family, fates⟩ .accepted = some ⟨.fork, family, fates⟩ :=
    if_pos ⟨rfl, hhandling⟩
  cases pc with
  | fork => exact hfork
  | accept =>
    obtain ⟨t, hleads, hrest⟩ := hfork
    exact ⟨t, .step haccept hleads, hrest⟩
  | close =>
    obtain ⟨t, hleads, hrest⟩ := hfork
    exact ⟨t, .step (e := .close) (if_pos ⟨rfl, hhandling⟩) (.step haccept hleads), hrest⟩
  | exited error => cases halive

end Leads

/-! ## The main results -/

/-- A server that never waits can get to where all places are taken. -/
theorem leads_full {style : Style} {limit : ℕ} {s : Server} (hreaps : style.reaps = false)
    (hs : (server style limit).Reachable s) (halive : s.pc.alive = true) :
    ∃ t, (server style limit).Leads s t ∧ t.pc.alive = true ∧ t.served = limit := by
  obtain ⟨⟨-, hhandling⟩, hserved, hle⟩ := unreaped hreaps hs
  -- by induction on the places that are left
  obtain ⟨n, hn⟩ := Nat.exists_eq_add_of_le hle
  rw [← hserved] at hn
  induction n generalizing s with
  | zero => exact ⟨s, .refl s, halive, hn.symm⟩
  | succ n ih =>
    have hplace : s.places < limit := by omega
    obtain ⟨t, hleads, hpc, -, hnext⟩ := leads_serve style halive hhandling hplace
    have ht := hleads.reachable hs
    obtain ⟨⟨-, hhandling'⟩, hserved', hle'⟩ := unreaped hreaps ht
    obtain ⟨u, hleads', hu⟩ := ih ht (by rw [hpc]; rfl) hhandling' hserved' hle' (by omega)
    exact ⟨u, hleads.trans hleads', hu⟩

/-- **A server keeps serving exactly if it waits for its children**, however much room there is. -/
theorem serves_on_iff (style : Style) (room : ℕ) : KeepsServing style (room + 1) ↔ style.reaps = true := by
  constructor
  · intro hserves
    by_contra hnot
    have hreaps : style.reaps = false := Bool.eq_false_iff.mpr hnot
    obtain ⟨s, hleads, halive, hfull⟩ := leads_full hreaps (s := .start) .init rfl
    have hs := hleads.reachable .init
    obtain ⟨t, hleads', hmore⟩ := hserves s hs halive
    obtain ⟨-, hserved, hle⟩ := unreaped hreaps (hleads'.reachable hs)
    omega
  · intro hreaps s hs halive
    obtain ⟨t, hleads, hpc, hfates, hfree, hhandling⟩ := leads_free hreaps hs halive
    have hplace : t.places < room + 1 := hfree ▸ Nat.succ_pos room
    obtain ⟨u, hleads', -, -, hserved⟩ := leads_serve style (hpc ▸ halive) hhandling hplace
    have hsame : t.served = s.served := congrArg (List.count Fate.served) hfates
    exact ⟨u, hleads.trans hleads', hsame ▸ hserved⟩

/-- In every run at most as many connections are served as there are places, and as many can be.  Behind that every
connection is turned away, one more can always come, and `accept` alone can end the server. -/
def WearsOut (style : Style) (limit : ℕ) : Prop :=
  ∀ s, (server style limit).Reachable s →
    s.served ≤ limit ∧
    (s.pc.alive = true → ∃ t, (server style limit).Leads s t ∧ t.served = limit) ∧
    (s.served = limit →
      ∀ t, (server style limit).Leads s t → ∃ k, t.fates = s.fates ++ List.replicate k .turnedAway) ∧
    (s.pc.alive = true → ∃ t, (server style limit).Leads s t ∧ t.fates = s.fates ++ [.turnedAway]) ∧
    (∀ error, s.pc = .exited error → error = "accept")

/-- A connection is turned away. -/
theorem leads_turnedAway {style : Style} {limit : ℕ} {s : Server} (halive : s.pc.alive = true)
    (hhandling : s.family.handling = false) :
    ∃ t, (server style limit).Leads s t ∧ t.fates = s.fates ++ [.turnedAway] := by
  obtain ⟨pc, family, fates⟩ := s
  dsimp only at halive hhandling
  have hfork : ∃ t, (server style limit).Leads ⟨.fork, family, fates⟩ t ∧ t.fates = fates ++ [.turnedAway] :=
    ⟨_, .single (e := .forkFails) (if_pos ⟨rfl, hhandling⟩), rfl⟩
  have haccept : (server style limit).step ⟨.accept, family, fates⟩ .accepted = some ⟨.fork, family, fates⟩ :=
    if_pos ⟨rfl, hhandling⟩
  obtain ⟨t, hleads, hfates⟩ := hfork
  cases pc with
  | fork => exact ⟨t, hleads, hfates⟩
  | accept => exact ⟨t, .step haccept hleads, hfates⟩
  | close => exact ⟨t, .step (e := .close) (if_pos ⟨rfl, hhandling⟩) (.step haccept hleads), hfates⟩
  | exited error => cases halive

/-- A server that goes on behind a `fork` that failed is ended by `accept` alone. -/
theorem exited_accept {style : Style} {limit : ℕ} {s : Server} (hexits : style.exits = false)
    (hs : (server style limit).Reachable s) {error : String} (hpc : s.pc = .exited error) : error = "accept" := by
  refine (server style limit).invariant (P := fun s => ∀ error, s.pc = .exited error → error = "accept") ?_ ?_ hs
    error hpc
  · intro error hpc
    cases hpc
  intro s e s' _ ih hstep error hpc
  cases e with
  | acceptFails eintr =>
    obtain ⟨-, rfl⟩ := call_eq.mp hstep
    cases eintr with
    | true => exact ih error hpc
    | false => exact (Pc.exited.inj hpc).symm
  | accepted | close =>
    obtain ⟨-, rfl⟩ := call_eq.mp hstep
    cases hpc
  | forked =>
    simp only [server, Server.step] at hstep
    split_ifs at hstep
    obtain ⟨-, rfl⟩ := call_eq.mp hstep
    cases hpc
  | forkFails =>
    obtain ⟨-, rfl⟩ := call_eq.mp hstep
    simp [hexits] at hpc
  | exit =>
    obtain ⟨f, -, rfl⟩ := Option.map_eq_some_iff.mp hstep
    exact ih error hpc
  | deliver | waited =>
    simp only [server, Server.step] at hstep
    split_ifs at hstep
    obtain ⟨f, -, rfl⟩ := Option.map_eq_some_iff.mp hstep
    exact ih error hpc

/-- **`basic_tcp_server` serves as many connections as it has places for children**, and turns away the others. -/
theorem basicTcpServer_wearsOut (limit : ℕ) : WearsOut basicTcpServer limit := by
  intro s hs
  obtain ⟨⟨-, hhandling⟩, hserved, hle⟩ := unreaped rfl hs
  refine ⟨hserved ▸ hle, fun halive => ?_, fun hfull t hleads => ?_, fun halive => leads_turnedAway halive hhandling,
    fun error => exited_accept rfl hs⟩
  · obtain ⟨t, hleads, -, hfull⟩ := leads_full rfl hs halive
    exact ⟨t, hleads, hfull⟩
  · obtain ⟨es, hes⟩ := hleads
    refine ((server basicTcpServer limit).runFrom_induction es
      (P := fun t => (server basicTcpServer limit).Reachable t ∧
        ∃ k, t.fates = s.fates ++ List.replicate k .turnedAway) ?_ ⟨hs, 0, by simp⟩ hes).2
    rintro t e t' - ⟨ht, k, hk⟩ hstep
    refine ⟨.step _ ht hstep, ?_⟩
    rcases step_cases hstep with ⟨-, hfates | hfates⟩ | ⟨-, hplace, -, -⟩ | ⟨hfates, -⟩
    · exact ⟨k, hfates ▸ hk⟩
    · exact ⟨k + 1, by rw [hfates, hk, List.replicate_succ', List.append_assoc]⟩
    · -- all places are taken
      obtain ⟨-, hserved', -⟩ := unreaped rfl ht
      have hcount : t.served = s.served := by simp [Server.served, hk, List.count_replicate]
      omega
    · exact ⟨k, hfates ▸ hk⟩

end NetProg.ForkServer
