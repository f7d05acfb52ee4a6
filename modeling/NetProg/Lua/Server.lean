/-
# NetProg.Lua.Server -- the client table of `Lua/server.lua`.

A client is put at `client_tab[conn_count]`, and `conn_count` only grows; when a client has disconnected it
is closed and taken out with `table.remove (client_tab, conn_count)`, which moves those behind it down.  So
the table gets holes, and `#client_tab`, up to which `table.remove` moves, may be any of its borders.

The loop over `pairs (client_tab)` changes the table while it runs.  It is modelled as visits of keys that
are in use, in any order and any number, which covers what `pairs` may do then.  A client is the number with
which it was accepted.  What a closed socket does in `select` is nothing: it is never readable.
-/
import Mathlib.Data.List.Basic
import NetProg.Base.LuaTable
import NetProg.Base.System

namespace NetProg.LuaServer

open LuaTable (Version)

/-- At the start of the outer loop, in the loop over `pairs`, or ended by an error. -/
inductive Pc where
  | top
  | pairs
  | raised
  deriving DecidableEq, Repr

structure Srv where
  connCount : ℕ
  clientTab : LuaTable ℕ
  closed : List ℕ
  pc : Pc

/-- What `accept` returns, a client or nil; a visit of a client that has not disconnected; one of a client
that has, where `#client_tab` is `border`; the end of the loop over `pairs`; and an error in it, where a
reply could not be sent. -/
inductive Ev where
  | accept (conn : Bool)
  | visit (key : ℕ)
  | disconnect (key border : ℕ)
  | endPairs
  | raise
  deriving DecidableEq, Repr

namespace Srv

def start : Srv := ⟨0, LuaTable.empty, [], .top⟩

/-- `conn_count = conn_count + 1; client_tab[conn_count] = conn`. -/
def store (s : Srv) : Srv :=
  { s with
    connCount := s.connCount + 1
    clientTab := s.clientTab.set (s.connCount + 1) (s.connCount + 1) }

/-- `table.remove (client_tab, conn_count); client:close ()`. -/
def disconnect (v : Version) (s : Srv) (key border client : ℕ) : Srv :=
  match s.clientTab.remove v key border with
  | some clientTab => { s with clientTab := clientTab, closed := client :: s.closed }
  | none => { s with pc := .raised }

def step (v : Version) (s : Srv) : Ev → Option Srv
  | .accept conn =>
    if s.pc = .top then some { if conn then s.store else s with pc := .pairs } else none
  | .visit key => if s.pc = .pairs ∧ (s.clientTab key).isSome = true then some s else none
  | .disconnect key border =>
    match s.clientTab key with
    | some client =>
      if s.pc = .pairs ∧ client ∉ s.closed ∧ s.clientTab.Border border then
        some (s.disconnect v key border client)
      else none
    | none => none
  | .endPairs => if s.pc = .pairs then some { s with pc := .top } else none
  | .raise => if s.pc = .pairs then some { s with pc := .raised } else none

end Srv

def server (v : Version) : System Srv Ev := ⟨Srv.start, Srv.step v⟩

/-! ## The table -/

/-- Each client that was accepted and not closed stands in the table at one place, and no other does. -/
structure Tidy (s : Srv) : Prop where
  once : ∀ client, 1 ≤ client → client ≤ s.connCount → client ∉ s.closed →
    ∃! key, s.clientTab key = some client
  live : ∀ key client, s.clientTab key = some client → client ∉ s.closed ∧ client ≤ s.connCount

/-- `#client_tab` reaches the client that is removed, or `table.remove` does not need it to. -/
def Reaches (v : Version) (_ : Srv) (e : Ev) : Prop :=
  match e with
  | .disconnect key border => v = .lua52 ∨ key ≤ border
  | _ => True

instance (v : Version) (s : Srv) (e : Ev) : Decidable (Reaches v s e) := by
  unfold Reaches
  split <;> infer_instance

/-- What holds of the table in every run: the keys in use are at most `conn_count`, no client stands at two
of them, and only clients that were closed may be missing. -/
structure Sound (s : Srv) : Prop where
  within : s.clientTab.Within s.connCount
  once : s.clientTab.Once
  accepted : ∀ client, s.clientTab.Has client → client ≤ s.connCount
  closed : ∀ client ∈ s.closed, client ≤ s.connCount
  kept : ∀ client, 1 ≤ client → client ≤ s.connCount → client ∉ s.closed → s.clientTab.Has client

/-- A client that was closed is still in the table. -/
def Stale (s : Srv) : Prop := ∃ client ∈ s.closed, s.clientTab.Has client

variable {v : Version} {s s' : Srv}

theorem Sound.tidy (h : Sound s) (hstale : ¬ Stale s) : Tidy s where
  once := by
    intro client hpos hle hopen
    obtain ⟨key, hkey⟩ := h.kept client hpos hle hopen
    exact ⟨key, hkey, fun key' hkey' => h.once key' key client hkey' hkey⟩
  live := by
    intro key client hkey
    exact ⟨fun hclosed => hstale ⟨client, hclosed, key, hkey⟩, h.accepted client ⟨key, hkey⟩⟩

theorem Stale.not_tidy (h : Stale s) : ¬ Tidy s := by
  obtain ⟨client, hclosed, key, hkey⟩ := h
  exact fun htidy => (htidy.live key client hkey).1 hclosed

theorem Sound.start : Sound Srv.start where
  within := by rintro k x ⟨⟩
  once := by rintro k k' x ⟨⟩
  accepted := by rintro client ⟨k, ⟨⟩⟩
  closed := by simp [Srv.start]
  kept := by
    intro client hpos hle
    have hzero : client ≤ 0 := hle
    omega

/-- The table and the clients are as they were. -/
theorem Sound.goto (h : Sound s) (pc : Pc) : Sound { s with pc := pc } :=
  ⟨h.within, h.once, h.accepted, h.closed, h.kept⟩

theorem Sound.store (h : Sound s) : Sound s.store where
  within := h.within.set _
  once := by
    apply h.once.set
    intro hhas
    have hle := h.accepted _ hhas
    omega
  accepted := by
    intro client hhas
    have hhas : (s.clientTab.set (s.connCount + 1) (s.connCount + 1)).Has client := hhas
    rw [LuaTable.set_has_iff h.within] at hhas
    rcases hhas with hhas | rfl
    · exact Nat.le_succ_of_le (h.accepted client hhas)
    · exact Nat.le_refl _
  closed := fun client hclosed => Nat.le_succ_of_le (h.closed client hclosed)
  kept := by
    intro client hpos hle hopen
    have hle : client ≤ s.connCount + 1 := hle
    show (s.clientTab.set (s.connCount + 1) (s.connCount + 1)).Has client
    rw [LuaTable.set_has_iff h.within]
    rcases Nat.lt_or_eq_of_le hle with hlt | rfl
    · exact .inl (h.kept client hpos (Nat.le_of_lt_succ hlt) hopen)
    · exact .inr rfl

/-- A client that is taken out is the only one that goes. -/
theorem Sound.disconnect (h : Sound s) {key border client : ℕ}
    (hkey : s.clientTab key = some client) : Sound (s.disconnect v key border client) := by
  obtain ⟨hone, -⟩ := h.within key client hkey
  have hle : client ≤ s.connCount := h.accepted client ⟨key, hkey⟩
  have hclosed : ∀ c ∈ client :: s.closed, c ≤ s.connCount := by
    rw [List.forall_mem_cons]
    exact ⟨hle, h.closed⟩
  unfold Srv.disconnect
  split
  · next t ht =>
    rcases LuaTable.remove_cases hone ht with ⟨rfl, hpos, -⟩ | ⟨rfl, -, -⟩
    · refine ⟨h.within.removed hone hpos, h.once.removed hpos, ?_, hclosed, ?_⟩
      · intro c hhas
        obtain ⟨k, -, hk⟩ := (LuaTable.removed_has_iff hpos).mp hhas
        exact h.accepted c ⟨k, hk⟩
      · intro c hc hcle hopen
        rw [List.mem_cons, not_or] at hopen
        obtain ⟨k, hk⟩ := h.kept c hc hcle hopen.2
        refine (LuaTable.removed_has_iff hpos).mpr ⟨k, ?_, hk⟩
        rintro rfl
        rw [hkey, Option.some.injEq] at hk
        exact hopen.1 hk.symm
    · refine ⟨h.within, h.once, h.accepted, hclosed, ?_⟩
      intro c hc hcle hopen
      rw [List.mem_cons, not_or] at hopen
      exact h.kept c hc hcle hopen.2
  · exact h.goto .raised

/-- A step goes elsewhere in the loop, stores a new client, or takes a client out. -/
theorem step_cases {e : Ev} (hstep : s.step v e = some s') :
    Reaches v s e ∧ (∃ pc, s' = { s with pc := pc }) ∨
    Reaches v s e ∧ s' = { s.store with pc := .pairs } ∨
    ∃ key border client, e = .disconnect key border ∧ s.clientTab key = some client ∧
      client ∉ s.closed ∧ s' = s.disconnect v key border client := by
  cases e with
  | accept conn =>
    simp only [Srv.step] at hstep
    split_ifs at hstep with hpc hconn
    · cases hstep
      exact .inr (.inl ⟨trivial, rfl⟩)
    · cases hstep
      exact .inl ⟨trivial, .pairs, rfl⟩
  | visit key =>
    simp only [Srv.step] at hstep
    split_ifs at hstep
    cases hstep
    exact .inl ⟨trivial, s.pc, rfl⟩
  | disconnect key border =>
    simp only [Srv.step] at hstep
    split at hstep
    · next client hkey =>
      split_ifs at hstep with hmay
      cases hstep
      exact .inr (.inr ⟨key, border, client, rfl, hkey, hmay.2.1, rfl⟩)
    · cases hstep
  | endPairs =>
    simp only [Srv.step] at hstep
    split_ifs at hstep
    cases hstep
    exact .inl ⟨trivial, .top, rfl⟩
  | raise =>
    simp only [Srv.step] at hstep
    split_ifs at hstep
    cases hstep
    exact .inl ⟨trivial, .raised, rfl⟩

theorem Sound.step (h : Sound s) {e : Ev} (hstep : s.step v e = some s') : Sound s' := by
  rcases step_cases hstep with ⟨-, pc, rfl⟩ | ⟨-, rfl⟩ | ⟨key, border, client, -, hkey, -, rfl⟩
  · exact h.goto pc
  · exact h.store.goto .pairs
  · exact h.disconnect hkey

theorem Sound.reachable (h : (server v).Reachable s) : Sound s := by
  refine (server v).invariant (P := Sound) .start ?_ h
  intro s e s' _ hs hstep
  exact hs.step hstep

/-! ## Closed clients in the table -/

/-- `table.remove` takes the client out. -/
theorem Sound.stale_removed_iff (h : Sound s) {key border client : ℕ} (hkey : s.clientTab key = some client)
    (hopen : client ∉ s.closed) (hpos : key ≤ border + 1) :
    Stale { s with clientTab := s.clientTab.removed key border, closed := client :: s.closed } ↔ Stale s := by
  constructor
  · rintro ⟨c, hc, hhas⟩
    have hne : c ≠ client := by
      rintro rfl
      exact LuaTable.not_removed_has h.once hpos hkey hhas
    obtain ⟨k, -, hk⟩ := (LuaTable.removed_has_iff hpos).mp hhas
    exact ⟨c, List.mem_of_ne_of_mem hne hc, k, hk⟩
  · rintro ⟨c, hc, k, hk⟩
    refine ⟨c, List.mem_cons_of_mem _ hc, (LuaTable.removed_has_iff hpos).mpr ⟨k, ?_, hk⟩⟩
    rintro rfl
    rw [hkey, Option.some.injEq] at hk
    exact hopen (hk ▸ hc)

theorem Sound.stale_store_iff (h : Sound s) : Stale s.store ↔ Stale s := by
  constructor
  · rintro ⟨client, hclosed, hhas⟩
    rcases (LuaTable.set_has_iff h.within).mp hhas with hwas | rfl
    · exact ⟨client, hclosed, hwas⟩
    · have hle := h.closed _ hclosed
      omega
  · rintro ⟨client, hclosed, hhas⟩
    exact ⟨client, hclosed, (LuaTable.set_has_iff h.within).mpr (.inl hhas)⟩

/-- What `disconnect` does to the closed clients in the table: nothing, when the border is reached; else the
client becomes one of them. -/
theorem Sound.stale_disconnect_iff (h : Sound s) {key border client : ℕ}
    (hkey : s.clientTab key = some client) (hopen : client ∉ s.closed) :
    Stale (s.disconnect v key border client) ↔ Stale s ∨ ¬ Reaches v s (.disconnect key border) := by
  obtain ⟨hone, -⟩ := h.within key client hkey
  unfold Srv.disconnect
  split
  · next t ht =>
    rcases LuaTable.remove_cases hone ht with ⟨rfl, hpos, hreaches⟩ | ⟨rfl, rfl, hlt⟩
    · rw [h.stale_removed_iff hkey hopen hpos]
      exact ⟨.inl, fun hor => hor.resolve_right (not_not_intro hreaches)⟩
    · -- up to Lua 5.1, and behind the border
      have hnot : ¬ Reaches .lua51 s (.disconnect key border) := by
        rintro (hv | hle)
        · cases hv
        · omega
      exact ⟨fun _ => .inr hnot, fun _ => ⟨client, List.mem_cons_self, key, hkey⟩⟩
  · next hnone =>
    have hreaches : Reaches v s (.disconnect key border) := .inl (LuaTable.lua52_of_remove hnone)
    exact ⟨.inl, fun hor => hor.resolve_right (not_not_intro hreaches)⟩

/-- A step leaves a closed client in the table if and only if there was one, or it closes a client that is
behind the border. -/
theorem Sound.stale_step_iff (h : Sound s) {e : Ev} (hstep : s.step v e = some s') :
    Stale s' ↔ Stale s ∨ ¬ Reaches v s e := by
  rcases step_cases hstep with
    ⟨hreaches, pc, rfl⟩ | ⟨hreaches, rfl⟩ | ⟨key, border, client, rfl, hkey, hopen, rfl⟩
  · rw [or_iff_left (not_not_intro hreaches)]
    rfl
  · rw [or_iff_left (not_not_intro hreaches)]
    exact h.stale_store_iff
  · exact h.stale_disconnect_iff hkey hopen

/-- A closed client in the table stays there. -/
theorem Stale.runFrom (hs : Sound s) (h : Stale s) (es : List Ev) (hrun : (server v).runFrom s es = some s') :
    Stale s' := by
  have hboth : Sound s' ∧ Stale s' := by
    refine (server v).runFrom_induction (P := fun s => Sound s ∧ Stale s) es ?_ ⟨hs, h⟩ hrun
    intro s e s' _ hs hstep
    exact ⟨hs.1.step hstep, (hs.1.stale_step_iff hstep).mpr (.inl hs.2)⟩
  exact hboth.2

theorem not_stale (h : ((server v).restrict (Reaches v)).Reachable s) : ¬ Stale s := by
  refine (server v).restrict_invariant (P := fun s => ¬ Stale s) ?_ ?_ h
  · rintro ⟨client, hclosed, -⟩
    cases hclosed
  · intro s e s' hr hs hreaches hstep
    have hsound := Sound.reachable hr
    rw [hsound.stale_step_iff hstep, not_or, not_not]
    exact ⟨hs, hreaches⟩

/-- **In a run in which `#client_tab` always reaches the client that is removed, the table holds exactly the
clients that have not disconnected.**  One removal behind the border leaves a closed client in the table for
the rest of the run. -/
theorem clientTab_tidy (v : Version) :
    (∀ s, ((server v).restrict (Reaches v)).Reachable s → s.pc = .top → Tidy s) ∧
    (∀ s e s', (server v).Reachable s → ¬ Reaches v s e → (server v).step s e = some s' →
      ∀ es t, (server v).runFrom s' es = some t → ¬ Tidy t) := by
  constructor
  · intro s h _
    have hsound := Sound.reachable ((server v).reachable_of_restrict h)
    exact hsound.tidy (not_stale h)
  · intro s e s' h hnot hstep es t hrun
    have hs' := (Sound.reachable h).step hstep
    have hstale : Stale s' := ((Sound.reachable h).stale_step_iff hstep).mpr (.inr hnot)
    exact (hstale.runFrom hs' es hrun).not_tidy

/-- Two clients come and one goes; then one goes that stands at 2, where `#` is 0. -/
theorem clientTab_tidy_two :
    (∃ s, Tidy s ∧ s.connCount = 2 ∧ s.closed = [1]) ∧
    ∃ t, (server .lua51).Reachable t ∧ t.pc = .pairs ∧ ¬ Tidy t := by
  constructor
  · obtain ⟨s, hs, hp⟩ := ((server .lua51).restrict (Reaches .lua51)).exists_reachable_of_run
      [.accept true, .endPairs, .accept true, .disconnect 1 2, .visit 1, .endPairs]
      (fun s => s.pc = .top ∧ s.connCount = 2 ∧ s.closed = [1]) (by decide)
    rw [decide_eq_true_iff] at hp
    exact ⟨s, (clientTab_tidy .lua51).1 s hs hp.1, hp.2⟩
  · have htab : (server .lua51).runFrom Srv.start [.accept true, .disconnect 1 1, .endPairs, .accept true] =
        some ⟨2, ((LuaTable.empty.set 1 1).removed 1 1).set 2 2, [1], .pairs⟩ := rfl
    have hs := (server .lua51).reachable_of_run _ htab
    have hstep : (server .lua51).step ⟨2, ((LuaTable.empty.set 1 1).removed 1 1).set 2 2, [1], .pairs⟩
        (.disconnect 2 0) = some ⟨2, ((LuaTable.empty.set 1 1).removed 1 1).set 2 2, [2, 1], .pairs⟩ := rfl
    exact ⟨_, .step _ hs hstep, rfl, (clientTab_tidy .lua51).2 _ _ _ hs (by decide) hstep [] _ rfl⟩

/-- The second client has disconnected, and is in the table when the next turn of the loop starts. -/
theorem closed_in_clientTab : ∃ s, (server .lua51).Reachable s ∧ s.pc = .top ∧ ¬ Tidy s := by
  obtain ⟨s, hs, hp⟩ := (server .lua51).exists_reachable_of_run
    [.accept true, .disconnect 1 1, .endPairs, .accept true, .disconnect 2 0, .endPairs]
    (fun s => s.pc = .top ∧ 2 ∈ s.closed ∧ s.clientTab 2 = some 2) (by decide)
  rw [decide_eq_true_iff] at hp
  obtain ⟨htop, hclosed, hkey⟩ := hp
  have hstale : Stale s := ⟨2, hclosed, 2, hkey⟩
  exact ⟨s, hs, htop, hstale.not_tidy⟩

end NetProg.LuaServer
