/-
# NetProg.Lua.PairsLoop -- one traversal of the loop over `pairs (client_tab)`.

`next` goes through the keys in an order of the table's own, the array part upwards, and passes over those
that are nil by then.  `table.remove` assigns only to keys in use, which is allowed during a traversal, and so
does not change that order; but it moves the clients behind the removed one to keys that may be done already.

`Pairs gone fails keys s seen t` is the rest of a traversal, with the keys that `next` has yet to come to: it is
a run of the server (`Pairs.exists_run`) in which every client at a key is looked at.  One that is in `gone` has
closed and is taken out.  One that is in `fails` has a line pending and does not take the reply: an
`assert (client:send (...))` raises, and the traversal ends there.  On a table without holes this is a `walk`
over a list up to the first such client (`pairs_iff`).
-/
import NetProg.Base.ListWalk
import NetProg.Lua.Server

namespace NetProg.LuaServer

open LuaTable (Version ofList)

/-- The loop, from a key on: what is nil is passed over, and each client that is there is `seen`. -/
inductive Pairs (v : Version) (gone fails : ℕ → Bool) : List ℕ → Srv → List ℕ → Srv → Prop
  | done {s : Srv} : Pairs v gone fails [] s [] s
  | pass {s t : Srv} {key : ℕ} {keys seen : List ℕ} : s.clientTab key = none →
      Pairs v gone fails keys s seen t → Pairs v gone fails (key :: keys) s seen t
  | visit {s s' t : Srv} {key client : ℕ} {keys seen : List ℕ} : s.clientTab key = some client →
      gone client = false → fails client = false → s.step v (.visit key) = some s' →
      Pairs v gone fails keys s' seen t → Pairs v gone fails (key :: keys) s (client :: seen) t
  | disconnect {s s' t : Srv} {key client : ℕ} {keys seen : List ℕ} (border : ℕ) :
      s.clientTab key = some client → gone client = true →
      s.step v (.disconnect key border) = some s' →
      Pairs v gone fails keys s' seen t → Pairs v gone fails (key :: keys) s (client :: seen) t
  -- the error leaves the loop, and the program
  | raise {s t : Srv} {key client : ℕ} {keys : List ℕ} : s.clientTab key = some client →
      gone client = false → fails client = true → s.step v .raise = some t →
      Pairs v gone fails (key :: keys) s [client] t

variable {v : Version} {gone fails : ℕ → Bool} {s s' t : Srv} {keys seen clients : List ℕ} {k client : ℕ}

/-- The reply to this client ends the loop: `receive` has a line of it, and a `send` fails. -/
def Raises (gone fails : ℕ → Bool) (client : ℕ) : Bool := !gone client && fails client

/-- A traversal is a run of the server. -/
theorem Pairs.exists_run (h : Pairs v gone fails keys s seen t) : ∃ es, (server v).runFrom s es = some t := by
  induction h with
  | done => exact ⟨[], rfl⟩
  | pass _ _ ih => exact ih
  | @visit _ _ _ key _ _ _ _ _ _ hstep _ ih =>
    obtain ⟨es, hes⟩ := ih
    exact ⟨.visit key :: es, (server v).runFrom_cons hstep hes⟩
  | @disconnect _ _ _ key _ _ _ border _ _ hstep _ ih =>
    obtain ⟨es, hes⟩ := ih
    exact ⟨.disconnect key border :: es, (server v).runFrom_cons hstep hes⟩
  | raise _ _ _ hstep => exact ⟨[.raise], (server v).runFrom_cons hstep rfl⟩

/-- The loop is running, the table has no holes and the clients in it are different ones, and none of those
that have closed was closed by the server before. -/
structure Contiguous (gone : ℕ → Bool) (s : Srv) (clients : List ℕ) : Prop where
  pc : s.pc = .pairs
  clientTab : s.clientTab = ofList clients
  nodup : clients.Nodup
  gone : ∀ client ∈ clients, gone client = true → client ∉ s.closed

theorem Contiguous.at (h : Contiguous gone s clients) (hk : clients[k]? = some client) :
    s.clientTab (k + 1) = some client := by
  rw [h.clientTab, LuaTable.ofList_succ, hk]

theorem Contiguous.visit (h : Contiguous gone s clients) (hk : clients[k]? = some client) :
    s.step v (.visit (k + 1)) = some s := by
  simp only [Srv.step, h.at hk, h.pc, Option.isSome_some, and_self, if_true]

theorem Contiguous.raise (h : Contiguous gone s clients) : s.step v .raise = some { s with pc := .raised } := by
  simp only [Srv.step, h.pc, if_true]

/-- The border of a table without holes is its length, and the removal leaves no hole. -/
theorem Contiguous.disconnect (h : Contiguous gone s clients) (hk : clients[k]? = some client)
    (hgone : gone client = true) {border : ℕ} (hstep : s.step v (.disconnect (k + 1) border) = some s') :
    Contiguous gone s' (clients.eraseIdx k) := by
  have hlt := (List.getElem?_eq_some_iff.mp hk).1
  simp only [Srv.step, h.at hk] at hstep
  split_ifs at hstep with hmay
  obtain ⟨-, hopen, hborder⟩ := hmay
  rw [h.clientTab, LuaTable.border_ofList_iff] at hborder
  subst hborder
  simp only [Srv.disconnect, h.clientTab, LuaTable.remove_ofList v hlt, Option.some.injEq] at hstep
  subst hstep
  refine ⟨h.pc, rfl, h.nodup.sublist (List.eraseIdx_sublist clients k), ?_⟩
  intro c hc hcgone
  obtain ⟨i, hi, hci⟩ := List.mem_eraseIdx_iff_getElem?.mp hc
  rw [List.mem_cons, not_or]
  refine ⟨?_, h.gone c (List.mem_of_getElem? hci) hcgone⟩
  rintro rfl
  exact hi ((List.getElem?_inj (List.getElem?_eq_some_iff.mp hci).1 h.nodup).mp (hci.trans hk.symm))

theorem Contiguous.exists_disconnect (h : Contiguous gone s clients) (hk : clients[k]? = some client)
    (hgone : gone client = true) :
    ∃ s', s.step v (.disconnect (k + 1) clients.length) = some s' := by
  have hborder : s.clientTab.Border clients.length := by
    rw [h.clientTab]
    exact LuaTable.border_ofList_iff.mpr rfl
  have hmay : s.pc = .pairs ∧ client ∉ s.closed ∧ s.clientTab.Border clients.length :=
    ⟨h.pc, h.gone client (List.mem_of_getElem? hk) hgone, hborder⟩
  simp only [Srv.step, h.at hk, if_pos hmay]
  exact ⟨_, rfl⟩

/-- **A traversal of a table without holes is a walk over the list of its clients**, up to the first reply that
fails. -/
theorem pairs_iff (h : Contiguous gone s clients) (ks : List ℕ) :
    (∃ t, Pairs v gone fails (ks.map (· + 1)) s seen t) ↔
      seen = upTo (Raises gone fails) (walk gone ks clients) := by
  induction ks generalizing s clients seen with
  | nil =>
    constructor
    · rintro ⟨t, hpairs⟩
      cases hpairs
      rfl
    · rintro rfl
      exact ⟨s, .done⟩
  | cons k ks ih =>
    simp only [List.map_cons, walk]
    cases hk : clients[k]? with
    | none =>
      have hnone : s.clientTab (k + 1) = none := by
        rw [h.clientTab, LuaTable.ofList_succ, hk]
      simp only
      rw [← ih h]
      constructor
      · rintro ⟨t, hpairs⟩
        cases hpairs with
        | pass _ hrest => exact ⟨t, hrest⟩
        | visit hat | disconnect _ hat | raise hat => simp [hnone] at hat
      · rintro ⟨t, hrest⟩
        exact ⟨t, .pass hnone hrest⟩
    | some client =>
      have hsome := h.at hk
      simp only [upTo]
      constructor
      · rintro ⟨t, hpairs⟩
        cases hpairs with
        | pass hnone => simp [hsome] at hnone
        | visit hat hstays htakes hstep hrest =>
          rw [hsome, Option.some.injEq] at hat
          subst hat
          rw [h.visit hk, Option.some.injEq] at hstep
          subst hstep
          rw [(ih h).mp ⟨t, hrest⟩, if_neg (by simp [Raises, htakes]), if_neg (by simp [hstays])]
        | disconnect border hat hgone hstep hrest =>
          rw [hsome, Option.some.injEq] at hat
          subst hat
          rw [(ih (h.disconnect hk hgone hstep)).mp ⟨t, hrest⟩, if_neg (by simp [Raises, hgone]), if_pos hgone]
        | raise hat hstays hfails _ =>
          rw [hsome, Option.some.injEq] at hat
          subst hat
          rw [if_pos (by simp [Raises, hstays, hfails])]
      · rintro rfl
        by_cases hgone : gone client = true
        · obtain ⟨s', hstep⟩ := h.exists_disconnect (v := v) hk hgone
          obtain ⟨t, hrest⟩ := (ih (h.disconnect hk hgone hstep)).mpr rfl
          rw [if_neg (by simp [Raises, hgone]), if_pos hgone]
          exact ⟨t, .disconnect _ hsome hgone hstep hrest⟩
        · have hstays := Bool.eq_false_iff.mpr hgone
          by_cases hfails : fails client = true
          · rw [if_pos (by simp [Raises, hstays, hfails])]
            exact ⟨_, .raise hsome hstays hfails h.raise⟩
          · have htakes := Bool.eq_false_iff.mpr hfails
            obtain ⟨t, hrest⟩ := (ih h).mpr rfl
            rw [if_neg (by simp [Raises, htakes]), if_neg hgone]
            exact ⟨t, .visit hsome hstays htakes (h.visit hk) hrest⟩

/-- Every traversal sees each client of `clients` once, and there is one. -/
def SeesEachOnce (v : Version) (gone fails : ℕ → Bool) (order : List ℕ) (s : Srv) (clients : List ℕ) : Prop :=
  (∃ seen t, Pairs v gone fails order s seen t) ∧
    ∀ seen t, Pairs v gone fails order s seen t → ∀ client ∈ clients, seen.count client = 1

/-- Whenever the client at a key has closed, `next` has come to all keys behind it before. -/
def BehindFirst (gone : ℕ → Bool) (clients order : List ℕ) : Prop :=
  order.Pairwise fun key key' => ∀ client, ofList clients key = some client → gone client = true → key' < key

/-- Every client takes its reply, but for one at the last key that `next` comes to. -/
def RepliesTaken (gone fails : ℕ → Bool) (clients order : List ℕ) : Prop :=
  ∀ key ∈ order.dropLast, ∀ client, ofList clients key = some client →
    gone client = false → fails client = false

theorem sees_each_once_iff_walk (h : Contiguous gone s clients) (ks : List ℕ) :
    SeesEachOnce v gone fails (ks.map (· + 1)) s clients ↔
      ∀ client ∈ clients, (upTo (Raises gone fails) (walk gone ks clients)).count client = 1 := by
  constructor
  · rintro ⟨-, hall⟩
    obtain ⟨t, hpairs⟩ := (pairs_iff (v := v) h ks).mpr rfl
    exact hall _ t hpairs
  · intro hall
    obtain ⟨t, hpairs⟩ := (pairs_iff (v := v) h ks).mpr rfl
    refine ⟨⟨_, t, hpairs⟩, ?_⟩
    intro seen t hpairs
    rw [(pairs_iff h ks).mp ⟨t, hpairs⟩]
    exact hall

theorem replies_taken_iff (ks : List ℕ) : RepliesTaken gone fails clients (ks.map (· + 1)) ↔
    ∀ i ∈ ks.dropLast, ∀ client, clients[i]? = some client → Raises gone fails client = false := by
  unfold RepliesTaken
  rw [← List.map_dropLast, List.forall_mem_map]
  simp only [LuaTable.ofList_succ, Raises, Bool.and_eq_false_imp, Bool.not_eq_true']

theorem behind_first_iff (ks : List ℕ) :
    BehindFirst gone clients (ks.map (· + 1)) ↔ ks.Pairwise (MayFollow gone clients) := by
  unfold BehindFirst MayFollow
  rw [List.pairwise_map]
  simp only [LuaTable.ofList_succ, Nat.add_lt_add_iff_right]

/-- A permutation of the keys is one of the positions. -/
theorem exists_positions {order : List ℕ} {n : ℕ} (h : order.Perm (List.range' 1 n)) :
    ∃ ks : List ℕ, ks.Perm (List.range n) ∧ order = ks.map (· + 1) := by
  have hpos : ∀ key ∈ order, 1 ≤ key := by
    intro key hkey
    exact (List.mem_range'_1.mp (h.mem_iff.mp hkey)).1
  refine ⟨order.map (· - 1), ?_, ?_⟩
  · have hmap := h.map (· - 1)
    rw [List.range'_eq_map_range, List.map_map] at hmap
    refine hmap.trans (List.Perm.of_eq ?_)
    rw [List.map_congr_left (g := id) (by intro i _; simp), List.map_id]
  · rw [List.map_map]
    symm
    rw [List.map_congr_left (g := id), List.map_id]
    intro key hkey
    have h1 := hpos key hkey
    simp only [Function.comp_apply, id_eq]
    omega

/-- With the keys upwards: only the last client may have closed. -/
theorem behind_first_upwards_iff : BehindFirst gone clients (List.range' 1 clients.length) ↔
    ∀ client ∈ clients.dropLast, gone client = false := by
  have hkeys : List.range' 1 clients.length = (List.range clients.length).map (· + 1) := by
    rw [List.range'_eq_map_range]
    exact List.map_congr_left fun i _ => Nat.add_comm 1 i
  rw [hkeys, behind_first_iff, range_pairwise_iff]
  constructor
  · intro h client hclient
    obtain ⟨i, hi, rfl⟩ := List.mem_iff_getElem.mp hclient
    rw [List.length_dropLast] at hi
    rw [List.getElem_dropLast]
    by_contra hgone
    have hlast := h i _ (List.getElem?_eq_getElem (by omega)) (by simpa using hgone)
    omega
  · intro h i client hi hgone
    have hlt := (List.getElem?_eq_some_iff.mp hi).1
    by_contra hne
    have hfalse := h client (List.mem_iff_getElem?.mpr ⟨i, by
      rw [List.getElem?_dropLast, if_pos (by omega), hi]⟩)
    rw [hfalse] at hgone
    cases hgone

/-- Two clients have come, and the loop starts. -/
theorem exists_contiguous_two (v : Version) (gone : ℕ → Bool) :
    ∃ s, (server v).Reachable s ∧ Contiguous gone s [1, 2] := by
  refine ⟨⟨2, (LuaTable.empty.set 1 1).set 2 2, [], .pairs⟩,
    (server v).reachable_of_run [.accept true, .endPairs, .accept true] rfl, rfl, ?_, by decide, by simp⟩
  funext key
  rcases key with _ | _ | _ | key
  · rfl
  · rfl
  · rfl
  · simp [LuaTable.set, LuaTable.empty, LuaTable.ofList_succ]

/-- When at most the last client has closed, any order will do. -/
theorem behind_first_of_last {order : List ℕ} (horder : order.Perm (List.range' 1 clients.length))
    (hlast : ∀ client ∈ clients.dropLast, gone client = false) : BehindFirst gone clients order := by
  have hdup : order.Nodup := horder.nodup_iff.mpr List.nodup_range'
  apply hdup.imp_of_mem
  intro key key' hkey hkey' hne client hat hgone
  have hle := List.mem_range'_1.mp (horder.mem_iff.mp hkey)
  have hle' := List.mem_range'_1.mp (horder.mem_iff.mp hkey')
  obtain ⟨i, rfl⟩ : ∃ i, key = i + 1 := ⟨key - 1, by omega⟩
  rw [LuaTable.ofList_succ] at hat
  have hend : ¬ i < clients.length - 1 := by
    intro hi
    have hfalse := hlast client (List.mem_iff_getElem?.mpr ⟨i, by
      rw [List.getElem?_dropLast, if_pos hi, hat]⟩)
    rw [hfalse] at hgone
    cases hgone
  omega

/-- When every client takes its reply, any order will do; so it will for a single client. -/
theorem replies_taken_of_all {order : List ℕ} (horder : order.Perm (List.range' 1 clients.length))
    (hall : clients.length ≤ 1 ∨ ∀ client ∈ clients, gone client = false → fails client = false) :
    RepliesTaken gone fails clients order := by
  intro key hkey client hat hstays
  have hmem := horder.mem_iff.mp ((List.dropLast_sublist order).subset hkey)
  rcases hall with hone | hall
  · have hlength := List.length_pos_of_mem hkey
    rw [List.length_dropLast, horder.length_eq, List.length_range'] at hlength
    omega
  · obtain ⟨i, rfl⟩ : ∃ i, key = i + 1 := ⟨key - 1, by have := List.mem_range'_1.mp hmem; omega⟩
    rw [LuaTable.ofList_succ] at hat
    exact hall client (List.mem_of_getElem? hat) hstays

/-- Of two clients or more, each one stands at a key that is not the last one in some order. -/
theorem all_taken_of_replies_taken (hmore : 1 < clients.length)
    (htaken : ∀ order : List ℕ, order.Perm (List.range' 1 clients.length) → RepliesTaken gone fails clients order)
    {client : ℕ} (hclient : client ∈ clients) (hstays : gone client = false) : fails client = false := by
  obtain ⟨i, hi⟩ := List.mem_iff_getElem?.mp hclient
  have hlt := (List.getElem?_eq_some_iff.mp hi).1
  have hat : ofList clients (i + 1) = some client := (LuaTable.ofList_succ clients i).trans hi
  by_cases hlast : i + 1 < clients.length
  · -- upwards
    refine htaken _ (List.Perm.refl _) (i + 1) ?_ client hat hstays
    obtain ⟨m, hm⟩ : ∃ m, clients.length = m + 1 := ⟨clients.length - 1, by omega⟩
    rw [hm, List.range'_1_concat, List.dropLast_concat, List.mem_range'_1]
    omega
  · -- downwards
    refine htaken _ (List.reverse_perm _) (i + 1) ?_ client hat hstays
    rw [List.dropLast_reverse, List.mem_reverse, List.tail_range', List.mem_range'_1]
    omega

/-- **One traversal of the loop looks at each client exactly once if and only if `next` comes to no client
that has closed before it has come to all keys behind that client's, and no client before the last key fails to
take its reply.**  It does so in every order if and only if at most the last client has closed, and, where there
is more than one, each client that is answered takes its reply. -/
theorem pairs_sees_each_once_iff (v : Version) (gone fails : ℕ → Bool) (s : Srv) (clients : List ℕ)
    (h : Contiguous gone s clients) :
    (∀ order : List ℕ, order.Perm (List.range' 1 clients.length) →
      (SeesEachOnce v gone fails order s clients ↔
        BehindFirst gone clients order ∧ RepliesTaken gone fails clients order)) ∧
    ((∀ order : List ℕ, order.Perm (List.range' 1 clients.length) → SeesEachOnce v gone fails order s clients) ↔
      (∀ client ∈ clients.dropLast, gone client = false) ∧
        (clients.length ≤ 1 ∨ ∀ client ∈ clients, gone client = false → fails client = false)) := by
  have heach : ∀ order : List ℕ, order.Perm (List.range' 1 clients.length) →
      (SeesEachOnce v gone fails order s clients ↔
        BehindFirst gone clients order ∧ RepliesTaken gone fails clients order) := by
    intro order horder
    obtain ⟨ks, hks, rfl⟩ := exists_positions horder
    rw [sees_each_once_iff_walk h, behind_first_iff, replies_taken_iff]
    exact walk_upTo_count_iff h.nodup hks
  refine ⟨heach, ?_, ?_⟩
  · intro hall
    refine ⟨behind_first_upwards_iff.mp ((heach _ (List.Perm.refl _)).mp (hall _ (List.Perm.refl _))).1, ?_⟩
    rcases Nat.lt_or_ge 1 clients.length with hmore | hone
    · exact .inr fun client => all_taken_of_replies_taken hmore fun order horder =>
        ((heach order horder).mp (hall order horder)).2
    · exact .inl hone
  · rintro ⟨hlast, htaken⟩ order horder
    exact (heach order horder).mpr ⟨behind_first_of_last horder hlast, replies_taken_of_all horder htaken⟩

/-- The last of two clients has closed, and the first takes its reply. -/
theorem pairs_sees_each_once_two :
    ∃ s, (server .lua51).Reachable s ∧
      SeesEachOnce .lua51 (fun client => client = 2) (fun _ => false) [1, 2] s [1, 2] := by
  obtain ⟨s, hs, h⟩ := exists_contiguous_two .lua51 (fun client => client = 2)
  refine ⟨s, hs, ?_⟩
  exact (pairs_sees_each_once_iff .lua51 _ _ s [1, 2] h).2.mpr ⟨by decide, .inr (by decide)⟩ [1, 2] (by decide)

/-- The first of two clients has closed: the second moves to key 1, and is not looked at. -/
theorem closed_client_hides_next : ∃ s, (server .lua51).Reachable s ∧
    Contiguous (fun client => client = 1) s [1, 2] ∧
    ¬ SeesEachOnce .lua51 (fun client => client = 1) (fun _ => false) [1, 2] s [1, 2] := by
  obtain ⟨s, hs, h⟩ := exists_contiguous_two .lua51 (fun client => client = 1)
  refine ⟨s, hs, h, ?_⟩
  intro hsees
  have hcount := (sees_each_once_iff_walk h [0, 1]).mp hsees 2 (by decide)
  exact absurd hcount (by decide)

end NetProg.LuaServer
