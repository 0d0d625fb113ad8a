import Dynamy.Services.Transactions

/-!
# Dynamy.Services.FreeConnection — what a search leaves checked out

`findFreeConnection` (both overloads, whoever calls it) takes connections from the pool until it finds one that is not
registered with an active transaction; before it looks at the next one it closes the last.  The pool is any pool: it
hands out any connection that waits in it, or raises.  `findFreeConnection_iff` follows one search among everything
else that happens, with a log of what it took and closed (`poolCalls`): nothing stays checked out but the connection
that is returned, unless something is raised while the search has a connection in its hands.
-/

namespace Dynamy.Services

open Dynamy.Java Dynamy.Lib

variable {Thread Conn Txn : Type}

/-- In `findFreeConnection`. -/
def Pc.inSearch : Pc Conn Txn → Bool
  | .checkout _ _ | .swap _ _ _ | .containsKey _ _ | .owner _ _ | .isActive _ _ _ => true
  | .removeTransaction _ _ (.free _) | .removeConnection _ _ (.free _) => true
  | _ => false

/-- What a search has from the pool at this point, in the order it was taken. -/
def Pc.held : Pc Conn Txn → List Conn
  | .checkout _ conn1 => conn1.toList
  | .swap _ conn1 conn => [conn1, conn]
  | .containsKey _ c | .owner _ c | .isActive _ c _ => [c]
  | .removeTransaction c _ (.free _) | .removeConnection c _ (.free _) => [c]
  | _ => []

/-- What a search does to the pool. -/
inductive PoolCall (Conn : Type)
  | getConnection (c : Conn)
  | close (c : Conn)

/-- The connections that were taken, in order. -/
def taken (l : List (PoolCall Conn)) : List Conn :=
  l.filterMap fun
    | .getConnection c => some c
    | .close _ => none

/-- The connections that were closed, in order. -/
def closed (l : List (PoolCall Conn)) : List Conn :=
  l.filterMap fun
    | .getConnection _ => none
    | .close c => some c

/-- What a step does to the pool; a `close()` that raises puts nothing back. -/
def Effect.poolCalls : Effect Conn Txn → List (PoolCall Conn)
  | .checkout c => [.getConnection c]
  | .plainCall c .close => [.close c]
  | _ => []

section Logs

variable (l l' : List (PoolCall Conn)) (c : Conn)

@[simp] theorem taken_append : taken (l ++ l') = taken l ++ taken l' := List.filterMap_append

@[simp] theorem closed_append : closed (l ++ l') = closed l ++ closed l' := List.filterMap_append

@[simp] theorem taken_nil : taken ([] : List (PoolCall Conn)) = [] := rfl

@[simp] theorem closed_nil : closed ([] : List (PoolCall Conn)) = [] := rfl

@[simp] theorem taken_getConnection : taken [.getConnection c] = [c] := rfl

@[simp] theorem closed_getConnection : closed [PoolCall.getConnection c] = [] := rfl

@[simp] theorem taken_close : taken [PoolCall.close c] = [] := rfl

@[simp] theorem closed_close : closed [.close c] = [c] := rfl

end Logs

theorem found_not_inSearch (p : Purpose Txn) (c : Conn) : (p.found c).inSearch = false ∧ p.found c ≠ .idle := by
  rcases found_cases p c with h | ⟨t, h | h⟩ <;> rw [h] <;> exact ⟨rfl, nofun⟩

theorem found_inj {p p' : Purpose Txn} {c c' : Conn} (h : p.found c = p'.found c') : c = c' := by
  rcases found_cases p c with hp | ⟨t, hp | hp⟩ <;> rcases found_cases p' c' with hp' | ⟨t', hp' | hp'⟩ <;>
    rw [hp, hp'] at h <;> cases h <;> rfl

namespace DsState

variable [DecidableEq Thread] [DecidableEq Conn] [DecidableEq Txn]

/-- What a choice means for the search of `th`. -/
def poolCalls (th : Thread) (st : DsState Thread Conn Txn) : DsAction Thread Conn Txn → List (PoolCall Conn)
  | .step th' answer => if th' = th then (st.instr (st.pc th) answer).elim [] (·.2.poolCalls) else []
  | _ => []

/-- The machine, with the log of the search of `th`. -/
abbrev searchStep (th : Thread) : DsState Thread Conn Txn × List (PoolCall Conn) → DsAction Thread Conn Txn →
    Option (DsState Thread Conn Txn × List (PoolCall Conn)) := logged step (poolCalls th)

/-- The search of `th` goes on. -/
def Searching (th : Thread) (x : DsState Thread Conn Txn × List (PoolCall Conn)) (_ : DsAction Thread Conn Txn) : Prop :=
  (x.1.pc th).inSearch = true

/-- A connection that was found is not registered with an active transaction, and every other one that was taken has
been closed, once for each time it was taken; a search that has failed has closed all that it took. -/
structure SearchKeeps (th : Thread) (x : DsState Thread Conn Txn × List (PoolCall Conn)) : Prop where
  free : ∀ p c, x.1.pc th = Purpose.found c p → ∀ context, x.1.connectionMemory c = some context →
    ¬ (x.1.status context.transaction).isActive
  returned : ∀ p c, x.1.pc th = Purpose.found c p → taken x.2 = closed x.2 ++ [c]
  failed : x.1.pc th = .idle → taken x.2 = closed x.2

/-- Nothing is raised at this point of a search while it has a connection: neither by the outside nor because the entry
of the connection is removed between `containsKey` and `get`. -/
def UndisturbedAt (st : DsState Thread Conn Txn) (pc : Pc Conn Txn) : Answer Conn → Prop
  | .raises _ => pc.held = []
  | .go => ∀ p c, pc = .owner p c → st.connectionMemory c ≠ none
  | .connection _ | .refuses => True

def Undisturbed (th : Thread) (x : DsState Thread Conn Txn × List (PoolCall Conn)) : DsAction Thread Conn Txn → Prop
  | .step th' answer => th' = th → x.1.UndisturbedAt (x.1.pc th) answer
  | _ => True

/-! ### One step of a search -/

/-- What a step of a search can be. -/
inductive SearchStep (st : DsState Thread Conn Txn) :
    Pc Conn Txn → Answer Conn → Pc Conn Txn → Effect Conn Txn → Prop
  | first {p : Purpose Txn} {c : Conn} :
      SearchStep st (.checkout p none) (.connection c) (.containsKey p c) (.checkout c)
  | another {p : Purpose Txn} {conn1 c : Conn} :
      SearchStep st (.checkout p (some conn1)) (.connection c) (.swap p conn1 c) (.checkout c)
  | swap {p : Purpose Txn} {conn1 c : Conn} :
      SearchStep st (.swap p conn1 c) .go (.containsKey p c) (.plainCall conn1 .close)
  | registered {p : Purpose Txn} {c : Conn} : SearchStep st (.containsKey p c) .go (.owner p c) .skip
  | unregistered {p : Purpose Txn} {c : Conn} (h : st.connectionMemory c = none) :
      SearchStep st (.containsKey p c) .go (p.found c) .skip
  | owner {p : Purpose Txn} {c : Conn} {context : TransactionContext Conn Txn}
      (h : st.connectionMemory c = some context) :
      SearchStep st (.owner p c) .go (.isActive p c context.transaction) .skip
  | lost {p : Purpose Txn} {c : Conn} (h : st.connectionMemory c = none) :
      SearchStep st (.owner p c) .go .idle (.raise ⟨.nullPointer, none⟩ p.monitor)
  | busy {p : Purpose Txn} {c : Conn} {t : Txn} : SearchStep st (.isActive p c t) .go (.checkout p (some c)) .skip
  | stale {p : Purpose Txn} {c : Conn} {t : Txn} :
      SearchStep st (.isActive p c t) .go (.removeTransaction c t (.free p)) .skip
  | remove {p : Purpose Txn} {c : Conn} {t : Txn} :
      SearchStep st (.removeTransaction c t (.free p)) .go (.removeConnection c t (.free p)) (.removeTransaction t)
  | removed {p : Purpose Txn} {c : Conn} {t : Txn} :
      SearchStep st (.removeConnection c t (.free p)) .go (p.found c) (.removeConnection c)
  | raises {pc : Pc Conn Txn} {x : Throwable} : 
      SearchStep st pc (.raises x) .idle (.raise x pc.release (st.callAt pc))

variable {s st : DsState Thread Conn Txn} {u x y : DsState Thread Conn Txn × List (PoolCall Conn)} {th : Thread}
  {pc pc' : Pc Conn Txn} {answer : Answer Conn} {e : Effect Conn Txn} {a : DsAction Thread Conn Txn}

omit [DecidableEq Thread] [DecidableEq Conn] [DecidableEq Txn] in
theorem searchStep_of_instr (hin : pc.inSearch = true) (h : st.instr pc answer = some (pc', e)) :
    SearchStep st pc answer pc' e := by
  cases answer with
  | connection c =>
    cases pc with
    | checkout p conn1 =>
      simp only [instr, Option.ite_none_right_eq_some, Option.some.injEq, Prod.mk.injEq] at h
      obtain ⟨-, rfl, rfl⟩ := h
      cases conn1 with
      | none => exact .first
      | some conn1 => exact .another
    | _ => cases h
  | refuses =>
    cases pc with
    | enlistResource => cases hin
    | _ => cases h
  | raises x =>
    have hraise : pc' = .idle ∧ e = .raise x pc.release (st.callAt pc) := by
      cases pc with
      | closeLater => cases hin
      | _ => cases h <;> exact ⟨rfl, rfl⟩
    obtain ⟨rfl, rfl⟩ := hraise
    exact .raises
  | go =>
    cases pc with
    | checkout => cases h
    | swap => cases h; exact .swap
    | containsKey p c =>
      simp only [instr, proceed] at h
      split at h <;> cases h
      · exact .registered
      · rename_i hnone
        exact .unregistered (by simpa using hnone)
    | owner p c =>
      simp only [instr, proceed] at h
      split at h <;> cases h
      · exact .owner ‹_›
      · exact .lost ‹_›
    | isActive p c t =>
      simp only [instr, proceed] at h
      split at h <;> cases h
      · exact .busy
      · exact .stale
    | removeTransaction c t k =>
      cases k with
      | free p => cases h; exact .remove
      | callback => cases hin
    | removeConnection c t k =>
      cases k with
      | free p => cases h; exact .removed
      | callback => cases hin
    | _ => cases hin

omit [DecidableEq Thread] [DecidableEq Conn] [DecidableEq Txn] in
/-- While the search goes on nothing is claimed of it. -/
theorem searchKeeps_of_inSearch (h : (y.1.pc th).inSearch = true) : SearchKeeps th y where
  free p c hpc := by rw [hpc, (found_not_inSearch p c).1] at h; cases h
  returned p c hpc := by rw [hpc, (found_not_inSearch p c).1] at h; cases h
  failed hpc := by rw [hpc] at h; cases h

omit [DecidableEq Thread] [DecidableEq Conn] [DecidableEq Txn] in
/-- A search that has found `c`, which is not registered. -/
theorem searchKeeps_of_found {p : Purpose Txn} {c : Conn} (hpc : y.1.pc th = p.found c)
    (hfree : y.1.connectionMemory c = none) (hlog : taken y.2 = closed y.2 ++ [c]) : SearchKeeps th y where
  free p' c' hpc' context hcontext := by
    obtain rfl : c = c' := found_inj (hpc.symm.trans hpc')
    rw [hfree] at hcontext
    cases hcontext
  returned p' c' hpc' := by
    obtain rfl : c = c' := found_inj (hpc.symm.trans hpc')
    exact hlog
  failed hidle := absurd (hpc.symm.trans hidle) (found_not_inSearch p c).2

omit [DecidableEq Thread] [DecidableEq Conn] [DecidableEq Txn] in
/-- A search that has failed keeps its promise if it had nothing in its hands. -/
theorem searchKeeps_of_idle {held : List Conn} (hpc : y.1.pc th = .idle) (hlog : taken y.2 = closed y.2 ++ held) :
    SearchKeeps th y ↔ held = [] := by
  constructor
  · intro h
    have hall := h.failed hpc
    rw [hlog] at hall
    exact List.append_right_eq_self.mp hall
  · rintro rfl
    rw [List.append_nil] at hlog
    refine ⟨fun p c hpc' => ?_, fun p c hpc' => ?_, fun _ => hlog⟩
    · exact absurd (hpc'.symm.trans hpc) (found_not_inSearch p c).2
    · exact absurd (hpc'.symm.trans hpc) (found_not_inSearch p c).2

omit [DecidableEq Thread] [DecidableEq Conn] [DecidableEq Txn] in
/-- What was taken has been closed or is in hand. -/
theorem SearchStep.log (h : SearchStep st pc answer pc' e) {l : List (PoolCall Conn)}
    (hlog : taken l = closed l ++ pc.held) (hin : pc'.inSearch = true) :
    taken (l ++ e.poolCalls) = closed (l ++ e.poolCalls) ++ pc'.held := by
  cases h with
  | unregistered => rw [(found_not_inSearch _ _).1] at hin; cases hin
  | removed => rw [(found_not_inSearch _ _).1] at hin; cases hin
  | lost => cases hin
  | raises => cases hin
  | _ => simp_all [Effect.poolCalls, Pc.held]

omit [DecidableEq Thread] in
/-- How a step leaves the search going, or ends it. -/
theorem SearchStep.ends (h : SearchStep st pc answer pc' e) (th : Thread) :
    (pc'.inSearch = true ∧ st.UndisturbedAt pc answer) ∨
      (∃ p c, pc' = Purpose.found c p ∧ pc.held = [c] ∧ e.poolCalls = [] ∧
        (st.apply th e).connectionMemory c = none ∧ st.UndisturbedAt pc answer) ∨
      (pc' = .idle ∧ e.poolCalls = [] ∧ (st.UndisturbedAt pc answer ↔ pc.held = [])) := by
  cases h with
  | @unregistered p c hnone => exact .inr (.inl ⟨p, c, rfl, rfl, rfl, hnone, nofun⟩)
  | @removed p c t => exact .inr (.inl ⟨p, c, rfl, rfl, rfl, Function.update_self .., nofun⟩)
  | @lost p c hnone =>
    refine .inr (.inr ⟨rfl, rfl, iff_of_false (fun h => h p c rfl hnone) ?_⟩)
    exact List.cons_ne_nil c []
  | raises => exact .inr (.inr ⟨rfl, rfl, Iff.rfl⟩)
  | @owner p c context hsome =>
    refine .inl ⟨rfl, fun p' c' heq => ?_⟩
    cases heq
    rw [hsome]
    exact Option.some_ne_none context
  | first => exact .inl ⟨rfl, trivial⟩
  | another => exact .inl ⟨rfl, trivial⟩
  | _ => exact .inl ⟨rfl, nofun⟩

/-- **A step of the search** keeps what the search is for exactly if it is undisturbed. -/
theorem search_own_step (hlog : taken x.2 = closed x.2 ++ (x.1.pc th).held) (hin : (x.1.pc th).inSearch = true)
    (hs : searchStep th x (.step th answer) = some y) :
    ((y.1.pc th).inSearch = true → taken y.2 = closed y.2 ++ (y.1.pc th).held) ∧
      (SearchKeeps th y ↔ Undisturbed th x (.step th answer)) := by
  obtain ⟨hstep, hlog'⟩ := logged_eq_some.mp hs
  obtain ⟨st', l'⟩ := y
  simp only [DsState.step, Option.map_eq_some_iff, Prod.exists] at hstep
  obtain ⟨pc', e, hinstr, rfl⟩ := hstep
  have hself : ((x.1.apply th e).setPc th pc').pc th = pc' := setPc_self ..
  have hsearch := searchStep_of_instr hin hinstr
  have hcalls : l' = x.2 ++ e.poolCalls := by simpa [poolCalls, hinstr] using hlog'
  have hundisturbed : Undisturbed th x (.step th answer) ↔ x.1.UndisturbedAt (x.1.pc th) answer :=
    ⟨fun h => h rfl, fun h _ => h⟩
  subst hcalls
  rw [hundisturbed]
  dsimp only
  rw [hself]
  refine ⟨hsearch.log hlog, ?_⟩
  rcases hsearch.ends th with ⟨hin', hund⟩ | ⟨p, c, rfl, hheld, hquiet, hfree, hund⟩ | ⟨rfl, hquiet, hund⟩
  · exact iff_of_true (searchKeeps_of_inSearch (by rw [hself]; exact hin')) hund
  · refine iff_of_true (searchKeeps_of_found hself hfree ?_) hund
    rw [hquiet, List.append_nil, ← hheld]
    exact hlog
  · rw [hund, hquiet, List.append_nil]
    exact searchKeeps_of_idle hself hlog

/-- The step lemma, whoever takes the step. -/
theorem search_step (hlog : (x.1.pc th).inSearch = true → taken x.2 = closed x.2 ++ (x.1.pc th).held)
    (hin : Searching th x a) (hs : searchStep th x a = some y) :
    ((y.1.pc th).inSearch = true → taken y.2 = closed y.2 ++ (y.1.pc th).held) ∧
      (SearchKeeps th y ↔ Undisturbed th x a) := by
  by_cases hown : ∃ answer, a = .step th answer
  · obtain ⟨answer, rfl⟩ := hown
    exact search_own_step (hlog hin) hin hs
  · obtain ⟨hstep, hlog'⟩ := logged_eq_some.mp hs
    have hidle : x.1.pc th ≠ .idle := fun h => by rw [Searching, h] at hin; cases hin
    have hpc := pc_of_beside hstep hidle fun answer h => hown ⟨answer, h⟩
    have hquiet : poolCalls th x.1 a = [] ∧ Undisturbed th x a := by
      cases a with
      | step th' answer =>
        have hne : th' ≠ th := fun h => hown ⟨answer, h ▸ rfl⟩
        exact ⟨if_neg hne, fun h => absurd h hne⟩
      | _ => exact ⟨rfl, trivial⟩
    rw [hquiet.1, List.append_nil] at hlog'
    rw [hpc, hlog']
    refine ⟨hlog, iff_of_true (searchKeeps_of_inSearch ?_) hquiet.2⟩
    rw [hpc]
    exact hin

/-- **A search for a free connection.**  Let `th` begin a search, for either overload, inside a transaction or outside
any, and let anything happen beside it, up to the step that ends the search.  Then the connection that it returns is
not registered with an active transaction and every other one has been closed once for each time it was taken, and if
it fails all of them have, if and only if nothing was raised while the search had a connection. -/
theorem findFreeConnection_iff {p : Purpose Txn} {as : List (DsAction Thread Conn Txn)}
    (hstart : s.pc th = .checkout p none) (hsearching : Along (searchStep th) (Searching th) (s, []) as)
    (hexec : exec (searchStep th) (s, []) as = some u) :
    SearchKeeps th u ↔ Along (searchStep th) (Undisturbed th) (s, []) as := by
  have hkeeps : SearchKeeps th ((s, []) : DsState Thread Conn Txn × List (PoolCall Conn)) :=
    searchKeeps_of_inSearch (by rw [hstart]; rfl)
  have hlog : (s.pc th).inSearch = true → taken ([] : List (PoolCall Conn)) = closed [] ++ (s.pc th).held := by
    rw [hstart]
    exact fun _ => rfl
  exact Along.last_iff_of_step
    (I := fun x => (x.1.pc th).inSearch = true → taken x.2 = closed x.2 ++ (x.1.pc th).held) (P := SearchKeeps th)
    (fun x a y hlog hin hs => search_step hlog hin hs) (fun x a _ hin => searchKeeps_of_inSearch hin) hlog hkeeps hsearching
    hexec

/-! ### Two searches in the small world -/

/-- A thread begins a search outside any transaction. -/
def searches (s : DsState Bool Bool Unit) : DsState Bool Bool Unit := s.setPc false (.checkout .outside none)

theorem findFreeConnection_iff_free : ∃ u, exec (searchStep false) (searches twoPooled, [])
    [.step false (.connection true), .step false .go] = some u ∧ SearchKeeps false u := by
  refine ⟨_, rfl, ?_⟩
  have hsearching : Along (searchStep false) (Searching false) (searches twoPooled, [])
      [.step false (.connection true), .step false .go] := .cons rfl rfl <| .cons rfl rfl trivial
  have hundisturbed : Along (searchStep false) (Undisturbed false) (searches twoPooled, [])
      [.step false (.connection true), .step false .go] := .cons rfl (fun _ => trivial) <| .cons rfl (fun _ => nofun) trivial
  exact (findFreeConnection_iff rfl hsearching rfl).mpr hundisturbed

/-- One connection waits in the pool, and it is registered with the active transaction. -/
def lastBusy : DsState Bool Bool Unit :=
  searches { twoPooled with
    connectionMemory := fun c => some ⟨c, ()⟩
    pooled := fun c => !c }

/-- The search takes it, finds it busy and asks for another one; the pool is exhausted and raises. -/
def exhausts : List (DsAction Bool Bool Unit) :=
  [.step false (.connection false), .step false .go, .step false .go, .step false .go, .step false (.raises ⟨.sql, none⟩)]

/-- The connection that was taken first is never closed. -/
theorem findFreeConnection_leaks : ¬ ∀ (as : List (DsAction Bool Bool Unit))
    (u : DsState Bool Bool Unit × List (PoolCall Bool)), Along (searchStep false) (Searching false) (lastBusy, []) as →
      exec (searchStep false) (lastBusy, []) as = some u → SearchKeeps false u := by
  intro h
  have hsearching : Along (searchStep false) (Searching false) (lastBusy, []) exhausts :=
    .cons rfl rfl <| .cons rfl rfl <| .cons rfl rfl <| .cons rfl rfl <| .cons rfl rfl trivial
  have hfailed := (h exhausts _ hsearching rfl).failed rfl
  exact absurd hfailed (by decide)

end DsState

end Dynamy.Services
