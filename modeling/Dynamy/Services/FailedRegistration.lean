import Dynamy.Services.Transactions

/-!
# Dynamy.Services.FailedRegistration — a registration that fails half-way

`registerConnection` fills both memories before it calls `enlistResource` and `registerSynchronization`, and nothing
undoes that when one of them raises.  `failed_registration` says so for every state a call may start in and everything
that happens beside it: the context of the transaction is there after the call and was not there before it, and the
connection has not gone back to the pool.  `later_getConnection` says what comes of it: the next call in the
transaction returns a wrapper over that connection, and nobody has enlisted it.

`Progress` follows one call from its entry to the two fallible calls.
-/

namespace Dynamy.Services

open Dynamy.Java Dynamy.Lib

variable {Thread Conn Txn : Type}

/-- `c` is from the pool and a call of `getConnection` that has come to this point has not passed it on yet. -/
def Pc.InHand (c : Conn) : Pc Conn Txn → Prop
  | .checkout _ conn1 => conn1 = some c
  | .swap _ conn1 conn => c = conn1 ∨ c = conn
  | .containsKey _ c' | .owner _ c' | .isActive _ c' _ => c' = c
  | .removeTransaction c' _ (.free _) | .removeConnection c' _ (.free _) => c' = c
  | .acquire c' _ | .recheck c' _ | .putTransaction c' _ | .putConnection c' _ => c' = c
  | .enlistResource c' _ | .synchronize c' _ => c' = c
  | _ => False

/-- After a missed lookup of `t` and before `registerConnection`; a swap is between two connections. -/
def Pc.Searches (t : Txn) : Pc Conn Txn → Prop
  | .checkout p _ | .containsKey p _ | .owner p _ | .isActive p _ _ => ∃ o, p = .inside o t
  | .swap p conn1 conn => (∃ o, p = .inside o t) ∧ conn ≠ conn1
  | .removeTransaction _ _ (.free p) | .removeConnection _ _ (.free p) => ∃ o, p = .inside o t
  | .enter t' | .acquire _ t' | .recheck _ t' | .putTransaction _ t' => t' = t
  | _ => False

/-- In a search outside any transaction, or about to return, or not in a call. -/
def Pc.Elsewhere : Pc Conn Txn → Prop
  | .checkout p _ | .swap p _ _ | .containsKey p _ | .owner p _ | .isActive p _ _ => p = .outside
  | .removeTransaction _ _ (.free p) | .removeConnection _ _ (.free p) => p = .outside
  | .give _ | .hit _ _ | .leave _ _ | .idle => True
  | _ => False

theorem Pc.Searches.not_inWrapper {pc : Pc Conn Txn} {t : Txn} (h : pc.Searches t) : ¬ pc.inWrapper := by
  cases pc <;> first | exact Bool.false_ne_true | cases h

theorem Pc.Elsewhere.not_inWrapper {pc : Pc Conn Txn} (h : pc.Elsewhere) : ¬ pc.inWrapper := by
  cases pc <;> first | exact Bool.false_ne_true | cases h

namespace DsState

/-- What the maps say of `t` and of the connection in the hand of `th`, and where `th` is, stays as it is. -/
structure Untouched (th : Thread) (t : Txn) (st st' : DsState Thread Conn Txn) : Prop where
  pc : st'.pc th = st.pc th
  transactionMemory : st'.transactionMemory t = st.transactionMemory t
  connectionMemory : ∀ c, (st.pc th).InHand c → st'.connectionMemory c = st.connectionMemory c
  pooled : ∀ c, (st.pc th).InHand c → st'.pooled c = st.pooled c

variable [DecidableEq Thread] [DecidableEq Conn] [DecidableEq Txn]

/-- A step of the call of `th`, or one that leaves alone what this call works on. -/
def Beside (th : Thread) (t : Txn) (st : DsState Thread Conn Txn) (a : DsAction Thread Conn Txn) : Prop :=
  (∃ answer, a = .step th answer) ∨ ∀ st', st.step a = some st' → Untouched th t st st'

/-- A call of `getConnection` in `t` that started in `s` took `c` from the pool and has just ended in `v`, because
`enlistResource` or `registerSynchronization` raised an exception. -/
def RegistrationFails (s v : DsState Thread Conn Txn) (th : Thread) (o : Overload) (t : Txn) (c : Conn) : Prop :=
  ∃ s' u e, s.step (.getConnection th o (some t)) = some s' ∧ Runs step (Beside th t) s' u ∧
    (u.pc th = .enlistResource c t ∨ u.pc th = .synchronize c t) ∧ u.step (.step th (.raises e)) = some v

/-- Both maps are as before the call and the connection is back in the pool. -/
structure Undone (s v : DsState Thread Conn Txn) (c : Conn) : Prop where
  transactionMemory : v.transactionMemory = s.transactionMemory
  connectionMemory : v.connectionMemory = s.connectionMemory
  pooled : v.pooled c = true

/-! ### One call, step by step -/

/-- How far the call in `t` that started in `s` has come, and what it has left behind. -/
inductive Progress (s st : DsState Thread Conn Txn) (t : Txn) : Pc Conn Txn → Prop
  | current {o : Overload} (h : st.transactionMemory t = s.transactionMemory t) : Progress s st t (.current o (some t))
  | lookup {o : Overload} (h : st.transactionMemory t = s.transactionMemory t) : Progress s st t (.lookup o t)
  | searches {pc : Pc Conn Txn} (hpc : pc.Searches t) (h : s.transactionMemory t = none)
      (hp : ∀ c, pc.InHand c → st.pooled c = false) : Progress s st t pc
  | entered {c : Conn} (h : s.transactionMemory t = none) (ht : st.transactionMemory t = some ⟨c, t⟩)
      (hp : st.pooled c = false) : Progress s st t (.putConnection c t)
  | registered {c : Conn} {pc : Pc Conn Txn} (hpc : pc = .enlistResource c t ∨ pc = .synchronize c t)
      (h : s.transactionMemory t = none) (ht : st.transactionMemory t = some ⟨c, t⟩)
      (hc : st.connectionMemory c = some ⟨c, t⟩) (hp : st.pooled c = false) : Progress s st t pc
  | elsewhere {pc : Pc Conn Txn} (hpc : pc.Elsewhere) : Progress s st t pc

variable {s st st' u v : DsState Thread Conn Txn} {th : Thread} {o : Overload} {t : Txn} {c : Conn}
  {pc pc' : Pc Conn Txn}

omit [DecidableEq Thread] [DecidableEq Conn] [DecidableEq Txn] in
/-- What happens beside the call does not matter to it. -/
theorem Progress.untouched (h : Progress s st t (st.pc th)) (hu : Untouched th t st st') :
    Progress s st' t (st'.pc th) := by
  rw [hu.pc]
  have hcon := hu.connectionMemory
  have hpool := hu.pooled
  generalize st.pc th = pc at h hcon hpool ⊢
  cases h with
  | current h => exact .current (hu.transactionMemory.trans h)
  | lookup h => exact .lookup (hu.transactionMemory.trans h)
  | searches hpc h hp => exact .searches hpc h fun c hc => (hpool c hc).trans (hp c hc)
  | entered h ht hp => exact .entered h (hu.transactionMemory.trans ht) ((hpool _ rfl).trans hp)
  | registered hpc h ht hc hp =>
    have hsame := hpool _ (by rcases hpc with rfl | rfl <;> exact rfl)
    have hcon' := hcon _ (by rcases hpc with rfl | rfl <;> exact rfl)
    exact .registered hpc h (hu.transactionMemory.trans ht) (hcon'.trans hc) (hsame.trans hp)
  | elsewhere hpc => exact .elsewhere hpc

omit [DecidableEq Thread] [DecidableEq Conn] [DecidableEq Txn] in
/-- An exception ends the call. -/
theorem instr_raises {x : Throwable} {e : Effect Conn Txn} (h : st.instr pc (.raises x) = some (pc', e))
    (hpc : pc.inWrapper = false) : pc' = .idle ∧ e = .raise x pc.release (st.callAt pc) := by
  simp only [instr, interrupt] at h
  split at h
  · cases hpc
  · split at h <;> cases h
    exact ⟨rfl, rfl⟩

omit [DecidableEq Thread] in
/-- Raising an exception changes neither the maps nor the pool. -/
theorem apply_raise (st : DsState Thread Conn Txn) (th : Thread) (x : Throwable) (release : Option Txn)
    (called : Option (Conn × Call)) :
    (st.apply th (.raise x release called)).transactionMemory = st.transactionMemory ∧
      (st.apply th (.raise x release called)).connectionMemory = st.connectionMemory ∧
        (st.apply th (.raise x release called)).pooled = st.pooled := by
  cases release <;> exact ⟨rfl, rfl, rfl⟩

omit [DecidableEq Thread] [DecidableEq Conn] [DecidableEq Txn] in
/-- A search in `t` that has found `c` goes on to register it. -/
theorem Progress.found (h : s.transactionMemory t = none) (hp : st.pooled c = false) :
    Progress s st t ((Purpose.inside o t).found c) := by
  cases o with
  | plain =>
    have hsearches : (Pc.acquire c t).Searches t := rfl
    refine .searches hsearches h fun c' hc' => ?_
    exact (show c = c' from hc') ▸ hp
  | userPassword =>
    have hsearches : (Pc.putTransaction c t).Searches t := rfl
    refine .searches hsearches h fun c' hc' => ?_
    exact (show c = c' from hc') ▸ hp

omit [DecidableEq Thread] in
theorem Progress.searches_step (hpc : pc.Searches t) (h : s.transactionMemory t = none)
    (hp : ∀ c, pc.InHand c → st.pooled c = false) {e : Effect Conn Txn} (he : EffectFrom st pc pc' e) :
    Progress s (st.apply th e) t pc' := by
  cases e with
  | skip =>
    cases (show Moves st pc pc' from he) with
    | outside => cases hpc
    | inside => cases hpc
    | found => cases hpc
    | missed => cases hpc
    | missedLocking => cases hpc
    | registered => exact .searches hpc h hp
    | @unregistered p c =>
      obtain ⟨o, rfl⟩ := hpc
      exact .found h (hp c rfl)
    | owner => exact .searches hpc h hp
    | taken =>
      refine .searches hpc h fun c hc => hp c ?_
      exact Option.some.inj hc
    | stale => exact .searches hpc h hp
    | present => exact .elsewhere trivial
    | absent => exact .searches hpc h hp
    | refused => cases hpc
    | wrapper hw => exact absurd hw hpc.not_inWrapper
  | acquire t' =>
    rcases he with ⟨rfl, rfl⟩ | ⟨c, rfl, rfl⟩
    · refine .searches ⟨.userPassword, ?_⟩ h fun c hc => by cases hc
      rw [show t' = t from hpc]
    · exact .searches hpc h hp
  | checkout c =>
    obtain ⟨hpool, p, conn1, rfl, rfl⟩ := he
    cases conn1 with
    | none =>
      refine .searches hpc h fun c' hc' => ?_
      rw [← show c = c' from hc']
      exact Function.update_self ..
    | some conn1 =>
      have hne : c ≠ conn1 := by
        rintro rfl
        rw [hp c rfl] at hpool
        cases hpool
      refine .searches ⟨hpc, hne⟩ h fun c' hc' => ?_
      rcases hc' with rfl | rfl
      · exact (Function.update_of_ne (Ne.symm hne) ..).trans (hp c' rfl)
      · exact Function.update_self ..
  | plainCall c call =>
    rcases he with ⟨p, conn, rfl, rfl, rfl⟩ | ⟨w, wrapper, rfl, -⟩ | ⟨rfl, -⟩
    · refine .searches hpc.1 h fun c' hc' => ?_
      rw [← show conn = c' from hc']
      exact (Function.update_of_ne hpc.2 ..).trans (hp conn (.inr rfl))
    · cases hpc
    · cases hpc
  | putTransaction t' c =>
    obtain ⟨rfl, rfl⟩ := he
    obtain rfl : t' = t := hpc
    exact .entered h (Function.update_self ..) (hp c rfl)
  | putConnection t' c => rw [he.1] at hpc; cases hpc
  | removeTransaction t' =>
    obtain ⟨c, k, rfl, rfl⟩ := he
    cases k with
    | free p => exact .searches hpc h hp
    | callback => cases hpc
  | removeConnection c =>
    obtain ⟨t', k, rfl, rfl⟩ := he
    cases k with
    | free p =>
      obtain ⟨o, rfl⟩ := hpc
      exact .found h (hp c rfl)
    | callback => cases hpc
  | enlistResource t' c => rw [he.1] at hpc; cases hpc
  | registerSynchronization t' x =>
    rcases he with ⟨c, rfl, -⟩ | ⟨hw, -⟩
    · cases hpc
    · exact absurd hw hpc.not_inWrapper
  | setClosed w => exact absurd he.1 hpc.not_inWrapper
  | returnWrapper t' c release =>
    rcases he.1 with rfl | rfl <;> cases hpc
  | returnPlain c => rw [he.1] at hpc; cases hpc
  | raise x release called =>
    rw [he.2]
    exact .elsewhere trivial

omit [DecidableEq Thread] [DecidableEq Conn] [DecidableEq Txn] in
theorem elsewhere_step (hpc : pc.Elsewhere) {e : Effect Conn Txn} (he : EffectFrom st pc pc' e) :
    pc'.Elsewhere := by
  cases e with
  | skip =>
    cases (show Moves st pc pc' from he) with
    | outside => rfl
    | inside => cases hpc
    | found => cases hpc
    | missed => cases hpc
    | missedLocking => cases hpc
    | registered => exact hpc
    | unregistered =>
      obtain rfl := hpc
      trivial
    | owner => exact hpc
    | taken => exact hpc
    | stale => exact hpc
    | present => exact trivial
    | absent => cases hpc
    | refused => cases hpc
    | wrapper hw => exact absurd hw hpc.not_inWrapper
  | acquire t' => rcases he with ⟨rfl, -⟩ | ⟨c, rfl, -⟩ <;> cases hpc
  | checkout c =>
    obtain ⟨-, p, conn1, rfl, rfl⟩ := he
    cases conn1 with
    | none => exact hpc
    | some conn1 => exact hpc
  | plainCall c call =>
    rcases he with ⟨p, conn, rfl, rfl, -⟩ | ⟨w, wrapper, -, rfl, -⟩ | ⟨-, rfl, -⟩
    · exact hpc
    · trivial
    · trivial
  | putTransaction t' c => rw [he.1] at hpc; cases hpc
  | putConnection t' c => rw [he.1] at hpc; cases hpc
  | removeTransaction t' =>
    obtain ⟨c, k, rfl, rfl⟩ := he
    cases k with
    | free p => exact hpc
    | callback => cases hpc
  | removeConnection c =>
    obtain ⟨t', k, rfl, rfl⟩ := he
    cases k with
    | free p =>
      obtain rfl := hpc
      trivial
    | callback => cases hpc
  | enlistResource t' c => rw [he.1] at hpc; cases hpc
  | registerSynchronization t' x =>
    rcases he with ⟨c, rfl, -⟩ | ⟨hw, -⟩
    · cases hpc
    · exact absurd hw hpc.not_inWrapper
  | setClosed w => exact absurd he.1 hpc.not_inWrapper
  | returnWrapper t' c release => rw [he.2]; trivial
  | returnPlain c => rw [he.2]; trivial
  | raise x release called => rw [he.2]; trivial

omit [DecidableEq Thread] [DecidableEq Conn] [DecidableEq Txn] in
/-- Outside a checkout and `enlistResource` the answer is that all is well, or an exception ends the call. -/
theorem proceeds_or_ends {answer : Answer Conn} {e : Effect Conn Txn} (h : st.instr pc answer = some (pc', e))
    (hpc : pc.inWrapper = false) (hcheckout : ∀ p conn1, pc ≠ .checkout p conn1)
    (henlist : ∀ c t, pc ≠ .enlistResource c t) :
    st.proceed pc = some (pc', e) ∨ pc' = .idle := by
  cases answer with
  | go => exact .inl h
  | raises x => exact .inr (instr_raises h hpc).1
  | connection c =>
    cases pc with
    | checkout p conn1 => exact absurd rfl (hcheckout p conn1)
    | _ => cases h
  | refuses =>
    cases pc with
    | enlistResource c t => exact absurd rfl (henlist c t)
    | _ => cases h

/-- The step lemma: a step of the call leads from one of its stages to another. -/
theorem Progress.step (h : Progress s st t (st.pc th)) {answer : Answer Conn}
    (hs : st.step (.step th answer) = some st') : Progress s st' t (st'.pc th) := by
  simp only [DsState.step, Option.map_eq_some_iff, Prod.exists] at hs
  obtain ⟨pc', e, hinstr, rfl⟩ := hs
  have hself : ((st.apply th e).setPc th pc').pc th = pc' := setPc_self ..
  rw [hself]
  suffices hnext : Progress s (st.apply th e) t pc' by
    cases hnext with
    | current h => exact .current h
    | lookup h => exact .lookup h
    | searches hpc h hp => exact .searches hpc h hp
    | entered h ht hp => exact .entered h ht hp
    | registered hpc h ht hc hp => exact .registered hpc h ht hc hp
    | elsewhere hpc => exact .elsewhere hpc
  have he := instr_effect hinstr
  generalize st.pc th = pc at h hinstr he
  cases h with
  | @current o h =>
    rcases proceeds_or_ends hinstr rfl (fun _ _ heq => by cases heq) (fun _ _ heq => by cases heq) with hgo | rfl
    · simp only [proceed] at hgo
      split at hgo <;> cases hgo
      · exact .lookup h
      · exact .elsewhere rfl
    · exact .elsewhere trivial
  | @lookup o h =>
    rcases proceeds_or_ends hinstr rfl (fun _ _ heq => by cases heq) (fun _ _ heq => by cases heq) with hgo | rfl
    · simp only [proceed] at hgo
      split at hgo
      · cases hgo
        exact .elsewhere trivial
      · rename_i hnone
        have hbefore : s.transactionMemory t = none := h.symm.trans hnone
        cases o with
        | plain =>
          cases hgo
          exact .searches ⟨.plain, rfl⟩ hbefore fun c hc => by cases hc
        | userPassword =>
          cases hgo
          have hsearches : (Pc.enter t : Pc Conn Txn).Searches t := rfl
          exact .searches hsearches hbefore fun c hc => by cases hc
    · exact .elsewhere trivial
  | searches hpc h hp => exact .searches_step hpc h hp he
  | @entered c h ht hp =>
    rcases proceeds_or_ends hinstr rfl (fun _ _ heq => by cases heq) (fun _ _ heq => by cases heq) with hgo | rfl
    · cases hgo
      exact .registered (.inl rfl) h ht (Function.update_self ..) hp
    · exact .elsewhere trivial
  | @registered c pc hpc h ht hc hp =>
    rcases hpc with rfl | rfl
    · cases answer with
      | go =>
        cases hinstr
        exact .registered (.inr rfl) h ht hc hp
      | connection c => cases hinstr
      | refuses =>
        cases hinstr
        exact .registered (.inr rfl) h ht hc hp
      | raises x =>
        cases hinstr
        exact .elsewhere trivial
    · rcases proceeds_or_ends hinstr rfl (fun _ _ heq => by cases heq) (fun _ _ heq => by cases heq) with hgo | rfl
      · cases hgo
        exact .elsewhere trivial
      · exact .elsewhere trivial
  | elsewhere hpc => exact .elsewhere (elsewhere_step hpc he)

/-- **What a failed registration leaves**: both entries, with a connection that has not gone back to the pool. -/
theorem RegistrationFails.left (h : RegistrationFails s v th o t c) :
    s.transactionMemory t = none ∧ v.transactionMemory t = some ⟨c, t⟩ ∧ v.connectionMemory c = some ⟨c, t⟩ ∧
      v.pooled c = false := by
  obtain ⟨s', u, x, hcall, hrun, hpc, hraise⟩ := h
  have hstart : Progress s s' t (s'.pc th) := by
    cases steps_of_step hcall with
    | getConnection =>
      rw [setPc_self]
      exact .current rfl
  have hprogress : Progress s u t (u.pc th) := by
    refine Runs.invariant (I := fun u => Progress s u t (u.pc th)) hstart (fun u a w hu hbeside hs => ?_) hrun
    rcases hbeside with ⟨answer, rfl⟩ | hbeside
    · exact hu.step hs
    · exact hu.untouched (hbeside w hs)
  simp only [DsState.step, Option.map_eq_some_iff, Prod.exists] at hraise
  obtain ⟨pc', e, hinstr, rfl⟩ := hraise
  have hw : (u.pc th).inWrapper = false := by rcases hpc with h | h <;> rw [h] <;> rfl
  obtain ⟨rfl, rfl⟩ := instr_raises hinstr hw
  obtain ⟨htm, hcm, hpool⟩ := apply_raise u th x (u.pc th).release (u.callAt (u.pc th))
  generalize u.pc th = pc at hprogress hpc htm hcm hpool ⊢
  cases hprogress with
  | @registered c' _ hpc' h ht hc hp =>
    obtain rfl : c' = c := by
      rcases hpc with rfl | rfl <;> rcases hpc' with h' | h' <;> cases h' <;> rfl
    exact ⟨h, (congrFun htm t).trans ht, (congrFun hcm c').trans hc, (congrFun hpool c').trans hp⟩
  | searches hsearch => rcases hpc with rfl | rfl <;> cases hsearch
  | elsewhere helse => rcases hpc with rfl | rfl <;> cases helse
  | current => rcases hpc with h | h <;> cases h
  | lookup => rcases hpc with h | h <;> cases h
  | entered => rcases hpc with h | h <;> cases h

/-- **A failed registration is never undone**: whatever state the call starts in, whichever overload it is, whatever
its search meets and whatever happens beside it, a call that ends because `registerConnection` raised leaves the maps
changed and the connection out of the pool. -/
theorem failed_registration (h : RegistrationFails s v th o t c) : ¬ Undone s v c := by
  intro hundone
  obtain ⟨hbefore, hafter, -, hpool⟩ := h.left
  rw [hundone.transactionMemory, hbefore] at hafter
  cases hafter

/-! ### The next call -/

/-- A call of `getConnection` that finds the context of `t`. -/
def hits (th : Thread) (o : Overload) (t : Txn) : List (DsAction Thread Conn Txn) :=
  [.getConnection th o (some t), .step th .go, .step th .go, .step th .go]

theorem exec_hits (hidle : st.pc th = .idle) (hactive : (st.status t).isActive)
    (hsome : st.transactionMemory t = some ⟨c, t⟩) :
    ∃ st', exec step st (hits th o t) = some st' ∧ st'.wrappers = st.wrappers ++ [⟨c, t, false⟩] ∧
      st'.enlisted = st.enlisted := by
  have hcall : st.step (.getConnection th o (some t)) = some (st.setPc th (.current o (some t))) := by
    simp [DsState.step, hidle]
  have hcurrent : (st.setPc th (.current o (some t))).step (.step th .go) =
      some (st.setPc th (.lookup o t)) := by
    simp [DsState.step, setPc, instr, proceed, hactive, apply]
  have hlookup : (st.setPc th (.lookup o t)).step (.step th .go) = some (st.setPc th (.hit t c)) := by
    simp [DsState.step, setPc, instr, proceed, hsome, apply]
  have hhit : (st.setPc th (.hit t c)).step (.step th .go) =
      some (((st.setPc th (.hit t c)).apply th (.returnWrapper t c none)).setPc th .idle) := by
    simp [DsState.step, setPc, instr, proceed]
  refine ⟨((st.setPc th (.hit t c)).apply th (.returnWrapper t c none)).setPc th .idle, ?_, rfl, rfl⟩
  simp only [hits, exec, hcall, hcurrent, hlookup, hhit, Option.bind_some]

/-- **The next call**: while the transaction is still active, every call in it returns a wrapper over the connection
of the failed registration, and enlists nothing. -/
theorem RegistrationFails.later_getConnection {th' : Thread} {o' : Overload} (h : RegistrationFails s v th o t c)
    (hidle : v.pc th' = .idle) (hactive : (v.status t).isActive) :
    ∃ w, exec step v (hits th' o' t) = some w ∧ w.wrappers = v.wrappers ++ [⟨c, t, false⟩] ∧
      w.enlisted = v.enlisted :=
  exec_hits hidle hactive h.left.2.1

/-! ### A transaction marked rollback-only, in the small world -/

/-- The transaction is marked, and a call of `getConnection()` registers the connection `false`. -/
def registersMarked : List (DsAction Bool Bool Unit) :=
  [.setStatus () .markedRollback, .step false .go, .step false .go, .step false (.connection false),
    .step false .go, .step false .go, .step false .go, .step false .go, .step false .go]

/-- The call reaches `enlistResource`, which refuses. -/
theorem registrationFails_marked : ∃ v, RegistrationFails twoPooled v false .plain () false ∧
    v.pc true = .idle ∧ (v.status ()).isActive = true ∧ v.wrappers = [] ∧ v.enlisted = [] := by
  have hbeside : Along step (Beside false ()) (twoPooled.setPc false (.current .plain (some ()))) registersMarked := by
    refine .cons rfl (.inr fun st' hst' => ?_) (Along.of_forall _ _ fun a ha st => ?_)
    · cases hst'
      exact ⟨rfl, rfl, fun _ _ => rfl, fun _ _ => rfl⟩
    · simp only [List.mem_cons, List.not_mem_nil, or_false] at ha
      rcases ha with rfl | rfl | rfl | rfl | rfl | rfl | rfl | rfl <;> exact .inl ⟨_, rfl⟩
  exact ⟨_, ⟨_, _, ⟨.rollback, none⟩, rfl, Runs.of_along registersMarked hbeside rfl, .inl rfl, rfl⟩,
    rfl, rfl, rfl, rfl⟩

/-- After it a call on the other thread returns a wrapper over a connection that nobody has enlisted. -/
theorem failed_registration_marked : ∃ v w : DsState Bool Bool Unit,
    RegistrationFails twoPooled v false .plain () false ∧ ¬ Undone twoPooled v false ∧
      exec step v (hits true .userPassword ()) = some w ∧ w.wrappers = [⟨false, (), false⟩] ∧ w.enlisted = [] := by
  obtain ⟨v, h, hv⟩ := registrationFails_marked
  obtain ⟨w, hw, hwrappers, henlisted⟩ := exec_hits (o := .userPassword) hv.1 hv.2.1 h.left.2.1
  exact ⟨v, w, h, failed_registration h, hw, hwrappers.trans (by rw [hv.2.2.1]; rfl), henlisted.trans hv.2.2.2⟩

/-- The call leaves its context behind in `transactionMemory`. -/
theorem failed_registration_not_undone : ¬ ∀ (s v : DsState Bool Bool Unit) (th : Bool) (o : Overload) (c : Bool),
    RegistrationFails s v th o () c → Undone s v c := by
  intro h
  obtain ⟨v, hfails, -⟩ := registrationFails_marked
  have hundone := h _ _ _ _ _ hfails
  have hbefore := congrFun hundone.transactionMemory ()
  rw [hfails.left.2.1] at hbefore
  cases hbefore

end DsState

end Dynamy.Services
