import Dynamy.Lib.Owner
import Dynamy.Services.TransactionConnectionWrapper
import Mathlib.Algebra.BigOperators.Ring.List

/-!
# Dynamy.Services.Monitors — synchronized blocks, who waits in them, and how long a call takes

`getConnection` enters `transaction.synchronized`, in one overload around the search and in the other after it, and a
thread in the block may have to wait for the pool.  The block that a thread is in can be read off its program point
(`Pc.inside`), and the monitors say the same in every reachable state, exceptions included.  Nobody waits for a monitor
in a block, so monitors alone lead to no deadlock: a thread that cannot go on waits for the pool, or for the thread in
the block, which goes on or waits for the pool.  Monitors and the pool together do lead to one (`waits_iff_deadlock`):
the thread in the block waits for a connection, and the one that has it waits for the block.

A call is bounded by the connections that it takes: `Pc.rank` falls at every step of its thread but the one in which
the pool hands out a connection.
-/

namespace Dynamy.Services

open Dynamy.Java Dynamy.Lib

variable {Thread Conn Txn : Type}

def AfterTerminate.monitor : AfterTerminate Txn → Option Txn
  | .free p => p.monitor
  | .callback => none

/-- The transaction in whose synchronized block a thread at this point is. -/
def Pc.inside : Pc Conn Txn → Option Txn
  | .checkout p _ | .swap p _ _ | .containsKey p _ | .owner p _ | .isActive p _ _ => p.monitor
  | .removeTransaction _ _ k | .removeConnection _ _ k => k.monitor
  | .recheck _ t | .putTransaction _ t | .putConnection _ t => some t
  | .enlistResource _ t | .synchronize _ t | .leave _ t => some t
  | _ => none

/-- The transaction whose monitor a thread at this point wants. -/
def Pc.wants : Pc Conn Txn → Option Txn
  | .enter t | .acquire _ t => some t
  | _ => none

/-- The monitor that an effect takes, and the one that it gives back. -/
def Effect.taken : Effect Conn Txn → Option Txn
  | .acquire t => some t
  | _ => none

def Effect.released : Effect Conn Txn → Option Txn
  | .returnWrapper _ _ release | .raise _ release _ => release
  | _ => none

variable {st st' : DsState Thread Conn Txn} {pc pc' : Pc Conn Txn} {answer : Answer Conn} {e : Effect Conn Txn}
  {th : Thread} {t : Txn}

/-! ### One step outside the wrappers -/

/-- What a step of a thread can be that is in no method of a wrapper. -/
inductive OwnStep (st : DsState Thread Conn Txn) : Pc Conn Txn → Answer Conn → Pc Conn Txn → Effect Conn Txn → Prop
  | outside {o : Overload} {transaction : Option Txn} (h : ∀ t, transaction = some t → ¬ (st.status t).isActive) :
      OwnStep st (.current o transaction) .go (.checkout .outside none) .skip
  | current {o : Overload} {t : Txn} (h : (st.status t).isActive) :
      OwnStep st (.current o (some t)) .go (.lookup o t) .skip
  | found {o : Overload} {t : Txn} {context : TransactionContext Conn Txn} (h : st.transactionMemory t = some context) :
      OwnStep st (.lookup o t) .go (.hit t context.currentConnection) .skip
  | missed {t : Txn} (h : st.transactionMemory t = none) :
      OwnStep st (.lookup .plain t) .go (.checkout (.inside .plain t) none) .skip
  | missedLocking {t : Txn} (h : st.transactionMemory t = none) :
      OwnStep st (.lookup .userPassword t) .go (.enter t) .skip
  | hit {t : Txn} {c : Conn} : OwnStep st (.hit t c) .go .idle (.returnWrapper t c none)
  | enters {t : Txn} (h : st.monitor t = none) :
      OwnStep st (.enter t) .go (.checkout (.inside .userPassword t) none) (.acquire t)
  | takes {p : Purpose Txn} {conn1 : Option Conn} {c : Conn} (h : st.pooled c = true) :
      OwnStep st (.checkout p conn1) (.connection c) (DsState.checkoutNext p c conn1) (.checkout c)
  | swaps {p : Purpose Txn} {conn1 c : Conn} :
      OwnStep st (.swap p conn1 c) .go (.containsKey p c) (.plainCall conn1 .close)
  | registered {p : Purpose Txn} {c : Conn} (h : (st.connectionMemory c).isSome) :
      OwnStep st (.containsKey p c) .go (.owner p c) .skip
  | unregistered {p : Purpose Txn} {c : Conn} (h : ¬ (st.connectionMemory c).isSome) :
      OwnStep st (.containsKey p c) .go (p.found c) .skip
  | owner {p : Purpose Txn} {c : Conn} {context : TransactionContext Conn Txn}
      (h : st.connectionMemory c = some context) : OwnStep st (.owner p c) .go (.isActive p c context.transaction) .skip
  | vanished {p : Purpose Txn} {c : Conn} (h : st.connectionMemory c = none) :
      OwnStep st (.owner p c) .go .idle (.raise ⟨.nullPointer, none⟩ p.monitor)
  | busy {p : Purpose Txn} {c : Conn} {t : Txn} (h : (st.status t).isActive) :
      OwnStep st (.isActive p c t) .go (.checkout p (some c)) .skip
  | stale {p : Purpose Txn} {c : Conn} {t : Txn} (h : ¬ (st.status t).isActive) :
      OwnStep st (.isActive p c t) .go (.removeTransaction c t (.free p)) .skip
  | removesTransaction {c : Conn} {t : Txn} {k : AfterTerminate Txn} :
      OwnStep st (.removeTransaction c t k) .go (.removeConnection c t k) (.removeTransaction t)
  | removesConnection {c : Conn} {t : Txn} {k : AfterTerminate Txn} :
      OwnStep st (.removeConnection c t k) .go (k.next c) (.removeConnection c)
  | gives {c : Conn} : OwnStep st (.give c) .go .idle (.returnPlain c)
  | acquires {c : Conn} {t : Txn} (h : st.monitor t = none) :
      OwnStep st (.acquire c t) .go (.recheck c t) (.acquire t)
  | present {c : Conn} {t : Txn} (h : (st.transactionMemory t).isSome) :
      OwnStep st (.recheck c t) .go (.leave c t) .skip
  | absent {c : Conn} {t : Txn} (h : ¬ (st.transactionMemory t).isSome) :
      OwnStep st (.recheck c t) .go (.putTransaction c t) .skip
  | putsTransaction {c : Conn} {t : Txn} :
      OwnStep st (.putTransaction c t) .go (.putConnection c t) (.putTransaction t c)
  | putsConnection {c : Conn} {t : Txn} :
      OwnStep st (.putConnection c t) .go (.enlistResource c t) (.putConnection t c)
  | enlists {c : Conn} {t : Txn} : OwnStep st (.enlistResource c t) .go (.synchronize c t) (.enlistResource t c)
  | synchronizes {c : Conn} {t : Txn} :
      OwnStep st (.synchronize c t) .go (.leave c t) (.registerSynchronization t (.terminateTransaction c))
  | leaves {c : Conn} {t : Txn} : OwnStep st (.leave c t) .go .idle (.returnWrapper t c (some t))
  | closesPlain {c : Conn} : OwnStep st (.closePlain c) .go .idle (.plainCall c .close)
  | refused {c : Conn} {t : Txn} : OwnStep st (.enlistResource c t) .refuses (.synchronize c t) .skip
  | raises {pc : Pc Conn Txn} {x : Throwable} (h : pc.mayRaise) :
      OwnStep st pc (.raises x) .idle (.raise x pc.release (st.callAt pc))

theorem ownStep_of_instr (hpc : pc.inCall = none) (h : st.instr pc answer = some (pc', e)) :
    OwnStep st pc answer pc' e := by
  cases answer with
  | connection c =>
    simp only [DsState.instr] at h
    split at h
    · split at h <;> cases h
      exact .takes ‹_›
    · cases h
  | raises x =>
    simp only [DsState.instr, DsState.interrupt] at h
    split at h
    · cases hpc
    · split at h <;> cases h
      exact .raises ‹_›
  | refuses =>
    simp only [DsState.instr] at h
    split at h <;> cases h
    exact .refused
  | go =>
    simp only [DsState.instr] at h
    cases pc <;> simp only [DsState.proceed] at h
    case current o transaction =>
      cases transaction with
      | none => cases h; exact .outside fun t ht => by cases ht
      | some t =>
        simp only at h
        split at h <;> cases h
        · exact .current ‹_›
        · rename_i hstatus
          refine .outside fun t' ht' => ?_
          cases ht'
          exact hstatus
    case lookup o t =>
      split at h
      · cases h; exact .found ‹_›
      · split at h <;> cases h
        · exact .missed ‹_›
        · exact .missedLocking ‹_›
    case hit => cases h; exact .hit
    case enter =>
      split at h <;> cases h
      rename_i hfree
      exact .enters (by simpa using hfree)
    case swap => cases h; exact .swaps
    case containsKey =>
      split at h <;> cases h
      · exact .registered ‹_›
      · exact .unregistered ‹_›
    case owner =>
      split at h <;> cases h
      · exact .owner ‹_›
      · exact .vanished ‹_›
    case isActive =>
      split at h <;> cases h
      · exact .busy ‹_›
      · exact .stale ‹_›
    case removeTransaction => cases h; exact .removesTransaction
    case removeConnection => cases h; exact .removesConnection
    case give => cases h; exact .gives
    case acquire =>
      split at h <;> cases h
      rename_i hfree
      exact .acquires (by simpa using hfree)
    case recheck =>
      split at h <;> cases h
      · exact .present ‹_›
      · exact .absent ‹_›
    case putTransaction => cases h; exact .putsTransaction
    case putConnection => cases h; exact .putsConnection
    case enlistResource => cases h; exact .enlists
    case synchronize => cases h; exact .synchronizes
    case leave => cases h; exact .leaves
    case closePlain => cases h; exact .closesPlain
    case idle => cases h
    case checkout => cases h
    all_goals cases hpc

/-- Nobody is led into a method of a wrapper. -/
theorem OwnStep.inCall (h : OwnStep st pc answer pc' e) : pc'.inCall = none := by
  have hfound : ∀ (p : Purpose Txn) (c : Conn), (p.found c).inCall = none := fun p c => by
    rcases found_cases p c with h | ⟨t, h | h⟩ <;> rw [h] <;> rfl
  cases h with
  | takes => cases ‹Option Conn› <;> rfl
  | unregistered => exact hfound _ _
  | @removesConnection c t k =>
    cases k with
    | free p => exact hfound p c
    | callback => rfl
  | _ => rfl

namespace DsState

/-- The wrappers that calls are made on exist. -/
def CallsExist (st : DsState Thread Conn Txn) : Prop :=
  ∀ th w call, (st.pc th).inCall = some (w, call) → w < st.wrappers.length

theorem WrapperStep.inCall {w : ℕ} {wrapper : TransactionConnectionWrapper Conn Txn}
    (h : WrapperStep st w wrapper pc answer pc' e) : pc'.inCall = pc.inCall ∨ pc' = .idle := by
  cases h with
  | defers => exact .inl rfl
  | retries => exact .inl rfl
  | _ => first | exact .inr rfl | exact .inl rfl

/-- **One step**: in a method of a wrapper that exists, or outside. -/
theorem CallsExist.cases (h : st.CallsExist) (hinstr : st.instr (st.pc th) answer = some (pc', e)) :
    OwnStep st (st.pc th) answer pc' e ∨ ∃ w call wrapper, (st.pc th).inCall = some (w, call) ∧
      st.wrappers[w]? = some wrapper ∧ WrapperStep st w wrapper (st.pc th) answer pc' e := by
  cases hcall : (st.pc th).inCall with
  | none => exact .inl (ownStep_of_instr hcall hinstr)
  | some p =>
    obtain ⟨w, call⟩ := p
    have hw := List.getElem?_eq_getElem (h th w call hcall)
    exact .inr ⟨w, call, _, rfl, hw, wrapperStep_of_instr hw hcall hinstr⟩

section

variable [DecidableEq Thread] [DecidableEq Conn] [DecidableEq Txn]

omit [DecidableEq Thread] in
/-- No wrapper is ever taken away. -/
theorem wrappers_length_apply (st : DsState Thread Conn Txn) (th : Thread) (e : Effect Conn Txn) :
    st.wrappers.length ≤ (st.apply th e).wrappers.length := by
  cases e with
  | returnWrapper t c release =>
    show _ ≤ (st.wrappers ++ [_]).length
    rw [List.length_append]
    omega
  | raise x release called =>
    have hkept : (st.release release).wrappers = st.wrappers := by cases release <;> rfl
    show _ ≤ (st.release release).wrappers.length
    rw [hkept]
  | setClosed w =>
    show _ ≤ (st.wrappers.modify w _).length
    rw [List.length_modify]
  | _ => exact le_rfl

omit [DecidableEq Conn] [DecidableEq Txn] in
theorem CallsExist.setPc (h : st.CallsExist) (hpc : ∀ w call, pc.inCall = some (w, call) → w < st.wrappers.length) :
    (st.setPc th pc).CallsExist := by
  intro th' w call hcall
  by_cases hth : th' = th
  · subst hth
    rw [setPc_self] at hcall
    exact hpc w call hcall
  · rw [setPc_of_ne hth] at hcall
    exact h th' w call hcall

theorem CallsExist.step (h : st.CallsExist) {a : DsAction Thread Conn Txn} (hs : st.step a = some st') :
    st'.CallsExist := by
  cases steps_of_step hs with
  | setStatus => exact h
  | getConnection => exact h.setPc fun w call hcall => by cases hcall
  | @call th w call =>
    simp only [DsState.step, Option.ite_none_right_eq_some] at hs
    refine h.setPc fun w' call' hcall => ?_
    have hw' : w' = w := by cases call <;> cases hcall <;> rfl
    exact hw' ▸ hs.1.2
  | @afterCompletion th t i s =>
    have hrun : (st.runSynchronization t i).CallsExist := h
    exact hrun.setPc fun w call hcall => by cases s <;> cases hcall
  | closeLent => exact h
  | @step th answer pc e hinstr =>
    have hlength := wrappers_length_apply st th e
    refine CallsExist.setPc (fun th' w call hcall => ?_) fun w call hcall => ?_
    · rw [apply_pc] at hcall
      exact (h th' w call hcall).trans_le hlength
    · rcases h.cases hinstr with hown | ⟨w', call', wrapper, hin, -, hstep⟩
      · rw [hown.inCall] at hcall
        cases hcall
      · rcases hstep.inCall with hsame | rfl
        · exact (h th w call (hsame ▸ hcall)).trans_le hlength
        · cases hcall

theorem callsExist_of_reaches {status : Txn → Status} {pooled : Conn → Bool}
    (h : Reaches step (start status pooled) st) : st.CallsExist :=
  Runs.invariant (I := CallsExist) (fun th w call hcall => by cases hcall) (fun _ _ _ hI _ hs => hI.step hs) h

end

end DsState

/-! ### Mutual exclusion -/

/-- A thread enters a free block, or leaves the one that it is in, or stays. -/
inductive BlockStep (st : DsState Thread Conn Txn) (pc pc' : Pc Conn Txn) (e : Effect Conn Txn) : Prop
  | enters (t : Txn) (he : e = .acquire t) (hfree : st.monitor t = none) (hpc : pc.inside = none)
      (hpc' : pc'.inside = some t)
  | leaves (t : Txn) (he : e.released = some t) (hpc : pc.inside = some t) (hpc' : pc'.inside = none)
  | stays (he : e.released = none) (htaken : e.taken = none) (hpc : pc'.inside = pc.inside)

theorem found_inside (p : Purpose Txn) (c : Conn) : (p.found c).inside = p.monitor := by
  cases p with
  | outside => rfl
  | inside o t => cases o <;> rfl

/-- An exception ends the call and releases the monitor of the block that it leaves. -/
theorem blockStep_of_raise {x : Throwable} {o : Option Txn} {called : Option (Conn × Call)} (h : pc.inside = o) :
    BlockStep st pc .idle (.raise x o called) := by
  cases o with
  | none => exact .stays rfl rfl h.symm
  | some t => exact .leaves t rfl h rfl

theorem OwnStep.block (h : OwnStep st pc answer pc' e) : BlockStep st pc pc' e := by
  cases h with
  | enters hfree => exact .enters _ rfl hfree rfl rfl
  | acquires hfree => exact .enters _ rfl hfree rfl rfl
  | leaves => exact .leaves _ rfl rfl rfl
  | vanished => exact blockStep_of_raise rfl
  | raises hraise =>
    refine blockStep_of_raise ?_
    -- the points that may raise release the monitor of the block that they are in
    cases pc <;> first | rfl | cases hraise
  | takes => exact .stays rfl rfl (by cases ‹Option Conn› <;> rfl)
  | unregistered => exact .stays rfl rfl (found_inside _ _)
  | @removesConnection c t k =>
    refine .stays rfl rfl ?_
    cases k with
    | free p => exact found_inside p c
    | callback => rfl
  | _ => exact .stays rfl rfl rfl

theorem DsState.WrapperStep.block {w : ℕ} {wrapper : TransactionConnectionWrapper Conn Txn}
    (h : DsState.WrapperStep st w wrapper pc answer pc' e) : BlockStep st pc pc' e := by
  cases h <;> exact .stays rfl rfl rfl

theorem callEntry_inside (w : ℕ) (call : Call) : (call.entry w : Pc Conn Txn).inside = none := by cases call <;> rfl

theorem synchronization_inside (s : Synchronization Conn) (t : Txn) : (s.entry t).inside = none := by cases s <;> rfl

namespace DsState

/-- The monitor of a transaction is with the thread in its block, and free if there is none. -/
def MonitorsExact (st : DsState Thread Conn Txn) : Prop :=
  ∀ t, Owns (st.monitor t) fun th => (st.pc th).inside = some t

variable [DecidableEq Conn] [DecidableEq Txn]

theorem apply_monitor (st : DsState Thread Conn Txn) (th : Thread) (he : e.released = none) (he' : e.taken = none) :
    (st.apply th e).monitor = st.monitor := by
  cases e with
  | acquire t => cases he'
  | returnWrapper t c release => cases he; rfl
  | raise x release called => cases he; rfl
  | _ => rfl

theorem apply_monitor_released (st : DsState Thread Conn Txn) (th : Thread) (he : e.released = some t) :
    (st.apply th e).monitor = Function.update st.monitor t none := by
  cases e with
  | returnWrapper t' c release => cases he; rfl
  | raise x release called => cases he; rfl
  | _ => cases he

variable [DecidableEq Thread]

omit [DecidableEq Conn] [DecidableEq Txn] in
/-- A thread moves on in the block that it is in. -/
theorem MonitorsExact.setPc (h : st.MonitorsExact) (hpc : pc.inside = (st.pc th).inside) :
    (st.setPc th pc).MonitorsExact := by
  refine fun t => (h t).stays fun th' => ?_
  by_cases hth : th' = th
  · subst hth
    rw [setPc_self, hpc]
  · rw [setPc_of_ne hth]

theorem MonitorsExact.step (h : st.MonitorsExact) (hcalls : st.CallsExist) {a : DsAction Thread Conn Txn}
    (hs : st.step a = some st') : st'.MonitorsExact := by
  cases steps_of_step hs with
  | setStatus => exact h
  | getConnection hidle => exact h.setPc (by rw [hidle]; rfl)
  | call hidle => exact h.setPc (by rw [hidle, callEntry_inside]; rfl)
  | @afterCompletion th t i s hidle =>
    have hrun : (st.runSynchronization t i).MonitorsExact := h
    exact hrun.setPc (by rw [synchronization_inside]; exact (congrArg Pc.inside hidle).symm)
  | closeLent => exact h
  | @step th answer pc e hinstr =>
    have hblock : BlockStep st (st.pc th) pc e := by
      rcases hcalls.cases hinstr with hown | ⟨w, call, wrapper, -, -, hstep⟩
      · exact hown.block
      · exact hstep.block
    have hothers : ∀ th' t', th' ≠ th → ((((st.apply th e).setPc th pc).pc th').inside = some t' ↔
        (st.pc th').inside = some t') := fun th' t' hth => by rw [setPc_of_ne hth, apply_pc]
    cases hblock with
    | enters t he hfree hpc hpc' =>
      subst he
      intro t'
      show Owns (Function.update st.monitor t (some th) t') _
      by_cases ht : t' = t
      · subst ht
        rw [Function.update_self]
        exact (hfree ▸ h t').acquire (by rw [setPc_self, hpc']) fun th' hth => hothers th' t' hth
      · rw [Function.update_of_ne ht]
        refine (h t').stays fun th' => ?_
        by_cases hth : th' = th
        · subst hth
          rw [setPc_self, hpc, hpc', Option.some.injEq]
          simp only [reduceCtorEq, iff_false]
          exact fun heq => ht heq.symm
        · exact hothers th' t' hth
    | leaves t he hpc hpc' =>
      intro t'
      show Owns ((st.apply th e).monitor t') _
      rw [apply_monitor_released st th he]
      by_cases ht : t' = t
      · subst ht
        rw [Function.update_self]
        exact (h t').release hpc (by rw [setPc_self, hpc']; nofun) fun th' hth => hothers th' t' hth
      · rw [Function.update_of_ne ht]
        refine (h t').stays fun th' => ?_
        by_cases hth : th' = th
        · subst hth
          rw [setPc_self, hpc, hpc', Option.some.injEq]
          simp only [reduceCtorEq, false_iff]
          exact fun heq => ht heq.symm
        · exact hothers th' t' hth
    | stays he he' hpc =>
      have hkept : (st.apply th e).MonitorsExact := by
        intro t'
        rw [apply_monitor st th he he', apply_pc]
        exact h t'
      refine hkept.setPc ?_
      rw [apply_pc]
      exact hpc

theorem monitorsExact_of_reaches {status : Txn → Status} {pooled : Conn → Bool}
    (h : Reaches step (start status pooled) st) : st.MonitorsExact := by
  have hboth : st.CallsExist ∧ st.MonitorsExact := by
    refine Runs.invariant (I := fun st => st.CallsExist ∧ st.MonitorsExact)
      ⟨fun th w call hcall => (by cases hcall), fun t th => ?_⟩
      (fun s a s' hI _ hs => ⟨hI.1.step hs, hI.2.step hI.1 hs⟩) h
    show none = some th ↔ none = some t
    simp only [reduceCtorEq]
  exact hboth.2

/-- **Mutual exclusion**: in every reachable state the monitor of a transaction is held by the thread in its
synchronized block, at most one, and is free when there is none. -/
theorem mutual_exclusion {status : Txn → Status} {pooled : Conn → Bool} (h : Reaches step (start status pooled) st) :
    (∀ t th, st.monitor t = some th ↔ (st.pc th).inside = some t) ∧
      ∀ th th' t, (st.pc th).inside = some t → (st.pc th').inside = some t → th = th' := by
  have hexact := monitorsExact_of_reaches h
  exact ⟨hexact, fun th th' t hth hth' => (hexact t).alone hth hth'⟩

/-! ### Who waits -/

/-- The thread can go on, and not by an exception. -/
def CanMove (st : DsState Thread Conn Txn) (th : Thread) : Prop :=
  ∃ answer, (∀ x, answer ≠ .raises x) ∧ (st.step (.step th answer)).isSome

/-- The thread waits for a connection, and the pool has none. -/
def AtEmptyPool (st : DsState Thread Conn Txn) (th : Thread) : Prop :=
  (∃ p conn1, st.pc th = .checkout p conn1) ∧ ∀ c, st.pooled c = false

theorem canMove_iff : st.CanMove th ↔ ∃ answer, (∀ x, answer ≠ .raises x) ∧ (st.instr (st.pc th) answer).isSome := by
  simp only [CanMove, step, Option.isSome_map]

/-- What keeps a thread from going on. -/
theorem canMove_cases (hcalls : st.CallsExist) (hidle : st.pc th ≠ .idle) :
    st.CanMove th ∨ st.AtEmptyPool th ∨ ∃ t, (st.pc th).wants = some t ∧ st.monitor t ≠ none := by
  have hwrapper : ∀ w call, (st.pc th).inCall = some (w, call) → ∃ wrapper, st.wrappers[w]? = some wrapper :=
    fun w call hcall => ⟨_, List.getElem?_eq_getElem (hcalls th w call hcall)⟩
  have hgo : (st.proceed (st.pc th)).isSome → st.CanMove th := fun hsome =>
    canMove_iff.mpr ⟨.go, fun x hx => (by cases hx), hsome⟩
  cases hpc : st.pc th with
  | idle => exact absurd hpc hidle
  | checkout p conn1 =>
    by_cases hpool : ∃ c, st.pooled c = true
    · obtain ⟨c, hc⟩ := hpool
      refine .inl (canMove_iff.mpr ⟨.connection c, fun x hx => (by cases hx), ?_⟩)
      simp [hpc, instr, hc]
    · refine .inr (.inl ⟨⟨p, conn1, hpc⟩, fun c => ?_⟩)
      simpa using fun hc => hpool ⟨c, hc⟩
  | enter t =>
    by_cases hfree : st.monitor t = none
    · exact .inl (hgo (by simp [hpc, proceed, hfree]))
    · exact .inr (.inr ⟨t, rfl, hfree⟩)
  | acquire c t =>
    by_cases hfree : st.monitor t = none
    · exact .inl (hgo (by simp [hpc, proceed, hfree]))
    · exact .inr (.inr ⟨t, rfl, hfree⟩)
  | current o transaction =>
    refine .inl (hgo ?_)
    cases transaction with
    | none => simp [hpc, proceed]
    | some t => by_cases hactive : (st.status t).isActive <;> simp [hpc, proceed, hactive]
  | lookup o t =>
    refine .inl (hgo ?_)
    cases hfound : st.transactionMemory t with
    | none => cases o <;> simp [hpc, proceed, hfound]
    | some context => simp [hpc, proceed, hfound]
  | containsKey p c => exact .inl (hgo (by simp only [hpc, proceed]; split <;> rfl))
  | owner p c => exact .inl (hgo (by simp only [hpc, proceed]; split <;> rfl))
  | isActive p c t => exact .inl (hgo (by simp only [hpc, proceed]; split <;> rfl))
  | recheck c t => exact .inl (hgo (by simp only [hpc, proceed]; split <;> rfl))
  | inTransaction w call =>
    obtain ⟨wrapper, hw⟩ := hwrapper w call (by rw [hpc]; rfl)
    exact .inl (hgo (by simp only [hpc, proceed, hw]; split <;> rfl))
  | guarded w call t => exact .inl (hgo (by simp only [hpc, proceed]; split <;> [split; skip] <;> rfl))
  | closeOwner w =>
    obtain ⟨wrapper, hw⟩ := hwrapper w .close (by rw [hpc]; rfl)
    exact .inl (hgo (by simp only [hpc, proceed, hw]; split <;> rfl))
  | closeOnce w t =>
    obtain ⟨wrapper, hw⟩ := hwrapper w .close (by rw [hpc]; rfl)
    exact .inl (hgo (by simp only [hpc, proceed, hw]; split <;> rfl))
  | closeLater w t =>
    obtain ⟨wrapper, hw⟩ := hwrapper w .close (by rw [hpc]; rfl)
    exact .inl (hgo (by simp only [hpc, proceed, hw]; rfl))
  | plainCall w call =>
    obtain ⟨wrapper, hw⟩ := hwrapper w call (by rw [hpc]; rfl)
    exact .inl (hgo (by simp only [hpc, proceed, hw]; rfl))
  | _ => exact .inl (hgo (by rw [hpc]; rfl))

omit [DecidableEq Thread] [DecidableEq Conn] [DecidableEq Txn] in
/-- A thread in a block wants no monitor. -/
theorem wants_of_inside (h : pc.inside = some t) : pc.wants = none := by
  cases pc <;> first | rfl | cases h

/-- **Waiting**: in every reachable state a thread in a call that cannot go on waits for an empty pool, or for the
monitor of another thread, which can go on or waits for an empty pool itself; and conversely.  So monitors alone are
waited for in no cycle, and a connection in the pool keeps the data source going. -/
theorem waits_iff {status : Txn → Status} {pooled : Conn → Bool} (h : Reaches step (start status pooled) st)
    (th : Thread) (hidle : st.pc th ≠ .idle) :
    ¬ st.CanMove th ↔ st.AtEmptyPool th ∨ ∃ t owner, (st.pc th).wants = some t ∧ st.monitor t = some owner ∧
      owner ≠ th ∧ (st.pc owner).inside = some t ∧ (st.CanMove owner ∨ st.AtEmptyPool owner) := by
  have hexact := monitorsExact_of_reaches h
  have hcalls := callsExist_of_reaches h
  constructor
  · intro hstuck
    rcases canMove_cases hcalls hidle with hmove | hpool | ⟨t, hwants, howned⟩
    · exact absurd hmove hstuck
    · exact .inl hpool
    · obtain ⟨owner, howner⟩ := Option.ne_none_iff_exists'.mp howned
      have hin : (st.pc owner).inside = some t := (hexact t owner).mp howner
      have hne : owner ≠ th := fun heq => by
        rw [heq] at hin
        rw [wants_of_inside hin] at hwants
        cases hwants
      refine .inr ⟨t, owner, hwants, howner, hne, hin, ?_⟩
      have hbusy : st.pc owner ≠ .idle := fun hpc => by rw [hpc] at hin; cases hin
      rcases canMove_cases hcalls hbusy with hmove | hpool | ⟨t', hwants', -⟩
      · exact .inl hmove
      · exact .inr hpool
      · rw [wants_of_inside hin] at hwants'
        cases hwants'
  · rintro (⟨⟨p, conn1, hpc⟩, hempty⟩ | ⟨t, owner, hwants, howner, -⟩) hmove
    · obtain ⟨answer, hraise, hsome⟩ := canMove_iff.mp hmove
      rw [hpc] at hsome
      cases answer with
      | go => cases hsome
      | connection c => simp [instr, hempty c] at hsome
      | refuses => cases hsome
      | raises x => exact hraise x rfl
    · obtain ⟨answer, hraise, hsome⟩ := canMove_iff.mp hmove
      cases hpc : st.pc th <;> rw [hpc] at hwants hsome <;> cases hwants
      all_goals
        cases answer with
        | go => simp [instr, proceed, howner] at hsome
        | connection c => cases hsome
        | refuses => cases hsome
        | raises x => exact hraise x rfl

end DsState

/-! ### How long a call takes -/

/-- The steps that a thread at this point has before it, if the pool hands nothing out. -/
def Pc.rank : Pc Conn Txn → ℕ
  | .idle => 0
  | .current _ _ => 11
  | .lookup _ _ => 10
  | .enter _ => 9
  | .checkout _ none => 8
  | .checkout _ (some _) => 9
  | .swap _ _ _ => 13
  | .containsKey _ _ => 12
  | .owner _ _ => 11
  | .isActive _ _ _ => 10
  | .removeTransaction _ _ (.free _) => 9
  | .removeConnection _ _ (.free _) => 8
  | .acquire _ _ => 7
  | .recheck _ _ => 6
  | .putTransaction _ _ => 5
  | .putConnection _ _ => 4
  | .enlistResource _ _ => 3
  | .synchronize _ _ => 2
  | .leave _ _ | .give _ | .hit _ _ => 1
  | .inTransaction _ _ => 6
  | .guarded _ _ _ => 5
  | .closeOwner _ => 4
  | .closeOnce _ _ => 3
  | .closeLater _ _ => 2
  | .plainCall _ _ => 1
  | .removeTransaction _ _ .callback => 2
  | .removeConnection _ _ .callback | .closePlain _ => 1

/-- Does the pool hand out a connection here? -/
def Answer.handsOut : Answer Conn → ℕ
  | .connection _ => 1
  | _ => 0

/-- On the way through `getConnection`. -/
def Pc.inGetConnection : Pc Conn Txn → Bool
  | .current _ _ | .lookup _ _ | .hit _ _ | .enter _ | .checkout _ _ | .swap _ _ _ | .containsKey _ _ => true
  | .owner _ _ | .isActive _ _ _ | .removeTransaction _ _ (.free _) | .removeConnection _ _ (.free _) => true
  | .give _ | .acquire _ _ | .recheck _ _ | .putTransaction _ _ | .putConnection _ _ | .enlistResource _ _ => true
  | .synchronize _ _ | .leave _ _ => true
  | _ => false

theorem inGetConnection_of_wants (h : pc.wants = some t) : pc.inGetConnection = true := by
  cases pc <;> first | rfl | cases h

theorem found_rank (p : Purpose Txn) (c : Conn) : (p.found c).rank ≤ 7 := by
  rcases found_cases p c with h | ⟨t, h | h⟩ <;> simp [h, Pc.rank]

theorem rank_pos_of_mayRaise (h : pc.mayRaise) : 0 < pc.rank := by
  cases pc with
  | checkout p conn1 => cases conn1 <;> exact Nat.succ_pos _
  | _ => first | exact Nat.succ_pos _ | cases h

theorem OwnStep.rank (h : OwnStep st pc answer pc' e) : 1 + pc'.rank ≤ pc.rank + 5 * answer.handsOut := by
  cases h with
  | @takes p conn1 c => cases conn1 <;> exact le_rfl
  | @unregistered p c =>
    have := found_rank p c
    show 1 + _ ≤ 12 + 0
    omega
  | @removesConnection c t k =>
    cases k with
    | free p =>
      have := found_rank p c
      show 1 + (p.found c).rank ≤ 8 + 0
      omega
    | callback => exact le_rfl
  | @removesTransaction c t k => cases k <;> exact le_rfl
  | raises hraise =>
    have := rank_pos_of_mayRaise hraise
    show 1 + 0 ≤ _ + 0
    omega
  | _ => simp [Pc.rank, Answer.handsOut]

theorem DsState.WrapperStep.rank {w : ℕ} {wrapper : TransactionConnectionWrapper Conn Txn}
    (h : DsState.WrapperStep st w wrapper pc answer pc' e) : 1 + pc'.rank ≤ pc.rank := by
  cases h <;> simp [Pc.rank]

/-- A completion callback stays one, and takes no connection. -/
theorem OwnStep.callback (h : OwnStep st pc answer pc' e) (hpc : pc.inGetConnection = false) :
    pc'.inGetConnection = false ∧ answer.handsOut = 0 := by
  cases h with
  | @removesConnection c t k =>
    cases k with
    | free => cases hpc
    | callback => exact ⟨rfl, rfl⟩
  | @removesTransaction c t k =>
    cases k with
    | free => cases hpc
    | callback => exact ⟨rfl, rfl⟩
  | closesPlain => exact ⟨rfl, rfl⟩
  | raises => exact ⟨rfl, rfl⟩
  | _ => cases hpc

theorem DsState.WrapperStep.stays {w : ℕ} {wrapper : TransactionConnectionWrapper Conn Txn}
    (h : DsState.WrapperStep st w wrapper pc answer pc' e) :
    pc'.inGetConnection = false ∧ answer.handsOut = 0 := by
  cases h <;> exact ⟨rfl, rfl⟩

/-- The action starts a call of the thread. -/
def DsAction.Starts (th : Thread) : DsAction Thread Conn Txn → Prop
  | .getConnection th' _ _ | .call th' _ _ | .afterCompletion th' _ _ => th' = th
  | _ => False

section

variable [DecidableEq Thread]

/-- The steps of the thread among the actions, and the connections that it is handed. -/
def DsAction.ownSteps (th : Thread) : DsAction Thread Conn Txn → ℕ
  | .step th' _ => if th' = th then 1 else 0
  | _ => 0

def DsAction.handed (th : Thread) : DsAction Thread Conn Txn → ℕ
  | .step th' answer => if th' = th then answer.handsOut else 0
  | _ => 0

variable [DecidableEq Conn] [DecidableEq Txn]

namespace DsState

/-- Within its call only its own steps change the rank of a thread. -/
theorem step_beside {a : DsAction Thread Conn Txn} (hs : st.step a = some st') (ha : ¬ a.Starts th)
    (hown : ∀ answer, a ≠ .step th answer) : st'.pc th = st.pc th ∧ a.ownSteps th = 0 ∧ a.handed th = 0 := by
  cases steps_of_step hs with
  | setStatus => exact ⟨rfl, rfl, rfl⟩
  | getConnection => exact ⟨setPc_of_ne fun heq => ha heq.symm, rfl, rfl⟩
  | call => exact ⟨setPc_of_ne fun heq => ha heq.symm, rfl, rfl⟩
  | afterCompletion => exact ⟨setPc_of_ne fun heq => ha heq.symm, rfl, rfl⟩
  | closeLent => exact ⟨rfl, rfl, rfl⟩
  | @step th' answer pc e hinstr =>
    have hne : th' ≠ th := fun heq => hown answer (heq ▸ rfl)
    refine ⟨?_, if_neg hne, if_neg hne⟩
    rw [setPc_of_ne (Ne.symm hne), apply_pc]

theorem rank_step {a : DsAction Thread Conn Txn} (hcalls : st.CallsExist) (ha : ¬ a.Starts th)
    (hs : st.step a = some st') : a.ownSteps th + (st'.pc th).rank ≤ (st.pc th).rank + 5 * a.handed th ∧
      ((st.pc th).inGetConnection = false → (st'.pc th).inGetConnection = false ∧ a.handed th = 0) := by
  by_cases hown : ∃ answer, a = .step th answer
  · obtain ⟨answer, rfl⟩ := hown
    simp only [step, Option.map_eq_some_iff, Prod.exists] at hs
    obtain ⟨pc, e, hinstr, rfl⟩ := hs
    simp only [DsAction.ownSteps, DsAction.handed, if_true, setPc_self]
    rcases hcalls.cases hinstr with hstep | ⟨w, call, wrapper, hin, hw, hstep⟩
    · exact ⟨hstep.rank, hstep.callback⟩
    · have hrank := hstep.rank
      exact ⟨by omega, fun _ => hstep.stays⟩
  · obtain ⟨hpc, hsteps, hhanded⟩ := step_beside hs ha fun answer heq => hown ⟨answer, heq⟩
    rw [hpc, hsteps, hhanded]
    exact ⟨by omega, fun h => ⟨h, rfl⟩⟩

/-- **Bounded work**: a call of `getConnection` returns, or raises, within 11 steps of its thread and 5 for each
connection that the pool hands it, however the other threads are scheduled. -/
theorem getConnection_bounded {status : Txn → Status} {pooled : Conn → Bool} (h : Reaches step (start status pooled) st)
    {o : Overload} {transaction : Option Txn} (hs : st.step (.getConnection th o transaction) = some st')
    {as : List (DsAction Thread Conn Txn)} (has : ∀ a ∈ as, ¬ a.Starts th) {u : DsState Thread Conn Txn}
    (hexec : exec step st' as = some u) :
    (as.map (·.ownSteps th)).sum + (u.pc th).rank ≤ 11 + 5 * (as.map (·.handed th)).sum := by
  have hcalls : st'.CallsExist := (callsExist_of_reaches h).step hs
  have halong : Along step (fun s a => ¬ a.Starts th ∧ s.CallsExist) st' as :=
    Along.of_invariant (fun s a t hI _ hs => hI.step hs) (fun s a hI ha => ⟨ha, hI⟩) as hcalls
      (Along.of_forall as st' fun a ha _ => has a ha)
  have hstep : ∀ (s : DsState Thread Conn Txn) (a : DsAction Thread Conn Txn) (t : DsState Thread Conn Txn),
      ¬ a.Starts th ∧ s.CallsExist → step s a = some t →
      a.ownSteps th + (t.pc th).rank ≤ (s.pc th).rank + 5 * a.handed th :=
    fun s a t hok hs => (rank_step hok.2 hok.1 hs).1
  have hbound := Along.potential hstep as halong hexec
  have hentry : (st'.pc th).rank = 11 := by
    cases steps_of_step hs
    rw [setPc_self]
    rfl
  rw [hentry, List.sum_map_mul_left] at hbound
  exact hbound

/-- **Wait freedom**: a call of a wrapper's method, or a completion callback, takes at most 6 steps of its thread, and
its thread can go on in every state until it has returned, however the other threads are scheduled. -/
theorem wrapper_waitFree {status : Txn → Status} {pooled : Conn → Bool} (h : Reaches step (start status pooled) st)
    {a : DsAction Thread Conn Txn} (ha : a.Starts th) (hget : ∀ o transaction, a ≠ .getConnection th o transaction)
    (hs : st.step a = some st') {as : List (DsAction Thread Conn Txn)} (has : ∀ a ∈ as, ¬ a.Starts th)
    {u : DsState Thread Conn Txn} (hexec : exec step st' as = some u) :
    (as.map (·.ownSteps th)).sum + (u.pc th).rank ≤ 6 ∧ (u.pc th = .idle ∨ u.CanMove th) := by
  have hcalls : st'.CallsExist := (callsExist_of_reaches h).step hs
  have hentry : (st'.pc th).rank ≤ 6 ∧ (st'.pc th).inGetConnection = false := by
    cases steps_of_step hs with
    | getConnection => exact absurd (by rw [show _ = th from ha]) (hget _ _)
    | @call th' w call =>
      obtain rfl : th' = th := ha
      rw [setPc_self]
      cases call <;> simp [Call.entry, Pc.rank, Pc.inGetConnection]
    | @afterCompletion th' t i s =>
      obtain rfl : th' = th := ha
      rw [setPc_self]
      cases s <;> simp [Synchronization.entry, Pc.rank, Pc.inGetConnection]
    | _ => exact absurd ha id
  have hkeep : ∀ (s : DsState Thread Conn Txn) (a : DsAction Thread Conn Txn) (t : DsState Thread Conn Txn),
      s.CallsExist ∧ (s.pc th).inGetConnection = false → ¬ a.Starts th → step s a = some t →
      t.CallsExist ∧ (t.pc th).inGetConnection = false :=
    fun s a t hI ha hs => ⟨hI.1.step hs, ((rank_step hI.1 ha hs).2 hI.2).1⟩
  have hwithin : Along step (fun _ a => ¬ a.Starts th) st' as := Along.of_forall as st' fun a ha _ => has a ha
  have halong : Along step (fun s a => ¬ a.Starts th ∧ s.CallsExist ∧ (s.pc th).inGetConnection = false) st' as :=
    Along.of_invariant hkeep (fun s a hI ha => ⟨ha, hI⟩) as ⟨hcalls, hentry.2⟩ hwithin
  have hstep : ∀ (s : DsState Thread Conn Txn) (a : DsAction Thread Conn Txn) (t : DsState Thread Conn Txn),
      ¬ a.Starts th ∧ s.CallsExist ∧ (s.pc th).inGetConnection = false → step s a = some t →
      a.ownSteps th + (t.pc th).rank ≤ (s.pc th).rank + (fun _ => 0) a := fun s a t hok hs => by
    obtain ⟨hrank, hstays⟩ := rank_step hok.2.1 hok.1 hs
    rw [(hstays hok.2.2).2] at hrank
    exact hrank
  have hbound := Along.potential hstep as halong hexec
  have hend : u.CallsExist ∧ (u.pc th).inGetConnection = false :=
    Runs.invariant (I := fun s => s.CallsExist ∧ (s.pc th).inGetConnection = false) ⟨hcalls, hentry.2⟩ hkeep
      (Runs.of_along as hwithin hexec)
  refine ⟨?_, ?_⟩
  · have hsum : (as.map (·.ownSteps th)).sum + (u.pc th).rank ≤ (st'.pc th).rank := by simpa using hbound
    exact hsum.trans hentry.1
  · by_cases hidle : u.pc th = .idle
    · exact .inl hidle
    · refine .inr ?_
      rcases canMove_cases hend.1 hidle with hmove | ⟨⟨p, conn1, hpc⟩, -⟩ | ⟨t, hwants, -⟩
      · exact hmove
      · rw [hpc] at hend
        cases hend.2
      · rw [inGetConnection_of_wants hwants] at hend
        cases hend.2

end DsState

end

/-! ### In the small world -/

namespace DsState

theorem mutual_exclusion_searching : ∃ st : DsState Bool Bool Unit, st.monitor () = some false ∧
    ∀ th, (st.pc th).inside = some () → th = false := by
  have hreach : ∃ st, Reaches step twoPooled st ∧ st.monitor () = some false :=
    Runs.of_exec_map (looks false .userPassword ++ [.step false .go]) rfl
  obtain ⟨st, hreach, hmonitor⟩ := hreach
  obtain ⟨hexact, halone⟩ := mutual_exclusion hreach
  exact ⟨st, hmonitor, fun th hth => halone th false () hth ((hexact () false).mp hmonitor)⟩

/-- One connection in the pool, which a plain `getConnection` has found, while a `getConnection(username, password)` in
the same transaction waits for one in the block. -/
def deadlocks : List (DsAction Bool Bool Unit) :=
  looks true .userPassword ++ looks false .plain ++
    [.step false (.connection false), .step false .go, .step true .go]

def onePooled : DsState Bool Bool Unit := start (fun _ => .active) fun c => !c

/-- **Deadlock**: the thread that owns the monitor waits for a connection, the one that has the connection waits for the
monitor, and neither can go on. -/
theorem waits_iff_deadlock : ∃ st : DsState Bool Bool Unit, Reaches step onePooled st ∧
    (st.monitor () = some true ∧ st.AtEmptyPool true ∧ ¬ st.CanMove true) ∧
      ∃ c, st.pc false = .acquire c () ∧ ¬ st.CanMove false := by
  obtain ⟨st, hreach, hview⟩ : ∃ st, Reaches step onePooled st ∧
      (st.pc false, st.pc true, st.monitor (), st.pooled false, st.pooled true) =
        (.acquire false (), .checkout (.inside .userPassword ()) none, some true, false, false) :=
    Runs.of_exec_map deadlocks rfl
  simp only [Prod.mk.injEq] at hview
  obtain ⟨hfalse, htrue, hmonitor, hempty, hempty'⟩ := hview
  have hpool : st.AtEmptyPool true := ⟨⟨_, _, htrue⟩, fun c => by cases c <;> assumption⟩
  have hidle : st.pc false ≠ .idle := by rw [hfalse]; exact fun h => by cases h
  have hidle' : st.pc true ≠ .idle := by rw [htrue]; exact fun h => by cases h
  refine ⟨st, hreach, ⟨hmonitor, hpool, (waits_iff hreach true hidle').mpr (.inl hpool)⟩, false, hfalse,
    (waits_iff hreach false hidle).mpr (.inr ⟨(), true, ?_⟩)⟩
  exact ⟨by rw [hfalse]; rfl, hmonitor, by decide, by rw [htrue]; rfl, .inr hpool⟩

/-- A `getConnection(username, password)` that misses and registers is handed one connection in ten steps. -/
theorem getConnection_bounded_registers : ∃ as : List (DsAction Bool Bool Unit),
    (as.map (·.ownSteps false)).sum = 10 ∧ ∃ u, exec step twoPooled (.getConnection false .userPassword (some ()) :: as) =
      some u ∧ (as.map (·.ownSteps false)).sum + (u.pc false).rank ≤ 11 + 5 * (as.map (·.handed false)).sum := by
  refine ⟨[.step false .go, .step false .go] ++ registersLocking false false, rfl, _, rfl, ?_⟩
  exact getConnection_bounded (.refl : Reaches step twoPooled twoPooled) (o := .userPassword)
    (show twoPooled.step (.getConnection false .userPassword (some ())) = some _ from rfl)
    (by simp [registersLocking, DsAction.Starts]) rfl

/-- A close in the transaction returns after its five steps. -/
theorem wrapper_waitFree_close : ∃ as : List (DsAction Bool Bool Unit), (as.map (·.ownSteps false)).sum = 5 ∧
    ∃ u, exec step oneWrapped (.call false 0 .close :: as) = some u ∧
      (as.map (·.ownSteps false)).sum + (u.pc false).rank ≤ 6 := by
  have hreach : Reaches step twoPooled oneWrapped :=
    Runs.of_exec (looks false .userPassword ++ registersLocking false false) rfl
  refine ⟨List.replicate 5 (.step false .go), rfl, _, rfl, ?_⟩
  exact (wrapper_waitFree hreach (a := .call false 0 .close) rfl (fun _ _ h => by cases h) rfl
    (by simp [DsAction.Starts]) rfl).1

end DsState

end Dynamy.Services
