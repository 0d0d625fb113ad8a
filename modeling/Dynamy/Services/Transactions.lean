import Dynamy.Java
import Dynamy.Lib.Run
import Dynamy.Services.Connection
import Mathlib.Data.List.Perm.Basic
import Mathlib.Logic.Function.Basic

/-!
# Dynamy.Services.Transactions — the transaction-aware data source as a threaded machine

`TransactionAwareDS` and `TransactionConnectionWrapper`, one atomic step for each access to something shared: a map
operation, a status read, a monitor, a call of the pool, of the transaction or of the plain connection.  `instr` is
what a thread does next, given what the outside answers (`Answer`); it names the new program point and one `Effect`
on the shared state, which `apply` performs.  The rest of the world (`DsAction`) starts calls, moves transactions
through their statuses, runs completion callbacks in any order, and closes connections it was lent.

The two status reads of `isTransactionActive` are one step: no status returns to `ACTIVE`.
-/

namespace Dynamy.Services

open Dynamy.Java Dynamy.Lib

/-- The statuses of a transaction; `completed` stands for the three that a transaction ends in. -/
inductive Status
  | active | markedRollback | preparing | prepared | committing | rollingBack | unknown | completed
  deriving DecidableEq, Repr

variable {Thread Conn Txn : Type}

structure TransactionContext (Conn Txn : Type) where
  currentConnection : Conn
  transaction : Txn
  deriving DecidableEq

/-- `getConnection()` or `getConnection(username, password)`. -/
inductive Overload
  | plain | userPassword
  deriving DecidableEq, Repr

/-- A method of a wrapper: the guarded ones, `unwrap`, and those that only forward. -/
inductive Call
  | close | commit | rollback
  | setAutoCommit (autoCommit : Bool)
  | setReadOnly (readOnly : Bool)
  | unwrap
  | delegate (method : Method)
  deriving DecidableEq, Repr

/-- Whom `findFreeConnection` searches for. -/
inductive Purpose (Txn : Type)
  | outside
  | inside (o : Overload) (t : Txn)
  deriving DecidableEq

/-- What follows `terminateTransaction`: the end of `isFreeConnection`, or of a completion callback. -/
inductive AfterTerminate (Txn : Type)
  | free (p : Purpose Txn)
  | callback
  deriving DecidableEq

/-- The point a thread has reached; each constructor is named after the access that comes next. -/
inductive Pc (Conn Txn : Type)
  | idle
  /-- `currentTransaction`, with what `getTransaction` returned -/
  | current (o : Overload) (transaction : Option Txn)
  /-- `transactionMemory.get(transaction)` -/
  | lookup (o : Overload) (t : Txn)
  /-- `new TransactionConnectionWrapper(connection, ..)` on the connection of a context -/
  | hit (t : Txn) (c : Conn)
  /-- `transaction.synchronized`, before the search -/
  | enter (t : Txn)
  /-- `super.getConnection`, to replace `conn1` if there is one -/
  | checkout (p : Purpose Txn) (conn1 : Option Conn)
  /-- `conn1.close(); conn1 = conn` -/
  | swap (p : Purpose Txn) (conn1 conn : Conn)
  /-- `connectionMemory.containsKey(c)` -/
  | containsKey (p : Purpose Txn) (c : Conn)
  /-- `connectionMemory.get(c).transaction` -/
  | owner (p : Purpose Txn) (c : Conn)
  /-- `isTransactionActive(transaction)` -/
  | isActive (p : Purpose Txn) (c : Conn) (t : Txn)
  /-- `transactionMemory.remove(t)` -/
  | removeTransaction (c : Conn) (t : Txn) (k : AfterTerminate Txn)
  /-- `connectionMemory.remove(c)` -/
  | removeConnection (c : Conn) (t : Txn) (k : AfterTerminate Txn)
  /-- return `c` to a caller without a transaction -/
  | give (c : Conn)
  /-- `transaction.synchronized`, after the search -/
  | acquire (c : Conn) (t : Txn)
  /-- `transactionMemory.containsKey(transaction)` -/
  | recheck (c : Conn) (t : Txn)
  /-- `transactionMemory.put(t, tc)` -/
  | putTransaction (c : Conn) (t : Txn)
  /-- `connectionMemory.put(c, tc)` -/
  | putConnection (c : Conn) (t : Txn)
  /-- `t.enlistResource(..)` -/
  | enlistResource (c : Conn) (t : Txn)
  /-- `t.registerSynchronization(..)` with `terminateTransaction` -/
  | synchronize (c : Conn) (t : Txn)
  /-- `new TransactionConnectionWrapper(conn, ..)` and the end of the synchronized block -/
  | leave (c : Conn) (t : Txn)
  /-- `connectionMemory(plainConn)` -/
  | inTransaction (w : ℕ) (call : Call)
  /-- `isTransactionActive(transaction)` in a wrapper -/
  | guarded (w : ℕ) (call : Call) (t : Txn)
  /-- `connectionMemory.get(plainConn)` in `close` -/
  | closeOwner (w : ℕ)
  /-- `closed.compareAndSet(false, true)` -/
  | closeOnce (w : ℕ) (t : Txn)
  /-- `transaction.registerSynchronization(..)` with `plainConn.close()` -/
  | closeLater (w : ℕ) (t : Txn)
  /-- the method of the plain connection -/
  | plainCall (w : ℕ) (call : Call)
  /-- `plainConn.close()` in a callback -/
  | closePlain (c : Conn)
  deriving DecidableEq

/-- A registered `afterCompletion`. -/
inductive Synchronization (Conn : Type)
  | terminateTransaction (c : Conn)
  | closePlain (c : Conn)
  deriving DecidableEq

/-- A wrapper, with the transaction of the call that returned it. -/
structure TransactionConnectionWrapper (Conn Txn : Type) where
  plainConn : Conn
  caller : Txn
  closed : Bool := false
  deriving DecidableEq

structure DsState (Thread Conn Txn : Type) where
  status : Txn → Status
  transactionMemory : Txn → Option (TransactionContext Conn Txn)
  connectionMemory : Conn → Option (TransactionContext Conn Txn)
  /-- who is in the synchronized block of a transaction -/
  monitor : Txn → Option Thread
  /-- the connections that wait in the pool -/
  pooled : Conn → Bool
  synchronizations : Txn → List (Synchronization Conn)
  wrappers : List (TransactionConnectionWrapper Conn Txn)
  /-- the connections returned outside any transaction -/
  lent : List Conn
  enlisted : List (Txn × Conn)
  /-- the calls that reached plain connections -/
  plainCalls : List (Conn × Call)
  raised : List (Thread × Throwable)
  pc : Thread → Pc Conn Txn

/-- What the outside answers to a step: all is well, the pool hands out a connection, `enlistResource` returns `false`,
or something is raised. -/
inductive Answer (Conn : Type)
  | go
  | connection (c : Conn)
  | refuses
  | raises (e : Throwable)

/-- What one step does to the shared state, and to a plain connection. -/
inductive Effect (Conn Txn : Type)
  | skip
  | acquire (t : Txn)
  | checkout (c : Conn)
  | plainCall (c : Conn) (call : Call)
  | putTransaction (t : Txn) (c : Conn)
  | putConnection (t : Txn) (c : Conn)
  | removeTransaction (t : Txn)
  | removeConnection (c : Conn)
  | enlistResource (t : Txn) (c : Conn)
  | registerSynchronization (t : Txn) (s : Synchronization Conn)
  | setClosed (w : ℕ)
  | returnWrapper (t : Txn) (c : Conn) (release : Option Txn)
  | returnPlain (c : Conn)
  /-- `e` ends the call; `called` is the call of a plain connection that raised it, if one did -/
  | raise (e : Throwable) (release : Option Txn) (called : Option (Conn × Call) := none)

/-- The call of a plain connection in a step. -/
def Effect.called : Effect Conn Txn → Option (Conn × Call)
  | .plainCall c call => some (c, call)
  | .raise _ _ called => called
  | _ => none

/-- `t.getStatus == Status.STATUS_ACTIVE || t.getStatus == Status.STATUS_MARKED_ROLLBACK` -/
def Status.isActive : Status → Bool
  | .active => true
  | .markedRollback => true
  | _ => false

/-- The monitor held during a search. -/
def Purpose.monitor : Purpose Txn → Option Txn
  | .inside .userPassword t => some t
  | _ => none

/-- Where a search ends that found `c`. -/
def Purpose.found (c : Conn) : Purpose Txn → Pc Conn Txn
  | .outside => .give c
  | .inside .plain t => .acquire c t
  | .inside .userPassword t => .putTransaction c t

def AfterTerminate.next (c : Conn) : AfterTerminate Txn → Pc Conn Txn
  | .free p => p.found c
  | .callback => .idle

/-- The texts of the exceptions of the guarded methods. -/
def Call.refusal : Call → String
  | .commit => "Cannot commit while in transaction"
  | .rollback => "Cannot rollback while in transaction"
  | .setAutoCommit _ => "Cannot set to autocommit while in transaction"
  | .setReadOnly _ => "Cannot set to redonly while in transaction"
  | _ => ""

/-- Where a method of a wrapper starts. -/
def Call.entry (w : ℕ) : Call → Pc Conn Txn
  | .unwrap => .idle
  | .delegate method => .plainCall w (.delegate method.forwarded)
  | call => .inTransaction w call

/-- The monitor that an exception at this point releases. -/
def Pc.release : Pc Conn Txn → Option Txn
  | .checkout p _ | .swap p _ _ | .owner p _ | .isActive p _ _ => p.monitor
  | .enlistResource _ t | .synchronize _ t => some t
  | _ => none

/-- The points at which the outside may raise an exception. -/
def Pc.mayRaise : Pc Conn Txn → Bool
  | .current _ _ | .checkout _ _ | .swap _ _ _ | .isActive _ _ _ | .enlistResource _ _ | .synchronize _ _ => true
  | .guarded _ _ _ | .closeLater _ _ | .plainCall _ _ | .closePlain _ => true
  | _ => false

namespace DsState

def start (status : Txn → Status) (pooled : Conn → Bool) : DsState Thread Conn Txn where
  status := status
  transactionMemory := fun _ => none
  connectionMemory := fun _ => none
  monitor := fun _ => none
  pooled := pooled
  synchronizations := fun _ => []
  wrappers := []
  lent := []
  enlisted := []
  plainCalls := []
  raised := []
  pc := fun _ => .idle

/-- What a thread does next when nothing is raised. -/
def proceed (st : DsState Thread Conn Txn) : Pc Conn Txn → Option (Pc Conn Txn × Effect Conn Txn)
  | .current _ none => some (.checkout .outside none, .skip)
  | .current o (some t) =>
    if (st.status t).isActive then some (.lookup o t, .skip) else some (.checkout .outside none, .skip)
  | .lookup o t =>
    match st.transactionMemory t with
    | some context => some (.hit t context.currentConnection, .skip)
    | none =>
      match o with
      | .plain => some (.checkout (.inside .plain t) none, .skip)
      | .userPassword => some (.enter t, .skip)
  | .hit t c => some (.idle, .returnWrapper t c none)
  | .enter t =>
    if (st.monitor t).isNone then some (.checkout (.inside .userPassword t) none, .acquire t) else none
  | .swap p conn1 c => some (.containsKey p c, .plainCall conn1 .close)
  | .containsKey p c =>
    if (st.connectionMemory c).isSome then some (.owner p c, .skip) else some (p.found c, .skip)
  | .owner p c =>
    match st.connectionMemory c with
    | some context => some (.isActive p c context.transaction, .skip)
    | none => some (.idle, .raise ⟨.nullPointer, none⟩ p.monitor)
  | .isActive p c t =>
    if (st.status t).isActive then some (.checkout p (some c), .skip)
    else some (.removeTransaction c t (.free p), .skip)
  | .removeTransaction c t k => some (.removeConnection c t k, .removeTransaction t)
  | .removeConnection c _ k => some (k.next c, .removeConnection c)
  | .give c => some (.idle, .returnPlain c)
  | .acquire c t => if (st.monitor t).isNone then some (.recheck c t, .acquire t) else none
  | .recheck c t =>
    if (st.transactionMemory t).isSome then some (.leave c t, .skip) else some (.putTransaction c t, .skip)
  | .putTransaction c t => some (.putConnection c t, .putTransaction t c)
  | .putConnection c t => some (.enlistResource c t, .putConnection t c)
  | .enlistResource c t => some (.synchronize c t, .enlistResource t c)
  | .synchronize c t => some (.leave c t, .registerSynchronization t (.terminateTransaction c))
  | .leave c t => some (.idle, .returnWrapper t c (some t))
  | .inTransaction w call =>
    match st.wrappers[w]? with
    | none => none
    | some wrapper =>
      match st.connectionMemory wrapper.plainConn with
      | some context => some (.guarded w call context.transaction, .skip)
      | none => some (.idle, .raise ⟨.noSuchElement, none⟩ none)
  | .guarded w call t =>
    if (st.status t).isActive then
      if call = .close then some (.closeOwner w, .skip) else some (.idle, .raise ⟨.sql, some call.refusal⟩ none)
    else some (.plainCall w call, .skip)
  | .closeOwner w =>
    match st.wrappers[w]? with
    | none => none
    | some wrapper =>
      match st.connectionMemory wrapper.plainConn with
      | some context => some (.closeOnce w context.transaction, .skip)
      | none => some (.idle, .raise ⟨.matchError, none⟩ none)
  | .closeOnce w t =>
    match st.wrappers[w]? with
    | none => none
    | some wrapper => if wrapper.closed then some (.idle, .skip) else some (.closeLater w t, .setClosed w)
  | .closeLater w t =>
    match st.wrappers[w]? with
    | none => none
    | some wrapper => some (.idle, .registerSynchronization t (.closePlain wrapper.plainConn))
  | .plainCall w call =>
    match st.wrappers[w]? with
    | none => none
    | some wrapper => some (.idle, .plainCall wrapper.plainConn call)
  | .closePlain c => some (.idle, .plainCall c .close)
  | .idle | .checkout _ _ => none

/-- The pool hands out `c`. -/
def checkoutNext (p : Purpose Txn) (c : Conn) : Option Conn → Pc Conn Txn
  | none => .containsKey p c
  | some conn1 => .swap p conn1 c

/-- The plain connection that is called at this point, with the method. -/
def callAt (st : DsState Thread Conn Txn) : Pc Conn Txn → Option (Conn × Call)
  | .swap _ conn1 _ => some (conn1, .close)
  | .plainCall w call => (st.wrappers[w]?).map fun wrapper => (wrapper.plainConn, call)
  | .closePlain c => some (c, .close)
  | _ => none

/-- What a thread does when the outside raises `e`.  A `NullPointerException` of the registration in `close` is caught
there; every other exception ends the call. -/
def interrupt (st : DsState Thread Conn Txn) (e : Throwable) : Pc Conn Txn → Option (Pc Conn Txn × Effect Conn Txn)
  | .closeLater w _ =>
    if e.cls = .nullPointer then some (.plainCall w .close, .skip) else some (.idle, .raise e none)
  | pc => if pc.mayRaise then some (.idle, .raise e pc.release (st.callAt pc)) else none

/-- What a thread does next. -/
def instr (st : DsState Thread Conn Txn) (pc : Pc Conn Txn) : Answer Conn → Option (Pc Conn Txn × Effect Conn Txn)
  | .go => st.proceed pc
  | .raises e => st.interrupt e pc
  | .refuses =>
    -- the result of `enlistResource` is not looked at
    match pc with
    | .enlistResource c t => some (.synchronize c t, .skip)
    | _ => none
  | .connection c =>
    match pc with
    | .checkout p conn1 => if st.pooled c then some (checkoutNext p c conn1, .checkout c) else none
    | _ => none

variable [DecidableEq Thread] [DecidableEq Conn] [DecidableEq Txn]

def release (st : DsState Thread Conn Txn) : Option Txn → DsState Thread Conn Txn
  | none => st
  | some t => { st with monitor := Function.update st.monitor t none }

/-- The plain connection is called; closing it puts it back into the pool. -/
def callPlain (st : DsState Thread Conn Txn) (c : Conn) (call : Call) : DsState Thread Conn Txn :=
  { st with
    plainCalls := st.plainCalls ++ [(c, call)]
    pooled := if call = .close then Function.update st.pooled c true else st.pooled }

def apply (st : DsState Thread Conn Txn) (th : Thread) : Effect Conn Txn → DsState Thread Conn Txn
  | .skip => st
  | .acquire t => { st with monitor := Function.update st.monitor t (some th) }
  | .checkout c => { st with pooled := Function.update st.pooled c false }
  | .plainCall c call => st.callPlain c call
  | .putTransaction t c => { st with transactionMemory := Function.update st.transactionMemory t (some ⟨c, t⟩) }
  | .putConnection t c => { st with connectionMemory := Function.update st.connectionMemory c (some ⟨c, t⟩) }
  | .removeTransaction t => { st with transactionMemory := Function.update st.transactionMemory t none }
  | .removeConnection c => { st with connectionMemory := Function.update st.connectionMemory c none }
  | .enlistResource t c => { st with enlisted := st.enlisted ++ [(t, c)] }
  | .registerSynchronization t s =>
    { st with synchronizations := Function.update st.synchronizations t (st.synchronizations t ++ [s]) }
  | .setClosed w => { st with wrappers := st.wrappers.modify w fun wrapper => { wrapper with closed := true } }
  | .returnWrapper t c release => { st.release release with wrappers := st.wrappers ++ [⟨c, t, false⟩] }
  | .returnPlain c => { st with lent := st.lent ++ [c] }
  | .raise e release called =>
    { st.release release with plainCalls := st.plainCalls ++ called.toList, raised := st.raised ++ [(th, e)] }

def setPc (st : DsState Thread Conn Txn) (th : Thread) (pc : Pc Conn Txn) : DsState Thread Conn Txn :=
  { st with pc := Function.update st.pc th pc }

omit [DecidableEq Conn] [DecidableEq Txn] in
theorem setPc_self (st : DsState Thread Conn Txn) (th : Thread) (pc : Pc Conn Txn) : (st.setPc th pc).pc th = pc :=
  Function.update_self ..

omit [DecidableEq Conn] [DecidableEq Txn] in
theorem setPc_of_ne {st : DsState Thread Conn Txn} {th th' : Thread} {pc : Pc Conn Txn} (h : th' ≠ th) :
    (st.setPc th pc).pc th' = st.pc th' :=
  Function.update_of_ne h ..

end DsState

@[simp] theorem DsState.apply_pc [DecidableEq Conn] [DecidableEq Txn] (st : DsState Thread Conn Txn) (th : Thread)
    (e : Effect Conn Txn) : (st.apply th e).pc = st.pc := by
  cases e with
  | returnWrapper t c release => cases release <;> rfl
  | raise x release called => cases release <;> rfl
  | _ => rfl

@[simp] theorem DsState.apply_status [DecidableEq Conn] [DecidableEq Txn] (st : DsState Thread Conn Txn) (th : Thread)
    (e : Effect Conn Txn) : (st.apply th e).status = st.status := by
  cases e with
  | returnWrapper t c release => cases release <;> rfl
  | raise x release called => cases release <;> rfl
  | _ => rfl

/-- **The calls of plain connections** are those that the effects name. -/
theorem DsState.apply_plainCalls [DecidableEq Conn] [DecidableEq Txn] (st : DsState Thread Conn Txn) (th : Thread)
    (e : Effect Conn Txn) : (st.apply th e).plainCalls = st.plainCalls ++ e.called.toList := by
  cases e with
  | plainCall c call => rfl
  | raise x release called => rfl
  | returnWrapper t c release => cases release <;> exact (List.append_nil _).symm
  | _ => exact (List.append_nil _).symm

/-- What happens next: to a transaction, to a thread, or to a connection lent outside. -/
inductive DsAction (Thread Conn Txn : Type)
  | setStatus (t : Txn) (status : Status)
  | getConnection (th : Thread) (o : Overload) (transaction : Option Txn)
  | call (th : Thread) (w : ℕ) (call : Call)
  | afterCompletion (th : Thread) (t : Txn) (i : ℕ)
  | closeLent (c : Conn)
  | step (th : Thread) (answer : Answer Conn)

/-- The body of a callback. -/
def Synchronization.entry (t : Txn) : Synchronization Conn → Pc Conn Txn
  | .terminateTransaction c => .removeTransaction c t .callback
  | .closePlain c => .closePlain c

namespace DsState

variable [DecidableEq Thread] [DecidableEq Conn] [DecidableEq Txn]

/-- The `i`-th callback of `t` is run, and not again. -/
def runSynchronization (st : DsState Thread Conn Txn) (t : Txn) (i : ℕ) : DsState Thread Conn Txn :=
  { st with synchronizations := Function.update st.synchronizations t ((st.synchronizations t).eraseIdx i) }

def step (st : DsState Thread Conn Txn) : DsAction Thread Conn Txn → Option (DsState Thread Conn Txn)
  | .setStatus t status =>
    -- a completed transaction stays completed
    if st.status t = .completed then none else some { st with status := Function.update st.status t status }
  | .getConnection th o transaction => if st.pc th = .idle then some (st.setPc th (.current o transaction)) else none
  | .call th w call => if st.pc th = .idle ∧ w < st.wrappers.length then some (st.setPc th (call.entry w)) else none
  | .afterCompletion th t i =>
    match (st.synchronizations t)[i]? with
    | none => none
    | some s =>
      if st.pc th = .idle ∧ st.status t = .completed then
        some ((st.runSynchronization t i).setPc th (s.entry t))
      else none
  | .closeLent c => if c ∈ st.lent then some (st.callPlain c .close) else none
  | .step th answer => (st.instr (st.pc th) answer).map fun (pc, effect) => (st.apply th effect).setPc th pc

end DsState

/-! ### What a step can do -/

/-- In a method of a wrapper. -/
def Pc.inWrapper : Pc Conn Txn → Bool
  | .inTransaction _ _ | .guarded _ _ _ | .closeOwner _ | .closeOnce _ _ | .closeLater _ _ | .plainCall _ _ => true
  | _ => false

/-- The steps that only move a thread on, with what they read. -/
inductive Moves (st : DsState Thread Conn Txn) : Pc Conn Txn → Pc Conn Txn → Prop
  | outside {o : Overload} {transaction : Option Txn} : Moves st (.current o transaction) (.checkout .outside none)
  | inside {o : Overload} {t : Txn} (h : (st.status t).isActive) : Moves st (.current o (some t)) (.lookup o t)
  | found {o : Overload} {t : Txn} {context : TransactionContext Conn Txn}
      (h : st.transactionMemory t = some context) : Moves st (.lookup o t) (.hit t context.currentConnection)
  | missed {t : Txn} (h : st.transactionMemory t = none) :
      Moves st (.lookup .plain t) (.checkout (.inside .plain t) none)
  | missedLocking {t : Txn} (h : st.transactionMemory t = none) : Moves st (.lookup .userPassword t) (.enter t)
  | registered {p : Purpose Txn} {c : Conn} : Moves st (.containsKey p c) (.owner p c)
  | unregistered {p : Purpose Txn} {c : Conn} : Moves st (.containsKey p c) (p.found c)
  | owner {p : Purpose Txn} {c : Conn} {context : TransactionContext Conn Txn}
      (h : st.connectionMemory c = some context) : Moves st (.owner p c) (.isActive p c context.transaction)
  | taken {p : Purpose Txn} {c : Conn} {t : Txn} (h : (st.status t).isActive) :
      Moves st (.isActive p c t) (.checkout p (some c))
  | stale {p : Purpose Txn} {c : Conn} {t : Txn} (h : ¬ (st.status t).isActive) :
      Moves st (.isActive p c t) (.removeTransaction c t (.free p))
  | present {c : Conn} {t : Txn} (h : (st.transactionMemory t).isSome) : Moves st (.recheck c t) (.leave c t)
  | absent {c : Conn} {t : Txn} (h : st.transactionMemory t = none) : Moves st (.recheck c t) (.putTransaction c t)
  | refused {c : Conn} {t : Txn} : Moves st (.enlistResource c t) (.synchronize c t)
  | wrapper {pc pc' : Pc Conn Txn} (h : pc.inWrapper) (h' : pc'.inWrapper ∨ pc' = .idle) : Moves st pc pc'

/-- Where an effect comes from, and where it leads. -/
def EffectFrom (st : DsState Thread Conn Txn) (pc pc' : Pc Conn Txn) : Effect Conn Txn → Prop
  | .skip => Moves st pc pc'
  | .acquire t => (pc = .enter t ∧ pc' = .checkout (.inside .userPassword t) none) ∨
      ∃ c, pc = .acquire c t ∧ pc' = .recheck c t
  | .checkout c => st.pooled c = true ∧ ∃ p conn1, pc = .checkout p conn1 ∧ pc' = DsState.checkoutNext p c conn1
  | .plainCall c call => (∃ p conn, pc = .swap p c conn ∧ pc' = .containsKey p conn ∧ call = .close) ∨
      (∃ w wrapper, pc = .plainCall w call ∧ pc' = .idle ∧ st.wrappers[w]? = some wrapper ∧ wrapper.plainConn = c) ∨
      (pc = .closePlain c ∧ pc' = .idle ∧ call = .close)
  | .putTransaction t c => pc = .putTransaction c t ∧ pc' = .putConnection c t
  | .putConnection t c => pc = .putConnection c t ∧ pc' = .enlistResource c t
  | .removeTransaction t => ∃ c k, pc = .removeTransaction c t k ∧ pc' = .removeConnection c t k
  | .removeConnection c => ∃ t k, pc = .removeConnection c t k ∧ pc' = k.next c
  | .enlistResource t c => pc = .enlistResource c t ∧ pc' = .synchronize c t
  | .registerSynchronization t s => (∃ c, pc = .synchronize c t ∧ pc' = .leave c t ∧ s = .terminateTransaction c) ∨
      (pc.inWrapper ∧ pc' = .idle)
  | .setClosed _ => pc.inWrapper ∧ pc'.inWrapper
  | .returnWrapper t c _ => (pc = .hit t c ∨ pc = .leave c t) ∧ pc' = .idle
  | .returnPlain c => pc = .give c ∧ pc' = .idle
  | .raise _ _ _ => (pc.mayRaise ∨ pc.inWrapper ∨ ∃ p c, pc = .owner p c) ∧ pc' = .idle

theorem proceed_effect {st : DsState Thread Conn Txn} {pc pc' : Pc Conn Txn} {e : Effect Conn Txn}
    (h : st.proceed pc = some (pc', e)) : EffectFrom st pc pc' e := by
  cases pc <;> simp only [DsState.proceed] at h
  case idle => cases h
  case checkout => cases h
  case current o transaction =>
    cases transaction with
    | none => cases h; exact .outside
    | some t =>
      simp only at h
      split at h <;> cases h
      · exact .inside ‹_›
      · exact .outside
  case lookup o t =>
    split at h
    · cases h; exact .found ‹_›
    · split at h <;> cases h
      · exact .missed ‹_›
      · exact .missedLocking ‹_›
  case hit => cases h; exact ⟨.inl rfl, rfl⟩
  case enter => split at h <;> cases h; exact .inl ⟨rfl, rfl⟩
  case swap => cases h; exact .inl ⟨_, _, rfl, rfl, rfl⟩
  case containsKey =>
    split at h <;> cases h
    · exact .registered
    · exact .unregistered
  case owner =>
    split at h <;> cases h
    · exact .owner ‹_›
    · exact ⟨.inr (.inr ⟨_, _, rfl⟩), rfl⟩
  case isActive =>
    split at h <;> cases h
    · exact .taken ‹_›
    · exact .stale ‹_›
  case removeTransaction => cases h; exact ⟨_, _, rfl, rfl⟩
  case removeConnection => cases h; exact ⟨_, _, rfl, rfl⟩
  case give => cases h; exact ⟨rfl, rfl⟩
  case acquire => split at h <;> cases h; exact .inr ⟨_, rfl, rfl⟩
  case recheck =>
    split at h
    · cases h; exact .present ‹_›
    · rename_i hnone
      cases h; exact .absent (by simpa using hnone)
  case putTransaction => cases h; exact ⟨rfl, rfl⟩
  case putConnection => cases h; exact ⟨rfl, rfl⟩
  case enlistResource => cases h; exact ⟨rfl, rfl⟩
  case synchronize => cases h; exact .inl ⟨_, rfl, rfl, rfl⟩
  case leave => cases h; exact ⟨.inr rfl, rfl⟩
  case inTransaction =>
    split at h
    · cases h
    · split at h <;> cases h
      · exact .wrapper rfl (.inl rfl)
      · exact ⟨.inr (.inl rfl), rfl⟩
  case guarded =>
    split at h
    · split at h <;> cases h
      · exact .wrapper rfl (.inl rfl)
      · exact ⟨.inr (.inl rfl), rfl⟩
    · cases h; exact .wrapper rfl (.inl rfl)
  case closeOwner =>
    split at h
    · cases h
    · split at h <;> cases h
      · exact .wrapper rfl (.inl rfl)
      · exact ⟨.inr (.inl rfl), rfl⟩
  case closeOnce =>
    split at h
    · cases h
    · split at h <;> cases h
      · exact .wrapper rfl (.inr rfl)
      · exact ⟨rfl, rfl⟩
  case closeLater => split at h <;> cases h; exact .inr ⟨rfl, rfl⟩
  case plainCall =>
    split at h <;> cases h
    exact .inr (.inl ⟨_, _, rfl, rfl, ‹_›, rfl⟩)
  case closePlain => cases h; exact .inr (.inr ⟨rfl, rfl, rfl⟩)

theorem interrupt_effect {st : DsState Thread Conn Txn} {pc pc' : Pc Conn Txn} {x : Throwable} {e : Effect Conn Txn}
    (h : st.interrupt x pc = some (pc', e)) : EffectFrom st pc pc' e := by
  unfold DsState.interrupt at h
  split at h
  · split at h <;> cases h
    · exact .wrapper rfl (.inl rfl)
    · exact ⟨.inr (.inl rfl), rfl⟩
  · split at h <;> cases h
    exact ⟨.inl ‹_›, rfl⟩

/-- **What a step can do**: its effect names the point it comes from and the one it leads to. -/
theorem instr_effect {st : DsState Thread Conn Txn} {pc pc' : Pc Conn Txn} {answer : Answer Conn}
    {e : Effect Conn Txn} (h : st.instr pc answer = some (pc', e)) : EffectFrom st pc pc' e := by
  cases answer with
  | go => exact proceed_effect h
  | raises x => exact interrupt_effect h
  | connection c =>
    simp only [DsState.instr] at h
    split at h
    · split at h <;> cases h
      exact ⟨‹_›, _, _, rfl, rfl⟩
    · cases h
  | refuses =>
    simp only [DsState.instr] at h
    split at h <;> cases h
    exact .refused

theorem found_cases (p : Purpose Txn) (c : Conn) :
    p.found c = .give c ∨ ∃ t, p.found c = .acquire c t ∨ p.found c = .putTransaction c t := by
  cases p with
  | outside => exact .inl rfl
  | inside o t =>
    cases o with
    | plain => exact .inr ⟨t, .inl rfl⟩
    | userPassword => exact .inr ⟨t, .inr rfl⟩

/-- The points that a search reaches in one way only. -/
def Pc.Origin (st : DsState Thread Conn Txn) (pc : Pc Conn Txn) : Pc Conn Txn → Prop
  | .swap p conn1 conn => pc = .checkout p (some conn1) ∧ st.pooled conn = true
  | .removeTransaction _ t _ => ¬ (st.status t).isActive
  | _ => True

/-- **Origins**: a connection is swapped for one from the pool, and a search removes the context of a transaction that
it judged inactive. -/
theorem EffectFrom.origin {st : DsState Thread Conn Txn} {pc pc' : Pc Conn Txn} {e : Effect Conn Txn}
    (h : EffectFrom st pc pc' e) : pc.Origin st pc' := by
  have hfound : ∀ p c, pc.Origin st (Purpose.found c p) := fun p c => by
    rcases found_cases p c with h | ⟨t, h | h⟩ <;> rw [h] <;> trivial
  have hwrapper : ∀ {pc' : Pc Conn Txn}, pc'.inWrapper → pc.Origin st pc' := fun {pc'} hw => by
    cases pc' <;> trivial
  cases e with
  | skip =>
    cases (show Moves st pc pc' from h) with
    | stale hstale => exact hstale
    | unregistered => exact hfound _ _
    | wrapper _ hw =>
      rcases hw with hw | rfl
      · exact hwrapper hw
      · trivial
    | _ => trivial
  | acquire t => rcases h with ⟨-, rfl⟩ | ⟨c, -, rfl⟩ <;> trivial
  | checkout c =>
    obtain ⟨hpool, p, conn1, rfl, rfl⟩ := h
    cases conn1 with
    | none => trivial
    | some conn1 => exact ⟨rfl, hpool⟩
  | plainCall c call => rcases h with ⟨p, conn, -, rfl, -⟩ | ⟨w, wrapper, -, rfl, -⟩ | ⟨-, rfl, -⟩ <;> trivial
  | removeTransaction t =>
    obtain ⟨c, k, -, rfl⟩ := h
    trivial
  | removeConnection c =>
    obtain ⟨t, k, -, rfl⟩ := h
    cases k with
    | free p => exact hfound p c
    | callback => trivial
  | registerSynchronization t s => rcases h with ⟨c, -, rfl, -⟩ | ⟨-, rfl⟩ <;> trivial
  | setClosed w => exact hwrapper h.2
  | putTransaction => rw [h.2]; trivial
  | putConnection => rw [h.2]; trivial
  | enlistResource => rw [h.2]; trivial
  | returnWrapper => rw [h.2]; trivial
  | returnPlain => rw [h.2]; trivial
  | raise => rw [h.2]; trivial

namespace DsState

variable [DecidableEq Thread] [DecidableEq Conn] [DecidableEq Txn]

/-- The steps of the machine, each with what it requires. -/
inductive Steps (st : DsState Thread Conn Txn) : DsAction Thread Conn Txn → DsState Thread Conn Txn → Prop
  | setStatus {t : Txn} {status : Status} (h : st.status t ≠ .completed) :
      Steps st (.setStatus t status) { st with status := Function.update st.status t status }
  | getConnection {th : Thread} {o : Overload} {transaction : Option Txn} (h : st.pc th = .idle) :
      Steps st (.getConnection th o transaction) (st.setPc th (.current o transaction))
  | call {th : Thread} {w : ℕ} {call : Call} (h : st.pc th = .idle) :
      Steps st (.call th w call) (st.setPc th (call.entry w))
  | afterCompletion {th : Thread} {t : Txn} {i : ℕ} {s : Synchronization Conn} (h : st.pc th = .idle)
      (hc : st.status t = .completed) (hi : (st.synchronizations t)[i]? = some s) :
      Steps st (.afterCompletion th t i) ((st.runSynchronization t i).setPc th (s.entry t))
  | closeLent {c : Conn} (h : c ∈ st.lent) : Steps st (.closeLent c) (st.callPlain c .close)
  | step {th : Thread} {answer : Answer Conn} {pc : Pc Conn Txn} {e : Effect Conn Txn}
      (h : st.instr (st.pc th) answer = some (pc, e)) : Steps st (.step th answer) ((st.apply th e).setPc th pc)

theorem steps_of_step {st st' : DsState Thread Conn Txn} {a : DsAction Thread Conn Txn} (hs : st.step a = some st') :
    Steps st a st' := by
  cases a with
  | setStatus t status =>
    simp only [step, Option.ite_none_left_eq_some, Option.some.injEq] at hs
    exact hs.2 ▸ .setStatus hs.1
  | getConnection th o transaction =>
    simp only [step, Option.ite_none_right_eq_some, Option.some.injEq] at hs
    exact hs.2 ▸ .getConnection hs.1
  | call th w call =>
    simp only [step, Option.ite_none_right_eq_some, Option.some.injEq] at hs
    exact hs.2 ▸ .call hs.1.1
  | afterCompletion th t i =>
    simp only [step] at hs
    split at hs
    · cases hs
    · rename_i hi
      simp only [Option.ite_none_right_eq_some, Option.some.injEq] at hs
      exact hs.2 ▸ .afterCompletion hs.1.1 hs.1.2 hi
  | closeLent c =>
    simp only [step, Option.ite_none_right_eq_some, Option.some.injEq] at hs
    exact hs.2 ▸ .closeLent hs.1
  | step th answer =>
    simp only [step, Option.map_eq_some_iff, Prod.exists] at hs
    obtain ⟨pc, e, hinstr, rfl⟩ := hs
    exact .step hinstr

/-- Within a call only its own steps move a thread on. -/
theorem pc_of_beside {st st' : DsState Thread Conn Txn} {a : DsAction Thread Conn Txn} {th : Thread}
    (hs : st.step a = some st') (hth : st.pc th ≠ .idle) (ha : ∀ answer, a ≠ .step th answer) :
    st'.pc th = st.pc th := by
  have hne : ∀ th' pc, (th' = th → False) → (st.setPc th' pc).pc th = st.pc th := fun th' pc h =>
    setPc_of_ne fun heq => h heq.symm
  cases steps_of_step hs with
  | setStatus => rfl
  | getConnection hidle => exact hne _ _ fun heq => hth (heq ▸ hidle)
  | call hidle => exact hne _ _ fun heq => hth (heq ▸ hidle)
  | afterCompletion hidle => exact hne _ _ fun heq => hth (heq ▸ hidle)
  | closeLent => rfl
  | @step th' answer pc e hinstr =>
    have hth' : th ≠ th' := fun heq => ha answer (heq ▸ rfl)
    rw [setPc_of_ne hth', apply_pc]

/-- Nothing takes a completed transaction back. -/
theorem completed_of_step {st st' : DsState Thread Conn Txn} {a : DsAction Thread Conn Txn} {t : Txn}
    (hs : st.step a = some st') (h : st.status t = .completed) : st'.status t = .completed := by
  cases steps_of_step hs with
  | @setStatus t' status h' =>
    have hne : t ≠ t' := fun heq => h' (heq ▸ h)
    exact (Function.update_of_ne hne ..).trans h
  | @step th answer pc e hinstr => exact (congrFun (apply_status st th e) t).trans h
  | _ => exact h

omit [DecidableEq Thread] in
/-- A callback is run once for each time that it is registered. -/
theorem count_runSynchronization {st : DsState Thread Conn Txn} {t : Txn} {i : ℕ} {s : Synchronization Conn}
    (hi : (st.synchronizations t)[i]? = some s) (s' : Synchronization Conn) :
    ((st.runSynchronization t i).synchronizations t).count s' + (if s == s' then 1 else 0) =
      (st.synchronizations t).count s' := by
  obtain ⟨hlt, hget⟩ := List.getElem?_eq_some_iff.mp hi
  show (Function.update st.synchronizations t _ t).count s' + _ = _
  rw [Function.update_self, ← (List.getElem_cons_eraseIdx_perm hlt).count_eq, hget, List.count_cons]

/-! ### A small world

One transaction, the threads and connections `false` and `true`, both connections in the pool. -/

def twoPooled : DsState Bool Bool Unit := start (fun _ => .active) (fun _ => true)

/-- A call of `getConnection` in the transaction, up to its lookup included. -/
def looks (th : Bool) (o : Overload) : List (DsAction Bool Bool Unit) :=
  [.getConnection th o (some ()), .step th .go, .step th .go]

/-- The rest of a `getConnection(username, password)` that missed, with the connection `c`. -/
def registersLocking (th c : Bool) : List (DsAction Bool Bool Unit) :=
  [.step th .go, .step th (.connection c), .step th .go, .step th .go, .step th .go, .step th .go, .step th .go,
    .step th .go]

/-- The first `getConnection` in the transaction has returned the wrapper `0` over the connection `false`. -/
def oneWrapped : DsState Bool Bool Unit :=
  (exec step twoPooled (looks false .userPassword ++ registersLocking false false)).getD twoPooled

end DsState

end Dynamy.Services
