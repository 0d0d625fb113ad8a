import Dynamy.Services.TransactionConnectionWrapper

/-!
# Dynamy.Services.Guards — what wrappers let through inside a transaction

Wrappers over one connection, any number of them and of threads that call their methods, while the transaction that the
connection is registered with is active or marked rollback-only.  A log (`served`) keeps what was asked of these
wrappers, what the plain connection received from them and what they raised.  `guards_hold`: of every thread, in order,
each call that is only forwarded reaches the plain connection once and as it was made, nothing else reaches it, and
each guarded call ends in its `SQLException` and changes nothing.
-/

namespace Dynamy.Services

open Dynamy.Java Dynamy.Lib

variable {Thread Conn Txn : Type}

/-- `commit`, `rollback`, `setAutoCommit` and `setReadOnly` -/
def Call.isGuarded : Call → Bool
  | .commit | .rollback | .setAutoCommit _ | .setReadOnly _ => true
  | _ => false

def Call.isDelegate : Call → Bool
  | .delegate _ => true
  | _ => false

/-- A guarded call with the exception that it raises inside a transaction. -/
def Call.refused (call : Call) : Call × Throwable := (call, ⟨.sql, some call.refusal⟩)

/-! ### The log -/

inductive Served (Thread : Type)
  | asked (th : Thread) (call : Call)
  | received (th : Thread) (call : Call)
  | raised (th : Thread) (call : Call) (e : Throwable)

def Served.thread : Served Thread → Thread
  | .asked th _ | .received th _ | .raised th _ _ => th

section Log

variable [DecidableEq Thread]

/-- The calls that `th` made. -/
def asked (th : Thread) (l : List (Served Thread)) : List Call :=
  l.filterMap fun
    | .asked th' call => if th' = th then some call else none
    | _ => none

/-- The calls of the plain connection that `th` was led to. -/
def received (th : Thread) (l : List (Served Thread)) : List Call :=
  l.filterMap fun
    | .received th' call => if th' = th then some call else none
    | _ => none

/-- The exceptions that wrappers raised to `th`, each with the call. -/
def exceptions (th : Thread) (l : List (Served Thread)) : List (Call × Throwable) :=
  l.filterMap fun
    | .raised th' call e => if th' = th then some (call, e) else none
    | _ => none

variable {th : Thread} {l l' : List (Served Thread)} {call : Call} {e : Throwable}

@[simp] theorem asked_append : asked th (l ++ l') = asked th l ++ asked th l' := List.filterMap_append

@[simp] theorem received_append : received th (l ++ l') = received th l ++ received th l' := List.filterMap_append

@[simp] theorem exceptions_append : exceptions th (l ++ l') = exceptions th l ++ exceptions th l' := List.filterMap_append

@[simp] theorem asked_asked : asked th [.asked th call] = [call] := by simp [asked]

@[simp] theorem received_asked : received th [.asked th call] = [] := by simp [received]

@[simp] theorem exceptions_asked : exceptions th [.asked th call] = [] := by simp [exceptions]

@[simp] theorem asked_received : asked th [.received th call] = [] := by simp [asked]

@[simp] theorem received_received : received th [.received th call] = [call] := by simp [received]

@[simp] theorem exceptions_received : exceptions th [.received th call] = [] := by simp [exceptions]

@[simp] theorem asked_raised : asked th [.raised th call e] = [] := by simp [asked]

@[simp] theorem received_raised : received th [.raised th call e] = [] := by simp [received]

@[simp] theorem exceptions_raised : exceptions th [.raised th call e] = [(call, e)] := by simp [exceptions]

/-- What others did does not count. -/
theorem log_of_others (h : ∀ w ∈ l, w.thread ≠ th) : asked th l = [] ∧ received th l = [] ∧ exceptions th l = [] := by
  refine ⟨List.filterMap_eq_nil_iff.mpr fun w hw => ?_, List.filterMap_eq_nil_iff.mpr fun w hw => ?_,
    List.filterMap_eq_nil_iff.mpr fun w hw => ?_⟩ <;>
  · have hne := h w hw
    cases w <;> simp_all [Served.thread]

end Log

namespace DsState

variable [DecidableEq Thread] [DecidableEq Conn] [DecidableEq Txn]

/-- What a step of the call `call` adds to the log: what it calls on `c`, or else the exception that the wrapper itself
raises. -/
def servedAt (c : Conn) (th : Thread) (call : Call) : Effect Conn Txn → List (Served Thread)
  | .raise e _ none => [.raised th call e]
  | e => (e.called.toList.filter (·.1 = c)).map fun called => .received th called.2

/-- What a choice means for the wrappers over `c`. -/
def served (c : Conn) (st : DsState Thread Conn Txn) : DsAction Thread Conn Txn → List (Served Thread)
  | .call th w call => if st.plainOf w = some c then [.asked th call] else []
  | .step th answer => (st.inFlight c th).flatMap fun call =>
      (st.instr (st.pc th) answer).elim [] fun (_, e) => servedAt c th call e
  | _ => []

/-- The machine, with the log of the wrappers over `c`. -/
abbrev servedStep (c : Conn) : DsState Thread Conn Txn × List (Served Thread) → DsAction Thread Conn Txn →
    Option (DsState Thread Conn Txn × List (Served Thread)) := logged step (served c)

/-! ### What may happen -/

/-- What the calls on wrappers over `c` depend on stays as it is, and `t` active; wrappers may be added. -/
structure LeavesCalls (c : Conn) (t : Txn) (st st' : DsState Thread Conn Txn) : Prop where
  connectionMemory : st'.connectionMemory c = st.connectionMemory c
  active : (st'.status t).isActive
  inFlight : ∀ th, st'.inFlight c th = st.inFlight c th
  pc : ∀ th, st.inFlight c th ≠ [] → st'.pc th = st.pc th

/-- Of the transaction: `getStatus` raises nothing, and `registerSynchronization` no `NullPointerException`. -/
def Documented : Pc Conn Txn → Answer Conn → Prop
  | .guarded _ _ _, .raises _ => False
  | .closeLater _ _, .raises e => e.cls ≠ .nullPointer
  | _, _ => True

/-- A call of a wrapper over `c`, a step of one, `t` moving between `ACTIVE` and `MARKED_ROLLBACK`, or something that
has nothing to do with these calls. -/
inductive CallsBeside (c : Conn) (t : Txn) (x : DsState Thread Conn Txn × List (Served Thread)) :
    DsAction Thread Conn Txn → Prop
  | call {th : Thread} {w : ℕ} {call : Call} (h : x.1.plainOf w = some c) : CallsBeside c t x (.call th w call)
  | step {th : Thread} {answer : Answer Conn} (h : x.1.inFlight c th ≠ []) (hd : Documented (x.1.pc th) answer) :
      CallsBeside c t x (.step th answer)
  | setStatus {status : Status} (h : status.isActive) : CallsBeside c t x (.setStatus t status)
  | other {a : DsAction Thread Conn Txn} (h : served c x.1 a = [])
      (hl : ∀ st', x.1.step a = some st' → LeavesCalls c t x.1 st') : CallsBeside c t x a

/-! ### What the wrappers promise -/

/-- Of `th`: the plain connection has received exactly the calls that are to be forwarded, and exactly the guarded ones
have been refused, in the order in which they were made, but for the call that is on its way. -/
structure GuardsHold (c : Conn) (x : DsState Thread Conn Txn × List (Served Thread)) (th : Thread) : Prop where
  forwarded : received th x.2 ++ (x.1.inFlight c th).filter Call.isDelegate = (asked th x.2).filter Call.isDelegate
  refused : (exceptions th x.2).filter (·.1.isGuarded) ++ ((x.1.inFlight c th).filter Call.isGuarded).map Call.refused =
    ((asked th x.2).filter Call.isGuarded).map Call.refused

/-- The choice starts a guarded call on a wrapper over `c`, or is a step of one. -/
def InGuarded (c : Conn) (st : DsState Thread Conn Txn) (a : DsAction Thread Conn Txn) : Prop :=
  (∃ th w call, a = .call th w call ∧ st.plainOf w = some c ∧ call.isGuarded) ∨
    ∃ th answer call, a = .step th answer ∧ call ∈ st.inFlight c th ∧ call.isGuarded

/-- Nothing has changed but where threads are and what was raised to them. -/
def ChangesNothing (st st' : DsState Thread Conn Txn) : Prop := st' = { st with pc := st'.pc, raised := st'.raised }

/-! ### The invariant -/

/-- How far a call may come inside `t`. -/
def OnCourse (t : Txn) : Pc Conn Txn → Prop
  | .inTransaction _ call => call.isGuarded ∨ call = .close
  | .guarded _ call t' => (call.isGuarded ∨ call = .close) ∧ t' = t
  | .plainCall _ call => call.isDelegate
  | _ => True

structure GuardInv (c : Conn) (t : Txn) (x : DsState Thread Conn Txn × List (Served Thread)) : Prop where
  context : ∃ c', x.1.connectionMemory c = some ⟨c', t⟩
  active : (x.1.status t).isActive
  onCourse : ∀ th, x.1.inFlight c th ≠ [] → OnCourse t (x.1.pc th)
  holds : ∀ th, GuardsHold c x th

variable {s st st' : DsState Thread Conn Txn} {u x y : DsState Thread Conn Txn × List (Served Thread)} {th th' : Thread}
  {c : Conn} {t : Txn} {w : ℕ} {call : Call} {pc pc' : Pc Conn Txn} {a : DsAction Thread Conn Txn} {answer : Answer Conn}

/-! ### One step -/

omit [DecidableEq Txn] in
/-- Threads that have nothing to do with a step keep what they were promised. -/
theorem GuardsHold.of_others {l : List (Served Thread)} (h : GuardsHold c x th)
    (hflight : st'.inFlight c th = x.1.inFlight c th) (hl : ∀ w ∈ l, w.thread ≠ th) :
    GuardsHold c (st', x.2 ++ l) th := by
  obtain ⟨hasked, hreceived, hexceptions⟩ := log_of_others hl
  refine ⟨?_, ?_⟩
  · simpa [hflight, hasked, hreceived] using h.forwarded
  · simpa [hflight, hasked, hexceptions] using h.refused

omit [DecidableEq Txn] in
/-- A step of a call settles it, or leaves it on its way. -/
theorem GuardsHold.of_step {l : List (Served Thread)} {flight : List Call} (h : GuardsHold c x th)
    (hcall : x.1.inFlight c th = [call]) (hflight : st'.inFlight c th = flight) (hasked : asked th l = [])
    (hreceived : received th l ++ flight.filter Call.isDelegate = [call].filter Call.isDelegate)
    (hrefused : (exceptions th l).filter (·.1.isGuarded) ++ (flight.filter Call.isGuarded).map Call.refused =
      ([call].filter Call.isGuarded).map Call.refused) : GuardsHold c (st', x.2 ++ l) th := by
  obtain ⟨hr, he⟩ := h
  rw [hcall] at hr he
  constructor
  · dsimp only
    rw [hflight, received_append, asked_append, hasked, List.append_nil, List.append_assoc, hreceived, hr]
  · dsimp only
    rw [hflight, exceptions_append, List.filter_append, asked_append, hasked, List.append_nil, List.append_assoc,
      hrefused, he]

omit [DecidableEq Thread] [DecidableEq Txn] in
/-- A call that has started is on its way, unless it is `unwrap`; a forwarded one as it was made. -/
theorem callEntry_callsOver {plainOf : ℕ → Option Conn} (hw : plainOf w = some c) (call : Call) :
    (call.entry w : Pc Conn Txn).callsOver plainOf c = if call = .unwrap then [] else [call] := by
  cases call with
  | unwrap => rfl
  | delegate m =>
    rw [show (Call.delegate m).entry w = (.plainCall w (.delegate m.forwarded) : Pc Conn Txn) from rfl,
      callsOver_of_inCall rfl hw, m.forwarded_eq]
    rfl
  | _ => exact callsOver_of_inCall rfl hw

omit [DecidableEq Thread] [DecidableEq Conn] [DecidableEq Txn] in
theorem callEntry_onCourse (call : Call) : OnCourse t (call.entry w : Pc Conn Txn) := by
  cases call with
  | unwrap => trivial
  | delegate m => rfl
  | close => exact .inr rfl
  | _ => exact .inl rfl

omit [DecidableEq Txn] in
theorem GuardInv.entry (h : GuardInv c t x) (hw : x.1.plainOf w = some c) (hidle : x.1.pc th = .idle) :
    GuardInv c t (x.1.setPc th (call.entry w), x.2 ++ [.asked th call]) := by
  obtain ⟨hself, hothers⟩ := inFlight_setPc th (call.entry w) c (rfl : x.1.plainOf = x.1.plainOf) (rfl : x.1.pc = x.1.pc)
  rw [callEntry_callsOver hw] at hself
  have hpc : (x.1.setPc th (call.entry w)).pc th = call.entry w := setPc_self ..
  have hbefore : x.1.inFlight c th = [] := inFlight_of_idle hidle
  refine ⟨h.context, h.active, fun th' hth' => ?_, fun th' => ?_⟩
  · by_cases hne : th' = th
    · subst hne
      rw [hpc]
      exact callEntry_onCourse call
    · rw [setPc_of_ne hne]
      exact h.onCourse th' (by rwa [hothers th' hne] at hth')
  · by_cases hne : th' = th
    · subst hne
      obtain ⟨hr, he⟩ := h.holds th'
      rw [hbefore] at hr he
      simp only [List.filter_nil, List.map_nil, List.append_nil] at hr he
      constructor
      · dsimp only
        rw [hself, received_append, received_asked, List.append_nil, asked_append, asked_asked, List.filter_append, hr]
        cases call <;> rfl
      · dsimp only
        rw [hself, exceptions_append, exceptions_asked, List.append_nil, asked_append, asked_asked, List.filter_append,
          List.map_append, he]
        cases call <;> rfl
    · refine (h.holds th').of_others (hothers th' hne) fun w hw => ?_
      rw [List.mem_singleton.mp hw]
      exact fun heq => hne heq.symm

omit [DecidableEq Thread] [DecidableEq Txn] in
theorem thread_of_servedAt {e : Effect Conn Txn} {v : Served Thread} (h : v ∈ servedAt c th call e) : v.thread = th := by
  unfold servedAt at h
  split at h
  · rw [List.mem_singleton.mp h]
    rfl
  · obtain ⟨called, -, rfl⟩ := List.mem_map.mp h
    rfl

/-- An exception of the wrapper itself changes nothing. -/
theorem changesNothing_raise {x : Throwable} :
    ChangesNothing st ((st.apply th (.raise x none)).setPc th .idle) := by
  simp [ChangesNothing, DsState.apply, DsState.setPc, DsState.release]

/-- What a step of a call does to the promises made to its own thread. -/
theorem GuardInv.own (h : GuardInv c t x) {wrapper : TransactionConnectionWrapper Conn Txn} (hat : x.1.pc th = pc)
    (hpc : pc.inCall = some (w, call)) (hw : x.1.wrappers[w]? = some wrapper) (hconn : wrapper.plainConn = c)
    (hd : Documented pc answer) {e : Effect Conn Txn} (hinstr : x.1.instr pc answer = some (pc', e)) :
    OnCourse t pc' ∧ GuardsHold c ((x.1.apply th e).setPc th pc', x.2 ++ servedAt c th call e) th ∧
      (call.isGuarded → ChangesNothing x.1 ((x.1.apply th e).setPc th pc')) := by
  obtain ⟨c', hcontext⟩ := h.context
  have hactive := h.active
  have hplain : x.1.plainOf w = some c := by rw [plainOf, hw, Option.map_some, hconn]
  have hflight : x.1.inFlight c th = [call] := by rw [inFlight, hat, callsOver_of_inCall hpc hplain]
  have hcourse : OnCourse t pc := hat ▸ h.onCourse th (by rw [hflight]; simp)
  have hstep := wrapperStep_of_instr hw hpc hinstr
  obtain ⟨-, -, hframe⟩ := hstep.frame th
  obtain ⟨hself, -⟩ := inFlight_setPc th pc' c hframe (apply_pc x.1 th e)
  have hhold := h.holds th
  subst hconn
  -- a step on the way of the call, and a last step that leaves a `close` behind
  have hgoes : pc'.inCall = some (w, call) → servedAt wrapper.plainConn th call e = [] →
      GuardsHold wrapper.plainConn ((x.1.apply th e).setPc th pc', x.2 ++ servedAt wrapper.plainConn th call e) th :=
    fun hin hquiet => by
      rw [hquiet]
      exact hhold.of_step hflight (hself.trans (callsOver_of_inCall hin hplain)) rfl rfl rfl
  have hreached : pc' = .idle → servedAt wrapper.plainConn th call e = [.received th call] → call.isDelegate = true →
      GuardsHold wrapper.plainConn ((x.1.apply th e).setPc th pc', x.2 ++ servedAt wrapper.plainConn th call e) th := by
    intro hidle hlog hdelegate
    have hguarded : call.isGuarded = false := by
      cases call with
      | delegate => rfl
      | _ => cases hdelegate
    have hnone : pc'.callsOver x.1.plainOf wrapper.plainConn = [] := by rw [hidle]; rfl
    rw [hlog]
    exact hhold.of_step hflight (hself.trans hnone) (by simp) (by simp [hdelegate]) (by simp [hguarded])
  have hunguarded : call.isDelegate = true → call.isGuarded = true →
      ChangesNothing x.1 ((x.1.apply th e).setPc th pc') := by
    intro hdelegate hguarded
    cases call with
    | delegate => cases hguarded
    | _ => cases hdelegate
  have hfree : call = .close → call.isGuarded = true → ChangesNothing x.1 ((x.1.apply th e).setPc th pc') := by
    rintro rfl hguarded
    cases hguarded
  cases hstep with
  | @registered _ context hsome =>
    cases hpc
    have ht : context.transaction = t := by
      rw [hcontext] at hsome
      cases hsome
      rfl
    exact ⟨⟨hcourse, ht⟩, hgoes rfl rfl, fun _ => rfl⟩
  | unregistered hnone => rw [hcontext] at hnone; cases hnone
  | refuses _ hclose =>
    cases hpc
    have hguarded : call.isGuarded = true := hcourse.1.resolve_right hclose
    have hdelegate : call.isDelegate = false := by
      cases call with
      | delegate => cases hguarded
      | _ => rfl
    refine ⟨trivial, hhold.of_step hflight hself ?_ ?_ ?_, fun _ => changesNothing_raise⟩
    · simp [servedAt]
    · simp [servedAt, Pc.callsOver, Pc.inCall, hdelegate]
    · simp [servedAt, Pc.callsOver, Pc.inCall, hguarded, Call.refused]
  | defers => cases hpc; exact ⟨trivial, hgoes rfl rfl, hfree rfl⟩
  | passes hnot =>
    cases hpc
    rw [hcourse.2] at hnot
    exact absurd hactive hnot
  | statusRaises => exact hd.elim
  | owned => cases hpc; exact ⟨trivial, hgoes rfl rfl, hfree rfl⟩
  | disowned hnone => rw [hcontext] at hnone; cases hnone
  | ignored => cases hpc; exact ⟨trivial, hhold.of_step hflight hself rfl rfl rfl, hfree rfl⟩
  | wins => cases hpc; exact ⟨trivial, hgoes rfl rfl, hfree rfl⟩
  | schedules => cases hpc; exact ⟨trivial, hhold.of_step hflight hself rfl rfl rfl, hfree rfl⟩
  | retries hnull => exact absurd hnull hd
  | registrationRaises =>
    cases hpc
    refine ⟨trivial, hhold.of_step hflight hself ?_ ?_ ?_, hfree rfl⟩
    · simp [servedAt]
    · simp [servedAt, Pc.callsOver, Pc.inCall, Call.isDelegate]
    · simp [servedAt, Pc.callsOver, Pc.inCall, Call.isGuarded]
  | reaches =>
    cases hpc
    exact ⟨trivial, hreached rfl (by simp [servedAt, Effect.called]) hcourse, hunguarded hcourse⟩
  | plainRaises =>
    cases hpc
    exact ⟨trivial, hreached rfl (by simp [servedAt, Effect.called]) hcourse, hunguarded hcourse⟩

/-- The step lemma: nothing that may happen breaks a promise, and guarded calls change nothing. -/
theorem GuardInv.step (h : GuardInv c t x) (ha : CallsBeside c t x a) (hs : servedStep c x a = some y) :
    GuardInv c t y ∧ (InGuarded c x.1 a → ChangesNothing x.1 y.1) := by
  obtain ⟨hstep, hlog⟩ := logged_eq_some.mp hs
  obtain ⟨st', l'⟩ := y
  dsimp only at hstep hlog ⊢
  subst hlog
  cases ha with
  | @call th w call hw =>
    cases steps_of_step hstep with
    | call hidle =>
      have hserved : served c x.1 (.call th w call) = [.asked th call] := if_pos hw
      rw [hserved]
      exact ⟨h.entry hw hidle, fun _ => rfl⟩
  | @step th answer hflight hd =>
    obtain ⟨w, wrapper, call, hpc, hw, hconn, hcall⟩ := inFlight_ne_nil hflight
    simp only [DsState.step, Option.map_eq_some_iff, Prod.exists] at hstep
    obtain ⟨pc', e, hinstr, rfl⟩ := hstep
    have hserved : served c x.1 (.step th answer) = servedAt c th call e := by simp [served, hcall, hinstr]
    rw [hserved]
    obtain ⟨hcourse, hhold, hnothing⟩ := h.own rfl hpc hw hconn hd hinstr
    obtain ⟨hcm, -, hplain⟩ := (wrapperStep_of_instr hw hpc hinstr).frame th
    obtain ⟨-, hothers⟩ := inFlight_setPc th pc' c hplain (apply_pc x.1 th e)
    refine ⟨⟨?_, ?_, fun th' hth' => ?_, fun th' => ?_⟩, ?_⟩
    · show ∃ c', (x.1.apply th e).connectionMemory c = some ⟨c', t⟩
      rw [hcm]
      exact h.context
    · show ((x.1.apply th e).status t).isActive
      rw [apply_status]
      exact h.active
    · by_cases hne : th' = th
      · rw [hne, setPc_self]
        exact hcourse
      · rw [setPc_of_ne hne, apply_pc]
        exact h.onCourse th' (by rwa [hothers th' hne] at hth')
    · by_cases hne : th' = th
      · rw [hne]
        exact hhold
      · refine (h.holds th').of_others (hothers th' hne) fun w hw => ?_
        rw [thread_of_servedAt hw]
        exact Ne.symm hne
    · rintro (⟨th', w', call', ha, -⟩ | ⟨th', answer', call', ha, hmem, hguarded⟩)
      · cases ha
      · cases ha
        rw [hcall, List.mem_singleton] at hmem
        exact hnothing (hmem ▸ hguarded)
  | setStatus hstatus =>
    cases steps_of_step hstep with
    | setStatus =>
      refine ⟨⟨h.context, ?_, h.onCourse, fun th => (h.holds th).of_others rfl fun w hw => absurd hw List.not_mem_nil⟩, ?_⟩
      · show (Function.update x.1.status t _ t).isActive
        rwa [Function.update_self]
      · rintro (⟨th, w, call, ha, -⟩ | ⟨th, answer, call, ha, -⟩) <;> cases ha
  | other hquiet hleaves =>
    obtain ⟨hcm, hactive, hflight, hpc⟩ := hleaves st' hstep
    rw [hquiet]
    refine ⟨⟨hcm ▸ h.context, hactive, fun th hth => ?_, fun th => ?_⟩, ?_⟩
    · rw [hflight th] at hth
      rw [hpc th hth]
      exact h.onCourse th hth
    · exact (h.holds th).of_others (hflight th) fun w hw => absurd hw List.not_mem_nil
    · rintro (⟨th, w, call, rfl, hw, -⟩ | ⟨th, answer, call, rfl, hmem, -⟩)
      · have hasked : served c x.1 (.call th w call) = [.asked th call] := if_pos hw
        rw [hquiet] at hasked
        cases hasked
      · -- a step of such a call would have moved its thread
        obtain ⟨w, wrapper, call', hin, hw, -⟩ := inFlight_ne_nil (List.ne_nil_of_mem hmem)
        simp only [DsState.step, Option.map_eq_some_iff, Prod.exists] at hstep
        obtain ⟨pc', e, hinstr, rfl⟩ := hstep
        have hsame := hpc th (List.ne_nil_of_mem hmem)
        rw [setPc_self] at hsame
        exact absurd hsame (wrapperStep_of_instr hw hin hinstr).moves

/-- **What a wrapper lets through.**  Let `c` be registered with `t`, which is active or marked rollback-only, and let
nobody be in a call on a wrapper over `c` yet.  Then in every run of calls on such wrappers, with `t` moving between
the two statuses and with anything beside them that leaves them alone, every thread sees the promises kept, and no step
of a guarded call changes anything. -/
theorem guards_hold {context : TransactionContext Conn Txn} (hcontext : s.connectionMemory c = some context)
    (hactive : (s.status context.transaction).isActive) (hidle : ∀ th, s.inFlight c th = [])
    (hrun : Runs (servedStep c) (CallsBeside c context.transaction) (s, []) u) :
    (∀ th, GuardsHold c u th) ∧ ∀ a v, CallsBeside c context.transaction u a → servedStep c u a = some v →
      InGuarded c u.1 a → ChangesNothing u.1 v.1 := by
  have hstart : GuardInv c context.transaction ((s, []) : DsState Thread Conn Txn × List (Served Thread)) :=
    ⟨⟨context.currentConnection, hcontext⟩, hactive, fun th hth => absurd (hidle th) hth,
      fun th => ⟨by simp [hidle th, asked, received], by simp [hidle th, asked, exceptions]⟩⟩
  have hinv := hrun.invariant hstart fun x a y hx ha hs => (hx.step ha hs).1
  exact ⟨hinv.holds, fun a v ha hs => (hinv.step ha hs).2⟩

/-! ### A refused commit in the small world -/

/-- `commit()`, which is refused, and then `createStatement()`. -/
def commits : List (DsAction Bool Bool Unit) :=
  [.call true 0 .commit, .step true .go, .step true .go, .call true 0 (.delegate .createStatement), .step true .go]

theorem guards_hold_commits : ∃ u, exec (servedStep false) (oneWrapped, []) commits = some u ∧
    u.1.raised = [(true, ⟨.sql, some "Cannot commit while in transaction"⟩)] ∧ (∀ th, GuardsHold false u th) ∧
      ∀ a v, CallsBeside false () u a → servedStep false u a = some v → InGuarded false u.1 a →
        ChangesNothing u.1 v.1 := by
  have hidle : ∀ th, oneWrapped.inFlight false th = [] := fun th => by cases th <;> rfl
  have hbeside : Along (servedStep false) (CallsBeside false ()) (oneWrapped, []) commits :=
    .cons rfl (.call rfl) <| .cons rfl (.step (List.cons_ne_nil _ _) trivial) <|
      .cons rfl (.step (List.cons_ne_nil _ _) trivial) <| .cons rfl (.call rfl) <|
        .cons rfl (.step (List.cons_ne_nil _ _) trivial) trivial
  exact ⟨_, rfl, rfl, guards_hold rfl rfl hidle (Runs.of_along commits hbeside rfl)⟩

end DsState

end Dynamy.Services
