import Dynamy.Services.TransactionConnectionWrapper

/-!
# Dynamy.Services.Completion — a wrapper's method while its transaction completes

One call of a guarded method or of `close()`, with the completion of the transaction before, during or after it.  Both
`isInTransaction` and `close` look the connection up, in two ways, and each raises an exception of its own when
`terminateTransaction` has removed the entry: `connectionMemory(plainConn)` a `NoSuchElementException`, and taking
`connectionMemory.get(plainConn)` apart a `MatchError`.  A close that registers its callback too late is lost.
`completion_iff` says in which interleavings the call does what it should.
-/

namespace Dynamy.Services

open Dynamy.Java Dynamy.Lib

variable {Thread Conn Txn : Type}

/-- What a call comes to. -/
inductive CallEvent
  /-- the wrapper itself raises `e`, and whether the transaction is active then -/
  | raised (e : Throwable) (active : Bool)
  /-- the method of the plain connection is called -/
  | reached (call : Call)
  /-- a callback that closes the plain connection is registered in time for the completion -/
  | scheduled

namespace DsState

variable [DecidableEq Thread] [DecidableEq Conn] [DecidableEq Txn]

/-- What a step of a call on a wrapper over `c` in `t` comes to. -/
def callEvents (st : DsState Thread Conn Txn) (c : Conn) (t : Txn) : Answer Conn → Effect Conn Txn → List CallEvent
  | .go, .raise e _ none => [.raised e (st.status t).isActive]
  | _, .registerSynchronization t' s =>
    if t' = t ∧ s = .closePlain c ∧ st.status t ≠ .completed then [.scheduled] else []
  | _, e => (e.called.toList.filter (·.1 = c)).map fun called => .reached called.2

/-- What a choice means for the call of `th`. -/
def callLog (th : Thread) (c : Conn) (t : Txn) (st : DsState Thread Conn Txn) : DsAction Thread Conn Txn → List CallEvent
  | .step th' answer =>
    if th' = th then (st.instr (st.pc th) answer).elim [] fun (_, e) => st.callEvents c t answer e else []
  | _ => []

/-- The machine, with the log of the call of `th`. -/
abbrev callStep (th : Thread) (c : Conn) (t : Txn) : DsState Thread Conn Txn × List CallEvent → DsAction Thread Conn Txn →
    Option (DsState Thread Conn Txn × List CallEvent) := logged step (callLog th c t)

/-- The wrapper stays as it is, and its connection registered as it is, unless the entry is removed. -/
structure LeavesWrapper (w : ℕ) (c : Conn) (st st' : DsState Thread Conn Txn) : Prop where
  wrapper : st'.wrappers[w]? = st.wrappers[w]?
  connectionMemory : st'.connectionMemory c = st.connectionMemory c ∨ st'.connectionMemory c = none

/-- `th` is in its call of a method of `w`, and takes a step of it, in which `getStatus` raises nothing; or something
happens beside the call, such as the completion of the transaction. -/
def Overlaps (th : Thread) (w : ℕ) (call : Call) (c : Conn) (x : DsState Thread Conn Txn × List CallEvent)
    (a : DsAction Thread Conn Txn) : Prop :=
  (x.1.pc th).inCall = some (w, call) ∧
    ((∃ answer, a = .step th answer ∧ ∀ e t, answer = .raises e → x.1.pc th ≠ .guarded w call t) ∨
      (∀ answer, a ≠ .step th answer) ∧ ∀ st', x.1.step a = some st' → LeavesWrapper w c x.1 st')

/-- The transaction is no longer active, or the entry of the connection has been removed. -/
def Completing (st : DsState Thread Conn Txn) (c : Conn) (t : Txn) : Prop :=
  ¬ (st.status t).isActive ∨ st.connectionMemory c = none

/-- What the call of `th` that was made in `s` should come to. -/
structure CallKept (s : DsState Thread Conn Txn) (th : Thread) (w : ℕ) (call : Call) (c : Conn) (t : Txn)
    (x : DsState Thread Conn Txn × List CallEvent) : Prop where
  /-- the wrapper itself raises its `SQLException`, while the transaction is active, and nothing else -/
  itself : ∀ e active, .raised e active ∈ x.2 → e = ⟨.sql, some call.refusal⟩ ∧ active = true
  /-- after the completion the call reaches the plain connection -/
  reached : s.status t = .completed → x.1.pc th = .idle → .reached call ∈ x.2
  /-- a first close that overlaps the completion closes the plain connection, now or then -/
  closed : call = .close → (s.wrappers[w]?).map (·.closed) = some false → x.1.pc th = .idle → x.1.Completing c t →
    .reached call ∈ x.2 ∨ .scheduled ∈ x.2

/-- A step of the call is in time: the entry is there when it is read, and the registration of a close comes before the
completion and is not refused because of it. -/
def InTimeAt (st : DsState Thread Conn Txn) (c : Conn) (t : Txn) : Pc Conn Txn → Answer Conn → Prop
  | .inTransaction _ _, _ | .closeOwner _, _ => st.connectionMemory c ≠ none
  | .closeLater _ _, .go => st.status t ≠ .completed
  | .closeLater _ _, .raises e => e.cls = .nullPointer ∨ ¬ st.Completing c t
  | _, _ => True

def InTime (th : Thread) (c : Conn) (t : Txn) (x : DsState Thread Conn Txn × List CallEvent) :
    DsAction Thread Conn Txn → Prop
  | .step th' answer => th' = th → x.1.InTimeAt c t (x.1.pc th) answer
  | _ => True

/-! ### The invariant -/

/-- How far the call has come.  The flag is as it was until the call sets it, and past the guard the transaction had
not completed when the call was made. -/
inductive CallStage (s : DsState Thread Conn Txn) (w : ℕ) (t : Txn) (closed : Bool) : Call → Pc Conn Txn → Prop
  | inTransaction {call : Call} (hf : (s.wrappers[w]?).map (·.closed) = some closed) :
      CallStage s w t closed call (.inTransaction w call)
  | guarded {call : Call} (hf : (s.wrappers[w]?).map (·.closed) = some closed) :
      CallStage s w t closed call (.guarded w call t)
  | closeOwner (hf : (s.wrappers[w]?).map (·.closed) = some closed) (h : s.status t ≠ .completed) :
      CallStage s w t closed .close (.closeOwner w)
  | closeOnce (hf : (s.wrappers[w]?).map (·.closed) = some closed) (h : s.status t ≠ .completed) :
      CallStage s w t closed .close (.closeOnce w t)
  | closeLater (hf : (s.wrappers[w]?).map (·.closed) = some false) (h : s.status t ≠ .completed) :
      CallStage s w t closed .close (.closeLater w t)
  | plainCall {call : Call} : CallStage s w t closed call (.plainCall w call)

/-- The invariant of the call of `th` that was made in `s`. -/
structure CallInv (s : DsState Thread Conn Txn) (th : Thread) (w : ℕ) (call : Call) (c : Conn) (t : Txn)
    (x : DsState Thread Conn Txn × List CallEvent) : Prop where
  stage : (x.1.pc th).inCall = some (w, call) → x.2 = [] ∧ ∃ caller closed,
    x.1.wrappers[w]? = some ⟨c, caller, closed⟩ ∧ CallStage s w t closed call (x.1.pc th)
  context : ∀ context, x.1.connectionMemory c = some context → context.transaction = t
  completed : s.status t = .completed → x.1.status t = .completed

variable {s st st' : DsState Thread Conn Txn} {u x y : DsState Thread Conn Txn × List CallEvent} {th : Thread}
  {w : ℕ} {call : Call} {c : Conn} {t : Txn} {pc pc' : Pc Conn Txn} {answer : Answer Conn}
  {a : DsAction Thread Conn Txn} {e : Effect Conn Txn}

omit [DecidableEq Thread] [DecidableEq Conn] [DecidableEq Txn] in
/-- While the call goes on it has come to nothing yet. -/
theorem callKept_of_inCall (hin : (y.1.pc th).inCall = some (w, call)) (hlog : y.2 = []) :
    CallKept s th w call c t y where
  itself e active he := by rw [hlog] at he; cases he
  reached _ hidle := by rw [hidle] at hin; cases hin
  closed _ _ hidle := by rw [hidle] at hin; cases hin

omit [DecidableEq Thread] [DecidableEq Conn] [DecidableEq Txn] in
theorem not_completed_of_active (h : (st.status t).isActive = true) : st.status t ≠ .completed := fun hc => by
  rw [hc] at h
  cases h

omit [DecidableEq Thread] [DecidableEq Conn] [DecidableEq Txn] in
/-- A call that reached the plain connection has done what it should. -/
theorem callKept_of_reached (hlog : y.2 = [.reached call]) : CallKept s th w call c t y where
  itself e active he := by rw [hlog] at he; simp at he
  reached _ _ := by rw [hlog]; exact List.mem_singleton_self _
  closed _ _ _ _ := by rw [hlog]; exact .inl (List.mem_singleton_self _)

omit [DecidableEq Thread] [DecidableEq Conn] [DecidableEq Txn] in
/-- A call that raised anything but the refusal has not done what it should. -/
theorem not_callKept_of_raised {x : Throwable} {active : Bool} (hlog : y.2 = [.raised x active])
    (hx : x.cls ≠ .sql) : ¬ CallKept s th w call c t y := by
  intro hkept
  have hraised := hkept.itself x active (by rw [hlog]; exact List.mem_singleton_self _)
  exact hx (congrArg Throwable.cls hraised.1)

omit [DecidableEq Thread] [DecidableEq Conn] [DecidableEq Txn] in
/-- A close that ended without a trace is right if it is not the first one or does not overlap the completion. -/
theorem callKept_close_iff {closed : Bool} (hlog : y.2 = []) (hidle : y.1.pc th = .idle)
    (hf : (s.wrappers[w]?).map (·.closed) = some closed) (hbefore : s.status t ≠ .completed) :
    CallKept s th w .close c t y ↔ closed = true ∨ ¬ y.1.Completing c t := by
  constructor
  · intro hkept
    by_contra hnot
    obtain ⟨hopen, hcompleting⟩ := not_or.mp hnot
    rw [Bool.eq_false_of_not_eq_true hopen] at hf
    have hclosed := hkept.closed rfl hf hidle (not_not.mp hcompleting)
    rw [hlog] at hclosed
    rcases hclosed with hmem | hmem <;> cases hmem
  · intro hright
    refine ⟨fun e active he => ?_, fun hc => absurd hc hbefore, fun _ hopen _ hcompleting => ?_⟩
    · rw [hlog] at he
      cases he
    · rcases hright with hclosed | hnot
      · rw [hf, hclosed] at hopen
        cases hopen
      · exact absurd hcompleting hnot

/-- **A step of the call** keeps what the call is for exactly if it is in time. -/
theorem CallInv.own_step (h : CallInv s th w call c t x) (hat : x.1.pc th = pc) (hin : pc.inCall = some (w, call))
    (hstatus : ∀ e t, answer = .raises e → pc ≠ .guarded w call t)
    (hs : callStep th c t x (.step th answer) = some y) :
    CallInv s th w call c t y ∧ (CallKept s th w call c t y ↔ x.1.InTimeAt c t pc answer) := by
  obtain ⟨hstep, hlog⟩ := logged_eq_some.mp hs
  obtain ⟨st', l'⟩ := y
  simp only [DsState.step, Option.map_eq_some_iff, Prod.exists] at hstep
  obtain ⟨pc', e, hinstr, rfl⟩ := hstep
  obtain ⟨hempty, caller, closed, hw, hstage⟩ := h.stage (hat ▸ hin)
  rw [hat] at hinstr hstage
  have hlog' : l' = x.1.callEvents c t answer e := by simpa [callLog, hempty, hat, hinstr] using hlog
  have hstep := wrapperStep_of_instr hw hin hinstr
  obtain ⟨hcm, -, -⟩ := hstep.frame th
  have hself : ((x.1.apply th e).setPc th pc').pc th = pc' := setPc_self ..
  have hcompleting : ((x.1.apply th e).setPc th pc').Completing c t ↔ x.1.Completing c t := by
    show ¬ ((x.1.apply th e).status t).isActive ∨ (x.1.apply th e).connectionMemory c = none ↔ _
    rw [hcm, apply_status]
    rfl
  have hinv : (pc'.inCall = some (w, call) → l' = [] ∧ ∃ caller closed,
      (x.1.apply th e).wrappers[w]? = some ⟨c, caller, closed⟩ ∧ CallStage s w t closed call pc') →
        CallInv s th w call c t ((x.1.apply th e).setPc th pc', l') := fun hgoes =>
    ⟨by dsimp only; rw [hself]; exact hgoes,
      fun context hcontext => h.context context ((congrFun hcm c).symm.trans hcontext),
      fun hcompleted => (congrFun (apply_status x.1 th e) t).trans (h.completed hcompleted)⟩
  have hends : pc' = .idle → CallInv s th w call c t ((x.1.apply th e).setPc th pc', l') := fun hidle =>
    hinv fun hin' => by rw [hidle] at hin'; cases hin'
  have hgoes : pc'.inCall = some (w, call) → l' = [] →
      CallKept s th w call c t ((x.1.apply th e).setPc th pc', l') := fun hin' hquiet =>
    callKept_of_inCall (by rw [hself]; exact hin') hquiet
  cases hstep with
  | @registered _ context hsome =>
    cases hin
    cases hstage with
    | inTransaction hf =>
      obtain rfl := h.context context hsome
      refine ⟨hinv fun _ => ⟨hlog', caller, closed, hw, .guarded hf⟩, iff_of_true (hgoes rfl hlog') ?_⟩
      intro hnone
      rw [hsome] at hnone
      cases hnone
  | unregistered hnone =>
    exact ⟨hends rfl, iff_of_false (not_callKept_of_raised hlog' fun hcls => by cases hcls) fun hsome => hsome hnone⟩
  | @refuses _ t' hactive hclose =>
    cases hin
    cases hstage with
    | guarded hf =>
      refine ⟨hends rfl, iff_of_true ⟨?_, ?_, ?_⟩ trivial⟩
      · intro e active he
        rw [hlog'] at he
        obtain ⟨rfl, rfl⟩ : e = _ ∧ active = _ := by simpa [callEvents] using he
        exact ⟨rfl, hactive⟩
      · intro hcompleted _
        exact absurd (h.completed hcompleted) (not_completed_of_active hactive)
      · intro heq
        exact absurd heq hclose
  | defers hactive =>
    cases hin
    cases hstage with
    | guarded hf =>
      have hbefore : s.status t ≠ .completed := fun hc => not_completed_of_active hactive (h.completed hc)
      exact ⟨hinv fun _ => ⟨hlog', caller, closed, hw, .closeOwner hf hbefore⟩, iff_of_true (hgoes rfl hlog') trivial⟩
  | passes =>
    cases hin
    exact ⟨hinv fun _ => ⟨hlog', caller, closed, hw, .plainCall⟩, iff_of_true (hgoes rfl hlog') trivial⟩
  | statusRaises =>
    cases hin
    exact absurd rfl (hstatus _ _ rfl)
  | @owned context hsome =>
    cases hin
    cases hstage with
    | closeOwner hf hbefore =>
      obtain rfl := h.context context hsome
      refine ⟨hinv fun _ => ⟨hlog', caller, closed, hw, .closeOnce hf hbefore⟩, iff_of_true (hgoes rfl hlog') ?_⟩
      intro hnone
      rw [hsome] at hnone
      cases hnone
  | disowned hnone =>
    exact ⟨hends rfl, iff_of_false (not_callKept_of_raised hlog' fun hcls => by cases hcls) fun hsome => hsome hnone⟩
  | ignored hclosed =>
    cases hin
    cases hstage with
    | closeOnce hf hbefore =>
      have hkept : CallKept s th w .close c t ((x.1.apply th .skip).setPc th .idle, l') :=
        (callKept_close_iff hlog' hself hf hbefore).mpr (.inl hclosed)
      exact ⟨hends rfl, iff_of_true hkept trivial⟩
  | wins hopen =>
    cases hin
    cases hstage with
    | closeOnce hf hbefore =>
      obtain rfl : closed = false := hopen
      refine ⟨hinv fun _ => ⟨hlog', caller, true, ?_, .closeLater hf hbefore⟩, iff_of_true (hgoes rfl hlog') trivial⟩
      simp [apply, List.getElem?_modify_eq, hw]
  | schedules =>
    cases hin
    cases hstage with
    | closeLater hf hbefore =>
      refine ⟨hends rfl, ?_⟩
      by_cases hdone : x.1.status t = .completed
      · -- the callback comes after the completion and will not be run
        have hnone : l' = [] := by rw [hlog']; exact if_neg fun hin => hin.2.2 hdone
        have hover : x.1.Completing c t := .inl (by rw [hdone]; exact Bool.false_ne_true)
        rw [callKept_close_iff hnone hself hf hbefore, hcompleting]
        exact iff_of_false (not_or.mpr ⟨Bool.false_ne_true, not_not.mpr hover⟩) fun hnot => hnot hdone
      · have hscheduled : l' = [.scheduled] := by rw [hlog']; exact if_pos ⟨rfl, rfl, hdone⟩
        refine iff_of_true ⟨?_, fun hc => absurd hc hbefore, fun _ _ _ _ => ?_⟩ hdone
        · intro e active he
          rw [hscheduled] at he
          simp at he
        · rw [hscheduled]
          exact .inr (List.mem_singleton_self _)
  | retries hnull =>
    cases hin
    exact ⟨hinv fun _ => ⟨hlog', caller, closed, hw, .plainCall⟩, iff_of_true (hgoes rfl hlog') (.inl hnull)⟩
  | registrationRaises hne =>
    cases hin
    cases hstage with
    | closeLater hf hbefore =>
      refine ⟨hends rfl, ?_⟩
      rw [callKept_close_iff hlog' hself hf hbefore, hcompleting]
      exact or_congr_left (iff_of_false Bool.false_ne_true hne)
  | reaches =>
    cases hin
    refine ⟨hends rfl, iff_of_true (callKept_of_reached (hlog'.trans ?_)) trivial⟩
    simp [callEvents, Effect.called]
  | plainRaises =>
    cases hin
    refine ⟨hends rfl, iff_of_true (callKept_of_reached (hlog'.trans ?_)) trivial⟩
    simp [callEvents, Effect.called]

/-- What happens beside the call leaves it where it is. -/
theorem CallInv.beside (h : CallInv s th w call c t x) (hin : (x.1.pc th).inCall = some (w, call))
    (hbeside : ∀ answer, a ≠ .step th answer) (hl : ∀ st', x.1.step a = some st' → LeavesWrapper w c x.1 st')
    (hs : callStep th c t x a = some y) : CallInv s th w call c t y ∧ (y.1.pc th).inCall = some (w, call) ∧ y.2 = [] := by
  obtain ⟨hstep, hlog⟩ := logged_eq_some.mp hs
  obtain ⟨hempty, caller, closed, hw, hstage⟩ := h.stage hin
  obtain ⟨hwrapper, hcm⟩ := hl y.1 hstep
  have hidle : x.1.pc th ≠ .idle := fun hidle => by rw [hidle] at hin; cases hin
  have hpc : y.1.pc th = x.1.pc th := pc_of_beside hstep hidle hbeside
  have hquiet : callLog th c t x.1 a = [] := by
    cases a with
    | step th' answer => exact if_neg fun heq => hbeside answer (by rw [heq])
    | _ => rfl
  have hlog' : y.2 = [] := by rw [hlog, hempty, hquiet, List.append_nil]
  refine ⟨⟨fun _ => ⟨hlog', caller, closed, hwrapper.trans hw, hpc ▸ hstage⟩, fun context hcontext => ?_, fun hc => ?_⟩,
    hpc ▸ hin, hlog'⟩
  · rcases hcm with hcm | hcm <;> rw [hcm] at hcontext
    · exact h.context context hcontext
    · cases hcontext
  · exact completed_of_step hstep (h.completed hc)

/-- The transaction moves on: no wrapper and no entry changes. -/
theorem leavesWrapper_of_setStatus {status : Status} (hs : st.step (.setStatus t status) = some st') :
    LeavesWrapper w c st st' := by
  cases steps_of_step hs with
  | setStatus => exact ⟨rfl, .inl rfl⟩

/-- The step lemma, whoever takes the step. -/
theorem CallInv.step (h : CallInv s th w call c t x) (hover : Overlaps th w call c x a)
    (hs : callStep th c t x a = some y) : CallInv s th w call c t y ∧ (CallKept s th w call c t y ↔ InTime th c t x a) := by
  obtain ⟨hin, ⟨answer, rfl, hstatus⟩ | ⟨hbeside, hl⟩⟩ := hover
  · obtain ⟨hinv, hkept⟩ := h.own_step rfl hin hstatus hs
    exact ⟨hinv, hkept.trans ⟨fun hintime _ => hintime, fun hintime => hintime rfl⟩⟩
  · obtain ⟨hinv, hin', hlog⟩ := h.beside hin hbeside hl hs
    refine ⟨hinv, iff_of_true (callKept_of_inCall hin' hlog) ?_⟩
    cases a with
    | step th' answer => exact fun heq => absurd (by rw [heq]) (hbeside answer)
    | _ => trivial

/-- **A call and the completion of its transaction.**  Let `th` call `commit`, `rollback`, `setAutoCommit`,
`setReadOnly` or `close` on a wrapper whose connection is registered with `t` or no longer registered, and let the
transaction complete, its entry be removed and anything else happen beside the call that leaves the wrapper alone.
Then the call does what it should if and only if it reads the entry only while it is there, and registers the
callback of a close in time. -/
theorem completion_iff {wrapper : TransactionConnectionWrapper Conn Txn} {as : List (DsAction Thread Conn Txn)}
    (hpc : s.pc th = .inTransaction w call) (hw : s.wrappers[w]? = some wrapper) (hconn : wrapper.plainConn = c)
    (hcontext : ∀ context, s.connectionMemory c = some context → context.transaction = t)
    (hover : Along (callStep th c t) (Overlaps th w call c) (s, []) as)
    (hexec : exec (callStep th c t) (s, []) as = some u) :
    CallKept s th w call c t u ↔ Along (callStep th c t) (InTime th c t) (s, []) as := by
  have hinv : CallInv s th w call c t (s, []) := by
    refine ⟨fun _ => ⟨rfl, wrapper.caller, wrapper.closed, ?_, ?_⟩, hcontext, id⟩
    · rw [hw, ← hconn]
    · rw [hpc]
      exact .inTransaction (by rw [hw]; rfl)
  have hin : (s.pc th).inCall = some (w, call) := by rw [hpc]; rfl
  exact Along.last_iff_of_step (I := CallInv s th w call c t) (P := CallKept s th w call c t)
    (fun x a y h hover hs => h.step hover hs) (fun x a h hover => callKept_of_inCall hover.1 (h.stage hover.1).1) hinv
    (callKept_of_inCall hin rfl) hover hexec

/-! ### Two calls in the small world -/

/-- The thread `false` calls `close` on the wrapper `0`. -/
def inClose (s : DsState Bool Bool Unit) : DsState Bool Bool Unit := s.setPc false (.inTransaction 0 .close)

/-- The transaction goes on to commit after `close` has found the entry. -/
def commitsMeanwhile : List (DsAction Bool Bool Unit) :=
  [.step false .go, .setStatus () .committing, .step false .go, .step false .go]

theorem completion_iff_commitsMeanwhile :
    ∃ u, exec (callStep false false ()) (inClose oneWrapped, []) commitsMeanwhile = some u ∧
    CallKept (inClose oneWrapped) false 0 .close false () u := by
  refine ⟨_, rfl, ?_⟩
  have hover : Along (callStep false false ()) (Overlaps false 0 .close false) (inClose oneWrapped, []) commitsMeanwhile :=
    .cons rfl ⟨rfl, .inl ⟨.go, rfl, nofun⟩⟩ <|
      .cons rfl ⟨rfl, .inr ⟨nofun, fun _ hs => leavesWrapper_of_setStatus hs⟩⟩ <|
        .cons rfl ⟨rfl, .inl ⟨.go, rfl, nofun⟩⟩ <| .cons rfl ⟨rfl, .inl ⟨.go, rfl, nofun⟩⟩ trivial
  have hintime : Along (callStep false false ()) (InTime false false ()) (inClose oneWrapped, []) commitsMeanwhile :=
    .cons rfl (fun _ => nofun) <| .cons rfl trivial <| .cons rfl (fun _ => trivial) <| .cons rfl (fun _ => trivial) trivial
  have hcontext : ∀ context, (inClose oneWrapped).connectionMemory false = some context → context.transaction = () :=
    fun _ _ => rfl
  have hwrapper : (inClose oneWrapped).wrappers[0]? = some ⟨false, (), false⟩ := rfl
  exact (completion_iff rfl hwrapper rfl hcontext hover rfl).mpr hintime

/-- The transaction has completed and `terminateTransaction` has run. -/
def terminated : DsState Bool Bool Unit :=
  (exec step oneWrapped [.setStatus () .completed, .afterCompletion false () 0, .step false .go, .step false .go]).getD
    oneWrapped

/-- A `close` after the commit raises a `NoSuchElementException`. -/
theorem completion_not_kept : ¬ ∀ (as : List (DsAction Bool Bool Unit)) (u : DsState Bool Bool Unit × List CallEvent),
    Along (callStep false false ()) (Overlaps false 0 .close false) (inClose terminated, []) as →
      exec (callStep false false ()) (inClose terminated, []) as = some u →
        CallKept (inClose terminated) false 0 .close false () u := by
  intro h
  have hover : Along (callStep false false ()) (Overlaps false 0 .close false) (inClose terminated, []) [.step false .go] :=
    .cons rfl ⟨rfl, .inl ⟨.go, rfl, nofun⟩⟩ trivial
  have hraised := (h _ _ hover rfl).itself ⟨.noSuchElement, none⟩ false (List.mem_singleton_self _)
  exact absurd hraised.2 (by decide)

end DsState

end Dynamy.Services
