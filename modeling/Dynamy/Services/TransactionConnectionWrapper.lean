import Dynamy.Services.Transactions

/-!
# Dynamy.Services.TransactionConnectionWrapper — one call of a wrapper, step by step

What a thread inside a method of a wrapper can do next (`WrapperStep`, one case for each access of the source), and
what such a step leaves alone.  The results on wrappers (guards, completion, release) are read off these cases.
-/

namespace Dynamy.Services

open Dynamy.Java Dynamy.Lib

variable {Thread Conn Txn : Type}

/-- The wrapper and the method that a thread at this point is in. -/
def Pc.inCall : Pc Conn Txn → Option (ℕ × Call)
  | .inTransaction w call | .guarded w call _ | .plainCall w call => some (w, call)
  | .closeOwner w | .closeOnce w _ | .closeLater w _ => some (w, .close)
  | _ => none

/-- The calls, at most one, that a thread at this point is in on wrappers over `c`. -/
def Pc.callsOver [DecidableEq Conn] (plainOf : ℕ → Option Conn) (c : Conn) (pc : Pc Conn Txn) : List Call :=
  match pc.inCall with
  | some (w, call) => if plainOf w = some c then [call] else []
  | none => []

namespace DsState

/-- The plain connection of the wrapper `w`. -/
def plainOf (st : DsState Thread Conn Txn) (w : ℕ) : Option Conn := (st.wrappers[w]?).map (·.plainConn)

/-- The calls that `th` is in on wrappers over `c`. -/
def inFlight [DecidableEq Conn] (st : DsState Thread Conn Txn) (c : Conn) (th : Thread) : List Call :=
  (st.pc th).callsOver st.plainOf c

/-- What a step of a call on the wrapper `w` can be. -/
inductive WrapperStep (st : DsState Thread Conn Txn) (w : ℕ) (wrapper : TransactionConnectionWrapper Conn Txn) :
    Pc Conn Txn → Answer Conn → Pc Conn Txn → Effect Conn Txn → Prop
  | registered {call : Call} {context : TransactionContext Conn Txn}
      (h : st.connectionMemory wrapper.plainConn = some context) :
      WrapperStep st w wrapper (.inTransaction w call) .go (.guarded w call context.transaction) .skip
  | unregistered {call : Call} (h : st.connectionMemory wrapper.plainConn = none) :
      WrapperStep st w wrapper (.inTransaction w call) .go .idle (.raise ⟨.noSuchElement, none⟩ none)
  | refuses {call : Call} {t : Txn} (h : (st.status t).isActive) (hcall : call ≠ .close) :
      WrapperStep st w wrapper (.guarded w call t) .go .idle (.raise ⟨.sql, some call.refusal⟩ none)
  | defers {t : Txn} (h : (st.status t).isActive) :
      WrapperStep st w wrapper (.guarded w .close t) .go (.closeOwner w) .skip
  | passes {call : Call} {t : Txn} (h : ¬ (st.status t).isActive) :
      WrapperStep st w wrapper (.guarded w call t) .go (.plainCall w call) .skip
  | statusRaises {call : Call} {t : Txn} {x : Throwable} :
      WrapperStep st w wrapper (.guarded w call t) (.raises x) .idle (.raise x none)
  | owned {context : TransactionContext Conn Txn} (h : st.connectionMemory wrapper.plainConn = some context) :
      WrapperStep st w wrapper (.closeOwner w) .go (.closeOnce w context.transaction) .skip
  | disowned (h : st.connectionMemory wrapper.plainConn = none) :
      WrapperStep st w wrapper (.closeOwner w) .go .idle (.raise ⟨.matchError, none⟩ none)
  | ignored {t : Txn} (h : wrapper.closed = true) : WrapperStep st w wrapper (.closeOnce w t) .go .idle .skip
  | wins {t : Txn} (h : wrapper.closed = false) :
      WrapperStep st w wrapper (.closeOnce w t) .go (.closeLater w t) (.setClosed w)
  | schedules {t : Txn} : WrapperStep st w wrapper (.closeLater w t) .go .idle
      (.registerSynchronization t (.closePlain wrapper.plainConn))
  | retries {t : Txn} {x : Throwable} (h : x.cls = .nullPointer) :
      WrapperStep st w wrapper (.closeLater w t) (.raises x) (.plainCall w .close) .skip
  | registrationRaises {t : Txn} {x : Throwable} (h : x.cls ≠ .nullPointer) :
      WrapperStep st w wrapper (.closeLater w t) (.raises x) .idle (.raise x none)
  | reaches {call : Call} :
      WrapperStep st w wrapper (.plainCall w call) .go .idle (.plainCall wrapper.plainConn call)
  | plainRaises {call : Call} {x : Throwable} :
      WrapperStep st w wrapper (.plainCall w call) (.raises x) .idle
        (.raise x none (some (wrapper.plainConn, call)))

variable {st : DsState Thread Conn Txn} {w : ℕ} {wrapper : TransactionConnectionWrapper Conn Txn} {call : Call}
  {pc pc' : Pc Conn Txn} {answer : Answer Conn} {e : Effect Conn Txn} {th : Thread}

theorem wrapperStep_of_instr (hw : st.wrappers[w]? = some wrapper) (hpc : pc.inCall = some (w, call))
    (h : st.instr pc answer = some (pc', e)) : WrapperStep st w wrapper pc answer pc' e := by
  cases answer with
  | connection c =>
    cases pc with
    | checkout => cases hpc
    | _ => cases h
  | refuses =>
    cases pc with
    | enlistResource => cases hpc
    | _ => cases h
  | raises x =>
    cases pc with
    | guarded => cases hpc; cases h; exact .statusRaises
    | plainCall =>
      cases hpc
      simp only [instr, interrupt, callAt, hw] at h
      cases h
      exact .plainRaises
    | closeLater =>
      cases hpc
      simp only [instr, interrupt] at h
      split at h <;> cases h
      · exact .retries ‹_›
      · exact .registrationRaises ‹_›
    | inTransaction => cases h
    | closeOwner => cases h
    | closeOnce => cases h
    | _ => cases hpc
  | go =>
    cases pc with
    | inTransaction =>
      cases hpc
      simp only [instr, proceed, hw] at h
      split at h <;> cases h
      · exact .registered ‹_›
      · exact .unregistered ‹_›
    | guarded =>
      cases hpc
      simp only [instr, proceed] at h
      split at h
      · rename_i hactive
        split at h <;> cases h
        · rename_i hclose
          exact hclose ▸ .defers hactive
        · exact .refuses hactive ‹_›
      · cases h
        exact .passes ‹_›
    | closeOwner =>
      cases hpc
      simp only [instr, proceed, hw] at h
      split at h <;> cases h
      · exact .owned ‹_›
      · exact .disowned ‹_›
    | closeOnce =>
      cases hpc
      simp only [instr, proceed, hw] at h
      split at h <;> cases h
      · exact .ignored ‹_›
      · rename_i hopen
        exact .wins (by simpa using hopen)
    | closeLater =>
      cases hpc
      simp only [instr, proceed, hw] at h
      cases h
      exact .schedules
    | plainCall =>
      cases hpc
      simp only [instr, proceed, hw] at h
      cases h
      exact .reaches
    | _ => cases hpc

theorem WrapperStep.moves (h : WrapperStep st w wrapper pc answer pc' e) : pc' ≠ pc := by
  cases h <;> exact nofun

variable [DecidableEq Conn] [DecidableEq Txn]

/-- Setting the flag of a wrapper is not seen in anything but the flag. -/
theorem map_wrapper_setClosed {β : Type} {f : TransactionConnectionWrapper Conn Txn → β}
    (hf : ∀ wrapper : TransactionConnectionWrapper Conn Txn, f { wrapper with closed := true } = f wrapper)
    (st : DsState Thread Conn Txn) (th : Thread) (w w' : ℕ) :
    ((st.apply th (.setClosed w)).wrappers[w']?).map f = (st.wrappers[w']?).map f := by
  rw [apply, List.getElem?_modify, Option.map_eq_map, Option.map_map]
  refine congrArg (Option.map · st.wrappers[w']?) (funext fun wrapper => ?_)
  by_cases hw : w = w'
  · rw [Function.comp_apply, if_pos hw, hf]
  · rw [Function.comp_apply, if_neg hw]

/-- **Frame**: a step in a wrapper's method changes neither map and no wrapper's connection. -/
theorem WrapperStep.frame (h : WrapperStep st w wrapper pc answer pc' e) (th : Thread) :
    (st.apply th e).connectionMemory = st.connectionMemory ∧
      (st.apply th e).transactionMemory = st.transactionMemory ∧ (st.apply th e).plainOf = st.plainOf := by
  cases h with
  | wins => exact ⟨rfl, rfl, funext fun w' => map_wrapper_setClosed (fun _ => rfl) st th w w'⟩
  | _ => exact ⟨rfl, rfl, rfl⟩

/-! ### Calls on their way -/

variable {st' : DsState Thread Conn Txn} {c : Conn}

omit [DecidableEq Txn] in
theorem callsOver_of_inCall {plainOf : ℕ → Option Conn} (hpc : pc.inCall = some (w, call)) (hw : plainOf w = some c) :
    pc.callsOver plainOf c = [call] := by
  rw [Pc.callsOver, hpc]
  exact if_pos hw

omit [DecidableEq Txn] in
theorem inFlight_of_idle (h : st.pc th = .idle) : st.inFlight c th = [] := by
  rw [inFlight, h]
  rfl

omit [DecidableEq Txn] in
/-- Who is in a call on a wrapper over `c`. -/
theorem inFlight_ne_nil (h : st.inFlight c th ≠ []) : ∃ w wrapper call, (st.pc th).inCall = some (w, call) ∧
    st.wrappers[w]? = some wrapper ∧ wrapper.plainConn = c ∧ st.inFlight c th = [call] := by
  unfold inFlight Pc.callsOver at h ⊢
  cases hcall : (st.pc th).inCall with
  | none => rw [hcall] at h; exact absurd rfl h
  | some p =>
    obtain ⟨w, call⟩ := p
    rw [hcall] at h
    dsimp only at h ⊢
    by_cases hw : st.plainOf w = some c
    · obtain ⟨wrapper, hwrapper, hconn⟩ := Option.map_eq_some_iff.mp hw
      exact ⟨w, wrapper, call, rfl, hwrapper, hconn, if_pos hw⟩
    · rw [if_neg hw] at h
      exact absurd rfl h

variable [DecidableEq Thread]

omit [DecidableEq Txn] in
/-- A thread that moves from one point to another, with the wrappers as they were. -/
theorem inFlight_setPc (th : Thread) (pc : Pc Conn Txn) (c : Conn) (hplain : st'.plainOf = st.plainOf)
    (hpc : st'.pc = st.pc) :
    (st'.setPc th pc).inFlight c th = pc.callsOver st.plainOf c ∧
      ∀ th' ≠ th, (st'.setPc th pc).inFlight c th' = st.inFlight c th' := by
  have hkeep : (st'.setPc th pc).plainOf = st.plainOf := hplain
  constructor
  · rw [inFlight, hkeep, setPc_self]
  · intro th' hne
    rw [inFlight, inFlight, hkeep, setPc_of_ne hne, hpc]

end DsState

end Dynamy.Services
