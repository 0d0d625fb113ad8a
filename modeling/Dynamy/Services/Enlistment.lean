import Dynamy.Services.Transactions
import Mathlib.Data.List.Basic

/-!
# Dynamy.Services.Enlistment — one connection for a transaction

All calls of `getConnection` in one active transaction should return wrappers over one connection, enlisted once.
A call that finds no context in `transactionMemory` goes on to register a connection of its own; nothing keeps a second
call from looking in between, and nothing looks at what `enlistResource` returns.  `enlisted_once` holds in runs in which
no call of the transaction looks while another one is between its missed lookup and `enlistResource`, and
`enlistResource` returns `true`.

The abstract view of one transaction (`Calls`) keeps the phase of every call in it, the connection that
`transactionMemory` has for it, and what was enlisted and wrapped.  Steps of the machine are steps of this view
(`calls_of_step`), and the view's invariant has one case for each stage of a single registration.
-/

namespace Dynamy.Services

open Dynamy.Java Dynamy.Lib

variable {Thread Conn Txn : Type}

/-! ### Phases of a call in `t` -/

inductive Phase (Conn : Type)
  /-- not in `t`, or not past the lookup, or over -/
  | other
  /-- after a missed lookup -/
  | searching
  /-- `c` is in `transactionMemory` and not enlisted yet -/
  | registering (c : Conn)
  /-- about to return a wrapper over `c` -/
  | wrapping (c : Conn)

/-- Between the missed lookup and `enlistResource`. -/
def Phase.Enlisting : Phase Conn → Prop
  | .searching => True
  | .registering _ => True
  | _ => False

/-- What matters about one transaction. -/
structure Calls (Thread Conn : Type) where
  phase : Thread → Phase Conn
  memory : Option Conn
  enlisted : List Conn
  wrapped : List Conn

namespace Calls

variable [DecidableEq Thread] {a b : Calls Thread Conn}

def setPhase (a : Calls Thread Conn) (th : Thread) (φ : Phase Conn) : Calls Thread Conn :=
  { a with phase := Function.update a.phase th φ }

/-- The steps of calls of which each one looks alone, with `enlistResource` always enlisting. -/
inductive Step (a : Calls Thread Conn) : Calls Thread Conn → Prop
  | same : Step a a
  | stop {th : Thread} (h : ∀ c, a.phase th ≠ .registering c) : Step a (a.setPhase th .other)
  | miss {th : Thread} (halone : ∀ th', ¬ (a.phase th').Enlisting) (h : a.memory = none) :
      Step a (a.setPhase th .searching)
  | hit {th : Thread} {c : Conn} (halone : ∀ th', ¬ (a.phase th').Enlisting) (h : a.memory = some c) :
      Step a (a.setPhase th (.wrapping c))
  | put {th : Thread} {c : Conn} (h : a.phase th = .searching) :
      Step a { a.setPhase th (.registering c) with memory := some c }
  | present {th : Thread} {c : Conn} (h : a.phase th = .searching) (hm : a.memory ≠ none) :
      Step a (a.setPhase th (.wrapping c))
  | enlist {th : Thread} {c : Conn} (h : a.phase th = .registering c) :
      Step a { a.setPhase th (.wrapping c) with enlisted := a.enlisted ++ [c] }
  | leave {th : Thread} {c : Conn} (h : a.phase th = .wrapping c) :
      Step a { a.setPhase th .other with wrapped := a.wrapped ++ [c] }

/-- The stages of one registration: nobody in it, one call searching, one call registering, done. -/
inductive Stage (a : Calls Thread Conn) : Prop
  | fresh (hm : a.memory = none) (he : a.enlisted = []) (hw : a.wrapped = []) (hφ : ∀ th, a.phase th = .other)
  | searching (th : Thread) (hm : a.memory = none) (he : a.enlisted = []) (hw : a.wrapped = [])
      (hφ : a.phase th = .searching) (hother : ∀ th', th' ≠ th → a.phase th' = .other)
  | registering (th : Thread) (c : Conn) (hm : a.memory = some c) (he : a.enlisted = []) (hw : a.wrapped = [])
      (hφ : a.phase th = .registering c) (hother : ∀ th', th' ≠ th → a.phase th' = .other)
  | done (c : Conn) (hm : a.memory = some c) (he : a.enlisted = [c]) (hw : ∀ c' ∈ a.wrapped, c' = c)
      (hφ : ∀ th, a.phase th = .other ∨ a.phase th = .wrapping c)

theorem setPhase_self (th : Thread) (φ : Phase Conn) : (a.setPhase th φ).phase th = φ := Function.update_self ..

theorem setPhase_ne {th th' : Thread} (φ : Phase Conn) (h : th' ≠ th) : (a.setPhase th φ).phase th' = a.phase th' :=
  Function.update_of_ne h ..

theorem forall_setPhase {P : Thread → Phase Conn → Prop} {th : Thread} {φ : Phase Conn} :
    (∀ th', P th' ((a.setPhase th φ).phase th')) ↔ P th φ ∧ ∀ th', th' ≠ th → P th' (a.phase th') :=
  Function.forall_update_iff ..

/-- **The stages**: a step leads from stage to stage. -/
theorem Stage.step (h : Stage a) (hs : Step a b) : Stage b := by
  cases hs with
  | same => exact h
  | @stop th hstop =>
    cases h with
    | fresh hm he hw hφ =>
      exact .fresh hm he hw ((forall_setPhase (P := fun _ φ => φ = .other)).mpr ⟨rfl, fun th' _ => hφ th'⟩)
    | searching th₀ hm he hw hφ hother =>
      by_cases hth : th = th₀
      · subst hth
        exact .fresh hm he hw ((forall_setPhase (P := fun _ φ => φ = .other)).mpr ⟨rfl, hother⟩)
      · exact .searching th₀ hm he hw (by rw [setPhase_ne _ (Ne.symm hth), hφ])
          ((forall_setPhase (P := fun th' φ => th' ≠ th₀ → φ = .other)).mpr ⟨fun _ => rfl, fun th' _ => hother th'⟩)
    | registering th₀ c hm he hw hφ hother =>
      have hth : th ≠ th₀ := fun heq => hstop c (heq ▸ hφ)
      exact .registering th₀ c hm he hw (by rw [setPhase_ne _ (Ne.symm hth), hφ])
        ((forall_setPhase (P := fun th' φ => th' ≠ th₀ → φ = .other)).mpr ⟨fun _ => rfl, fun th' _ => hother th'⟩)
    | done c hm he hw hφ =>
      exact .done c hm he hw ((forall_setPhase (P := fun _ φ => φ = .other ∨ φ = .wrapping c)).mpr
        ⟨.inl rfl, fun th' _ => hφ th'⟩)
  | @miss th halone hnone =>
    cases h with
    | fresh hm he hw hφ =>
      exact .searching th hm he hw (setPhase_self ..) fun th' hth' => by rw [setPhase_ne _ hth', hφ]
    | searching th₀ hm he hw hφ hother => exact (halone th₀ (by rw [hφ]; trivial)).elim
    | registering th₀ c hm he hw hφ hother => exact (halone th₀ (by rw [hφ]; trivial)).elim
    | done c hm he hw hφ => rw [hm] at hnone; cases hnone
  | @hit th c halone hsome =>
    cases h with
    | fresh hm he hw hφ => rw [hm] at hsome; cases hsome
    | searching th₀ hm he hw hφ hother => exact (halone th₀ (by rw [hφ]; trivial)).elim
    | registering th₀ c hm he hw hφ hother => exact (halone th₀ (by rw [hφ]; trivial)).elim
    | done c' hm he hw hφ =>
      obtain rfl : c' = c := by rw [hm, Option.some.injEq] at hsome; exact hsome
      exact .done c' hm he hw ((forall_setPhase (P := fun _ φ => φ = .other ∨ φ = .wrapping c')).mpr
        ⟨.inr rfl, fun th' _ => hφ th'⟩)
  | @put th c hput =>
    cases h with
    | fresh hm he hw hφ => rw [hφ] at hput; cases hput
    | searching th₀ hm he hw hφ hother =>
      have hth : th = th₀ := by
        by_contra hne
        rw [hother th hne] at hput
        cases hput
      subst hth
      exact .registering th c rfl he hw (setPhase_self ..) fun th' hth' => (setPhase_ne _ hth').trans (hother th' hth')
    | registering th₀ c' hm he hw hφ hother =>
      by_cases hth : th = th₀
      · rw [hth, hφ] at hput; cases hput
      · rw [hother th hth] at hput; cases hput
    | done c' hm he hw hφ => rcases hφ th with hφ | hφ <;> rw [hφ] at hput <;> cases hput
  | @present th c hφ' hm' =>
    cases h with
    | fresh hm he hw hφ => exact absurd hm hm'
    | searching th₀ hm he hw hφ hother => exact absurd hm hm'
    | registering th₀ c' hm he hw hφ hother =>
      by_cases hth : th = th₀
      · rw [hth, hφ] at hφ'; cases hφ'
      · rw [hother th hth] at hφ'; cases hφ'
    | done c' hm he hw hφ => rcases hφ th with hφ | hφ <;> rw [hφ] at hφ' <;> cases hφ'
  | @enlist th c hreg =>
    cases h with
    | fresh hm he hw hφ => rw [hφ] at hreg; cases hreg
    | searching th₀ hm he hw hφ hother =>
      by_cases hth : th = th₀
      · rw [hth, hφ] at hreg; cases hreg
      · rw [hother th hth] at hreg; cases hreg
    | registering th₀ c' hm he hw hφ hother =>
      have hth : th = th₀ := by
        by_contra hne
        rw [hother th hne] at hreg
        cases hreg
      subst hth
      obtain rfl : c' = c := by rw [hφ] at hreg; cases hreg; rfl
      exact .done c' hm (by rw [he]; rfl) (fun c hc => absurd hc (by simp [setPhase, hw]))
        ((forall_setPhase (P := fun _ φ => φ = .other ∨ φ = .wrapping c')).mpr
          ⟨.inr rfl, fun th' hth' => .inl (hother th' hth')⟩)
    | done c' hm he hw hφ => rcases hφ th with hφ | hφ <;> rw [hφ] at hreg <;> cases hreg
  | @leave th c hwrap =>
    cases h with
    | fresh hm he hw hφ => rw [hφ] at hwrap; cases hwrap
    | searching th₀ hm he hw hφ hother =>
      by_cases hth : th = th₀
      · rw [hth, hφ] at hwrap; cases hwrap
      · rw [hother th hth] at hwrap; cases hwrap
    | registering th₀ c' hm he hw hφ hother =>
      by_cases hth : th = th₀
      · rw [hth, hφ] at hwrap; cases hwrap
      · rw [hother th hth] at hwrap; cases hwrap
    | done c' hm he hw hφ =>
      obtain rfl : c = c' := by
        rcases hφ th with hφ | hφ <;> rw [hφ] at hwrap <;> cases hwrap
        rfl
      refine .done c hm he (fun c' hc' => ?_) ((forall_setPhase (P := fun _ φ => φ = .other ∨ φ = .wrapping c)).mpr
        ⟨.inl rfl, fun th' _ => hφ th'⟩)
      rcases List.mem_append.mp hc' with hc' | hc'
      · exact hw c' hc'
      · exact List.mem_singleton.mp hc'

end Calls

/-- The effect enters, enlists or returns nothing for `t`. -/
def Effect.Spares (t : Txn) : Effect Conn Txn → Prop
  | .putTransaction t' _ | .enlistResource t' _ | .returnWrapper t' _ _ => t' ≠ t
  | _ => True

/-- How a step from `pc` changes the phase of a call in `t`. -/
inductive CallStep (st : DsState Thread Conn Txn) (t : Txn) (pc : Pc Conn Txn) :
    Phase Conn → Phase Conn → Effect Conn Txn → Prop
  | same {φ : Phase Conn} {e : Effect Conn Txn} (h : e.Spares t) : CallStep st t pc φ φ e
  | stop {φ : Phase Conn} {x : Throwable} {release : Option Txn} {called : Option (Conn × Call)} :
      CallStep st t pc φ .other (.raise x release called)
  | miss {o : Overload} (hpc : pc = .lookup o t) (h : st.transactionMemory t = none) :
      CallStep st t pc .other .searching .skip
  | hit {o : Overload} {context : TransactionContext Conn Txn} (hpc : pc = .lookup o t)
      (h : st.transactionMemory t = some context) : CallStep st t pc .other (.wrapping context.currentConnection) .skip
  | put {c : Conn} : CallStep st t pc .searching (.registering c) (.putTransaction t c)
  | present {c : Conn} (h : (st.transactionMemory t).isSome) : CallStep st t pc .searching (.wrapping c) .skip
  | enlist {c : Conn} : CallStep st t pc (.registering c) (.wrapping c) (.enlistResource t c)
  | refused {c : Conn} (hpc : pc = .enlistResource c t) : CallStep st t pc (.registering c) (.wrapping c) .skip
  | leave {c : Conn} {release : Option Txn} : CallStep st t pc (.wrapping c) .other (.returnWrapper t c release)

section Phases

variable {st : DsState Thread Conn Txn} {pc pc' : Pc Conn Txn} {e : Effect Conn Txn} {t : Txn} {c : Conn}

variable [DecidableEq Txn]

def Purpose.phase (t : Txn) : Purpose Txn → Phase Conn
  | .inside _ t' => if t' = t then .searching else .other
  | .outside => .other

def Pc.phase (t : Txn) : Pc Conn Txn → Phase Conn
  | .checkout p _ | .swap p _ _ | .containsKey p _ | .owner p _ | .isActive p _ _ => p.phase t
  | .removeTransaction _ _ (.free p) | .removeConnection _ _ (.free p) => p.phase t
  | .enter t' | .acquire _ t' | .recheck _ t' | .putTransaction _ t' => if t' = t then .searching else .other
  | .putConnection c t' | .enlistResource c t' => if t' = t then .registering c else .other
  | .synchronize c t' | .leave c t' | .hit t' c => if t' = t then .wrapping c else .other
  | _ => .other

theorem phase_inWrapper (h : pc.inWrapper) : pc.phase t = .other := by
  cases pc <;> first | rfl | cases h

theorem phase_found (p : Purpose Txn) : (p.found c).phase t = p.phase t := by
  cases p with
  | outside => rfl
  | inside o t' => cases o <;> rfl

theorem entry_phase (s : Synchronization Conn) (t' : Txn) : (s.entry t' : Pc Conn Txn).phase t = .other := by
  cases s <;> rfl

theorem callEntry_phase (w : ℕ) (call : Call) : (call.entry w : Pc Conn Txn).phase t = .other := by
  cases call <;> rfl

/-- **The phases**: every step of a thread is one of those above. -/
theorem EffectFrom.callStep (t : Txn) (h : EffectFrom st pc pc' e) :
    CallStep st t pc (pc.phase t) (pc'.phase t) e := by
  cases e with
  | skip =>
    cases (show Moves st pc pc' from h) with
    | @found o t' context hm =>
      simp only [Pc.phase]
      split_ifs with ht
      · subst ht
        exact .hit rfl hm
      · exact .same trivial
    | @missed t' hm =>
      simp only [Pc.phase, Purpose.phase]
      split_ifs with ht
      · subst ht
        exact .miss rfl hm
      · exact .same trivial
    | @missedLocking t' hm =>
      simp only [Pc.phase]
      split_ifs with ht
      · subst ht
        exact .miss rfl hm
      · exact .same trivial
    | @present c t' hm =>
      simp only [Pc.phase]
      split_ifs with ht
      · subst ht
        exact .present hm
      · exact .same trivial
    | unregistered =>
      rw [phase_found]
      exact .same trivial
    | @refused c t' =>
      simp only [Pc.phase]
      split_ifs with ht
      · subst ht
        exact .refused rfl
      · exact .same trivial
    | wrapper hw hw' =>
      have hpc' : pc'.phase t = .other := by
        rcases hw' with hw' | rfl
        · exact phase_inWrapper hw'
        · rfl
      rw [phase_inWrapper hw, hpc']
      exact .same trivial
    | _ => exact .same trivial
  | acquire t' => rcases h with ⟨rfl, rfl⟩ | ⟨c, rfl, rfl⟩ <;> exact .same trivial
  | checkout c =>
    obtain ⟨-, p, conn1, rfl, rfl⟩ := h
    cases conn1 <;> exact .same trivial
  | plainCall c call =>
    rcases h with ⟨p, conn, rfl, rfl, -⟩ | ⟨w, wrapper, rfl, rfl, -⟩ | ⟨rfl, rfl, -⟩ <;> exact .same trivial
  | putTransaction t' c =>
    obtain ⟨rfl, rfl⟩ := h
    simp only [Pc.phase]
    split_ifs with ht
    · subst ht
      exact .put
    · exact .same ht
  | putConnection t' c =>
    obtain ⟨rfl, rfl⟩ := h
    exact .same trivial
  | removeTransaction t' =>
    obtain ⟨c, k, rfl, rfl⟩ := h
    cases k <;> exact .same trivial
  | removeConnection c =>
    obtain ⟨t', k, rfl, rfl⟩ := h
    cases k with
    | free p =>
      rw [AfterTerminate.next, phase_found]
      exact .same trivial
    | callback => exact .same trivial
  | enlistResource t' c =>
    obtain ⟨rfl, rfl⟩ := h
    simp only [Pc.phase]
    split_ifs with ht
    · subst ht
      exact .enlist
    · exact .same ht
  | registerSynchronization t' s =>
    rcases h with ⟨c, rfl, rfl, -⟩ | ⟨hw, rfl⟩
    · exact .same trivial
    · rw [phase_inWrapper hw]
      exact .same trivial
  | setClosed w =>
    rw [phase_inWrapper h.1, phase_inWrapper h.2]
    exact .same trivial
  | returnWrapper t' c release =>
    obtain ⟨hpc, rfl⟩ := h
    have hphase : pc.phase t = if t' = t then .wrapping c else .other := by rcases hpc with rfl | rfl <;> rfl
    rw [hphase]
    split_ifs with ht
    · subst ht
      exact .leave
    · exact .same ht
  | returnPlain c =>
    obtain ⟨rfl, rfl⟩ := h
    exact .same trivial
  | raise x release called =>
    obtain ⟨-, rfl⟩ := h
    exact .stop

theorem phase_purpose (p : Purpose Txn) : (p.phase t : Phase Conn) ≠ .registering c := by
  cases p with
  | outside => exact fun h => nomatch h
  | inside o t' =>
    simp only [Purpose.phase]
    split_ifs <;> exact fun h => nomatch h

/-- What raises while `c` is being registered is `enlistResource`. -/
theorem raise_registering {answer : Answer Conn} {x : Throwable} {release : Option Txn}
    {called : Option (Conn × Call)} (h : st.instr pc answer = some (pc', .raise x release called))
    (hφ : pc.phase t = .registering c) :
    pc = .enlistResource c t ∧ ∃ x, answer = .raises x := by
  have hpc : pc = .putConnection c t ∨ pc = .enlistResource c t := by
    cases pc with
    | putConnection c' t' =>
      simp only [Pc.phase] at hφ
      split_ifs at hφ with ht
      cases hφ
      exact .inl (ht ▸ rfl)
    | enlistResource c' t' =>
      simp only [Pc.phase] at hφ
      split_ifs at hφ with ht
      cases hφ
      exact .inr (ht ▸ rfl)
    | checkout p _ | swap p _ _ | containsKey p _ | owner p _ | isActive p _ _ => exact absurd hφ (phase_purpose p)
    | removeTransaction c' t' k | removeConnection c' t' k =>
      cases k with
      | free p => exact absurd hφ (phase_purpose p)
      | callback => cases hφ
    | enter t' | acquire c' t' | recheck c' t' | putTransaction c' t' | synchronize c' t' | leave c' t' | hit t' c' =>
      simp only [Pc.phase] at hφ
      split_ifs at hφ
    | _ => cases hφ
  rcases hpc with rfl | rfl
  · cases answer <;> cases h
  · cases answer with
    | raises x => exact ⟨rfl, x, rfl⟩
    | go => cases h
    | connection c' => cases h
    | refuses => cases h

end Phases

/-! ### Wrappers and enlistments of `t` -/

namespace DsState

variable {st st' : DsState Thread Conn Txn} {th : Thread} {t : Txn}

/-- `t` stays active. -/
def StaysActive (t : Txn) : DsAction Thread Conn Txn → Prop
  | .setStatus t' status => t' = t → status.isActive
  | _ => True

/-- `t` is active, and nobody is about to remove its context. -/
structure Kept (st : DsState Thread Conn Txn) (t : Txn) : Prop where
  active : (st.status t).isActive
  removing : ∀ th c k, st.pc th ≠ .removeTransaction c t k

theorem Kept.setPc [DecidableEq Thread] (h : Kept st t) {pc : Pc Conn Txn}
    (hpc : ∀ c k, pc ≠ .removeTransaction c t k) : Kept (st.setPc th pc) t := by
  refine ⟨h.active, fun th' c k => ?_⟩
  exact (Function.forall_update_iff st.pc fun _ pc => ∀ c k, pc ≠ .removeTransaction c t k).mpr
    ⟨hpc, fun th' _ => h.removing th'⟩ th' c k

theorem callEntry_ne (w : ℕ) (call : Call) (c : Conn) (k : AfterTerminate Txn) :
    call.entry w ≠ .removeTransaction c t k := by
  cases call <;> exact fun h => nomatch h

variable [DecidableEq Txn]

/-- The connections enlisted in `t`, one entry for each call of `enlistResource`. -/
def enlistedIn (st : DsState Thread Conn Txn) (t : Txn) : List Conn :=
  st.enlisted.filterMap fun p => if p.1 = t then some p.2 else none

/-- The connections under the wrappers returned to calls in `t`. -/
def wrappedIn (st : DsState Thread Conn Txn) (t : Txn) : List Conn :=
  st.wrappers.filterMap fun w => if w.caller = t then some w.plainConn else none

/-- Every wrapper returned to a call in `t` is over the one connection that was enlisted in `t`, once. -/
def EnlistedOnce (st : DsState Thread Conn Txn) (t : Txn) : Prop := ∀ c ∈ st.wrappedIn t, st.enlistedIn t = [c]

theorem filterMap_modify {α β : Type*} {f : α → α} {g : α → Option β} (h : ∀ x, g (f x) = g x) :
    ∀ (xs : List α) (i : ℕ), (xs.modify i f).filterMap g = xs.filterMap g
  | [], i => by cases i <;> rfl
  | x :: xs, 0 => by simp [List.filterMap_cons, h]
  | x :: xs, i + 1 => by simp [List.filterMap_cons, filterMap_modify h xs i]

section Apply

variable [DecidableEq Conn]

theorem enlistedIn_apply {e : Effect Conn Txn} (he : e.Spares t) : (st.apply th e).enlistedIn t = st.enlistedIn t := by
  cases e with
  | enlistResource t' c =>
    have ht : ¬ t' = t := he
    simp [apply, enlistedIn, ht]
  | returnWrapper t' c release => cases release <;> rfl
  | raise x release called => cases release <;> rfl
  | _ => rfl

theorem wrappedIn_apply {e : Effect Conn Txn} (he : e.Spares t) : (st.apply th e).wrappedIn t = st.wrappedIn t := by
  cases e with
  | setClosed w =>
    exact filterMap_modify (f := fun wrapper : TransactionConnectionWrapper Conn Txn => { wrapper with closed := true })
      (fun _ => rfl) st.wrappers w
  | returnWrapper t' c release =>
    have ht : ¬ t' = t := he
    cases release <;> simp [apply, release, wrappedIn, ht]
  | raise x release called => cases release <;> rfl
  | _ => rfl

theorem transactionMemory_apply {e : Effect Conn Txn} (he : e.Spares t) (hr : e ≠ .removeTransaction t) :
    (st.apply th e).transactionMemory t = st.transactionMemory t := by
  cases e with
  | putTransaction t' c => exact Function.update_of_ne (Ne.symm he) ..
  | removeTransaction t' => exact Function.update_of_ne (fun h => hr (by rw [h])) ..
  | returnWrapper t' c release => cases release <;> rfl
  | raise x release called => cases release <;> rfl
  | _ => rfl

end Apply

/-! ### The view of `t` -/

def calls (st : DsState Thread Conn Txn) (t : Txn) : Calls Thread Conn where
  phase := fun th => (st.pc th).phase t
  memory := (st.transactionMemory t).map TransactionContext.currentConnection
  enlisted := st.enlistedIn t
  wrapped := st.wrappedIn t

/-- No call in `t` looks its context up while another one is between its missed lookup and `enlistResource`, and
`enlistResource` of `t` returns `true`. -/
def LooksAlone (t : Txn) (st : DsState Thread Conn Txn) : DsAction Thread Conn Txn → Prop
  | .step th answer =>
    match st.pc th with
    | .lookup _ t' => t' = t → ∀ th', ¬ ((st.pc th').phase t).Enlisting
    | .enlistResource _ t' => t' = t → answer = .go
    | _ => True
  | _ => True

theorem calls_apply [DecidableEq Conn] {e : Effect Conn Txn} (he : e.Spares t) (hr : e ≠ .removeTransaction t) :
    (st.apply th e).calls t = st.calls t := by
  simp only [calls, apply_pc, enlistedIn_apply he, wrappedIn_apply he, transactionMemory_apply he hr]

theorem enlistedOnce_of_stage (h : (st.calls t).Stage) : st.EnlistedOnce t := by
  intro c hc
  cases h with
  | fresh hm he hw => exact absurd hc (by rw [show st.wrappedIn t = [] from hw]; exact List.not_mem_nil)
  | searching th hm he hw => exact absurd hc (by rw [show st.wrappedIn t = [] from hw]; exact List.not_mem_nil)
  | registering th c' hm he hw => exact absurd hc (by rw [show st.wrappedIn t = [] from hw]; exact List.not_mem_nil)
  | done c' hm he hw => rw [hw c hc]; exact he

variable [DecidableEq Thread]

theorem calls_setPc (st : DsState Thread Conn Txn) (th : Thread) (pc : Pc Conn Txn) :
    (st.setPc th pc).calls t = (st.calls t).setPhase th (pc.phase t) := by
  have hφ := Function.comp_update (Pc.phase t) st.pc th pc
  exact congrArg (fun phase => ({ st.calls t with phase := phase } : Calls Thread Conn)) hφ

theorem setPhase_same {a : Calls Thread Conn} {φ : Phase Conn} (h : a.phase th = φ) : a.setPhase th φ = a := by
  rw [Calls.setPhase, ← h, Function.update_eq_self]

/-- A thread that starts something else. -/
theorem calls_idle {pc : Pc Conn Txn} (hidle : st.pc th = .idle) (hpc : pc.phase t = .other) :
    (st.setPc th pc).calls t = st.calls t := by
  rw [calls_setPc]
  refine setPhase_same ?_
  show (st.pc th).phase t = _
  rw [hidle, hpc]
  rfl

variable [DecidableEq Conn]

/-- **Steps of the machine are steps of the view**, as long as `t` is kept. -/
theorem calls_of_step {a : DsAction Thread Conn Txn} (hk : Kept st t) (hactive : StaysActive t a)
    (hok : LooksAlone t st a) (hs : st.step a = some st') : Kept st' t ∧ (st.calls t).Step (st'.calls t) := by
  cases steps_of_step hs with
  | @setStatus t' status h =>
    refine ⟨⟨?_, hk.removing⟩, .same⟩
    by_cases ht : t = t'
    · subst ht
      simpa using hactive rfl
    · simpa [ht] using hk.active
  | getConnection h =>
    exact ⟨hk.setPc fun _ _ h => (nomatch h), by rw [calls_idle h rfl]; exact .same⟩
  | call h =>
    exact ⟨hk.setPc (callEntry_ne _ _), by rw [calls_idle h (callEntry_phase _ _)]; exact .same⟩
  | @afterCompletion th t' i s h hc =>
    have hne : t' ≠ t := fun heq => by
      have hact := hk.active
      rw [← heq, hc] at hact
      cases hact
    have hk' : Kept (st.runSynchronization t' i) t := ⟨hk.active, hk.removing⟩
    refine ⟨hk'.setPc fun c k hpc => ?_, ?_⟩
    · cases s with
      | terminateTransaction c' => cases hpc; exact hne rfl
      | closePlain c' => cases hpc
    · rw [calls_idle (show (st.runSynchronization t' i).pc th = .idle from h) (entry_phase s t')]
      exact .same
  | closeLent => exact ⟨⟨hk.active, hk.removing⟩, .same⟩
  | @step th answer pc e hinstr =>
    have hfrom := instr_effect hinstr
    have hk' : Kept (st.apply th e) t := ⟨by rw [apply_status]; exact hk.active, by rw [apply_pc]; exact hk.removing⟩
    refine ⟨hk'.setPc fun c k hpc => ?_, ?_⟩
    · subst hpc
      exact hfrom.origin hk.active
    have hr : e ≠ .removeTransaction t := by
      rintro rfl
      obtain ⟨c, k, hpc, -⟩ := hfrom
      exact hk.removing th c k hpc
    rw [calls_setPc]
    have hcall := hfrom.callStep t
    have hself : (st.calls t).phase th = (st.pc th).phase t := rfl
    generalize (st.pc th).phase t = φ at hcall hself
    generalize pc.phase t = φ' at hcall
    cases hcall with
    | same he =>
      rw [calls_apply he hr, setPhase_same hself]
      exact .same
    | @stop _ x release called =>
      have he : (Effect.raise x release called : Effect Conn Txn).Spares t := trivial
      rw [calls_apply he hr]
      refine .stop fun c hc => ?_
      obtain ⟨hpc, y, hy⟩ := raise_registering hinstr hc
      simp only [LooksAlone, hpc] at hok
      rw [hy] at hok
      cases hok trivial
    | miss hpc hnone =>
      simp only [LooksAlone, hpc] at hok
      exact .miss (hok trivial) (by simp [calls, hnone])
    | hit hpc hsome =>
      simp only [LooksAlone, hpc] at hok
      exact .hit (hok trivial) (by simp [calls, hsome])
    | @put c =>
      have hput : (st.apply th (.putTransaction t c)).calls t = { st.calls t with memory := some c } := by
        simp [calls, apply, enlistedIn, wrappedIn]
      rw [hput]
      exact .put hself
    | present hsome =>
      refine .present hself fun hnone => ?_
      simp only [calls, Option.map_eq_none_iff] at hnone
      rw [hnone] at hsome
      cases hsome
    | @enlist c =>
      have henlist : (st.apply th (.enlistResource t c)).calls t =
          { st.calls t with enlisted := (st.calls t).enlisted ++ [c] } := by
        simp [calls, apply, enlistedIn, wrappedIn]
      rw [henlist]
      exact .enlist hself
    | refused hpc =>
      simp only [LooksAlone, hpc] at hok
      rw [hpc, hok trivial] at hinstr
      cases hinstr
    | @leave c release =>
      have hleave : (st.apply th (.returnWrapper t c release)).calls t =
          { st.calls t with wrapped := (st.calls t).wrapped ++ [c] } := by
        cases release <;> simp [calls, apply, DsState.release, enlistedIn, wrappedIn]
      rw [hleave]
      exact .leave hself

/-- **One connection, enlisted once.**  While `t` is active, in every state reached by steps of which none looks up the
context of `t` beside an unfinished registration and at each of which `enlistResource` returns `true`: all wrappers
returned to calls in `t` are over one connection, and that connection was enlisted in `t` exactly once. -/
theorem enlisted_once {status : Txn → Status} {pooled : Conn → Bool} (hactive : (status t).isActive)
    (h : Runs step (fun st a => StaysActive t a ∧ LooksAlone t st a)
      (start status pooled : DsState Thread Conn Txn) st) : st.EnlistedOnce t := by
  have hinv : Kept st t ∧ (st.calls t).Stage :=
    Runs.simulation (K := fun st => Kept st t) (v := fun st => st.calls t) (J := Calls.Stage) h
      ⟨⟨hactive, fun _ _ _ h => by cases h⟩, .fresh rfl rfl rfl fun _ => rfl⟩
      (fun _ _ _ hk _ hok hs => calls_of_step hk hok.1 hok.2 hs) (fun _ _ => Calls.Stage.step)
  exact enlistedOnce_of_stage hinv.2

/-! ### Two calls in the small world -/

/-- A call registers, then another one finds its context. -/
theorem along_registers_then_hits : Along step (fun st a => StaysActive () a ∧ LooksAlone () st a) twoPooled
    (looks false .userPassword ++ registersLocking false false ++ looks true .plain ++ [.step true .go]) :=
  have quiet : ∀ {P : Prop}, P → True ∧ P := fun h => ⟨trivial, h⟩
  .cons rfl (quiet trivial) <| .cons rfl (quiet trivial) <|
    .cons rfl (quiet fun _ th' => by cases th' <;> exact id) <| .cons rfl (quiet trivial) <|
      .cons rfl (quiet trivial) <| .cons rfl (quiet trivial) <| .cons rfl (quiet trivial) <|
        .cons rfl (quiet trivial) <| .cons rfl (quiet fun _ => rfl) <| .cons rfl (quiet trivial) <|
          .cons rfl (quiet trivial) <| .cons rfl (quiet trivial) <| .cons rfl (quiet trivial) <|
            .cons rfl (quiet fun _ th' => by cases th' <;> exact id) <| .cons rfl (quiet trivial) trivial

theorem enlisted_once_two_wrappers : ∃ st : DsState Bool Bool Unit,
    st.wrappedIn () = [false, false] ∧ st.EnlistedOnce () := by
  refine ⟨_, ?_, enlisted_once rfl (Runs.of_along _ along_registers_then_hits rfl)⟩
  rfl

/-- Two calls of `getConnection()` miss and find a connection each; the first one registers, the second one returns
a wrapper over its own connection all the same. -/
def plainRace : List (DsAction Bool Bool Unit) :=
  looks false .plain ++ looks true .plain ++ [.step false (.connection false), .step false .go] ++
    [.step true (.connection true), .step true .go] ++ List.replicate 7 (.step false .go) ++
    List.replicate 3 (.step true .go)

/-- The second wrapper is over a connection that was never enlisted. -/
theorem enlisted_once_fails : ¬ ∀ st : DsState Bool Bool Unit,
    Runs step (fun _ a => StaysActive () a) twoPooled st → st.EnlistedOnce () := by
  intro h
  have hactive : Along step (fun _ a => StaysActive () a) twoPooled plainRace :=
    Along.of_forall _ _ (by simp [plainRace, looks, StaysActive])
  have hbad := h _ (Runs.of_along plainRace hactive rfl) true (List.mem_cons_of_mem _ List.mem_cons_self)
  exact absurd hbad (by decide)

end DsState

end Dynamy.Services
