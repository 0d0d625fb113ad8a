import Dynamy.Lib.Pairing
import Dynamy.Services.Transactions

/-!
# Dynamy.Services.Memories — `transactionMemory` and `connectionMemory`

`registerConnection` and `terminateTransaction` change the two maps one after the other, with plain `put` and `remove`
that look at nothing.  As long as every half finds the maps as the other half left them (`Orderly`), the maps are
inverse to each other whenever no pair is half entered or half removed (`memories_inverse`).  Two overlapping
registrations of one transaction already break that.
-/

namespace Dynamy.Services

open Dynamy.Java Dynamy.Lib

variable {Thread Conn Txn : Type}

namespace DsState

def connectionOf (st : DsState Thread Conn Txn) (t : Txn) : Option Conn :=
  (st.transactionMemory t).map TransactionContext.currentConnection

def transactionOf (st : DsState Thread Conn Txn) (c : Conn) : Option Txn :=
  (st.connectionMemory c).map TransactionContext.transaction

/-- A thread is between the two `put`s of `registerConnection(c, t)`. -/
def Entering (st : DsState Thread Conn Txn) (t : Txn) (c : Conn) : Prop := ∃ th, st.pc th = .putConnection c t

/-- A thread is between the two `remove`s of `terminateTransaction(c, t)`. -/
def Removing (st : DsState Thread Conn Txn) (t : Txn) (c : Conn) : Prop := ∃ th k, st.pc th = .removeConnection c t k

/-- No `registerConnection` and no `terminateTransaction` is half done. -/
def Settled (st : DsState Thread Conn Txn) : Prop := (∀ t c, ¬ st.Entering t c) ∧ ∀ t c, ¬ st.Removing t c

/-- The two maps are inverse to each other, and no connection belongs to two transactions. -/
structure MemoriesInverse (st : DsState Thread Conn Txn) : Prop where
  inverse : ∀ t c, st.transactionMemory t = some ⟨c, t⟩ ↔ st.connectionMemory c = some ⟨c, t⟩
  transactions : ∀ t x, st.transactionMemory t = some x → x.transaction = t
  connections : ∀ c x, st.connectionMemory c = some x → x.currentConnection = c
  oneTransaction : ∀ t t' x x', st.transactionMemory t = some x → st.transactionMemory t' = some x' →
    x.currentConnection = x'.currentConnection → t = t'

/-- Each half of `registerConnection(c, t)` and `terminateTransaction(c, t)` finds no entry of another pair in its
way, and the second half finds what the first one left. -/
def Orderly (st : DsState Thread Conn Txn) : DsAction Thread Conn Txn → Prop
  | .step th _ =>
    match st.pc th with
    | .putTransaction c t => st.transactionMemory t = none ∨ st.transactionMemory t = some ⟨c, t⟩
    | .putConnection c t => (st.connectionMemory c = none ∨ st.connectionMemory c = some ⟨c, t⟩) ∧
        st.transactionMemory t = some ⟨c, t⟩
    | .removeTransaction c t _ => st.transactionMemory t = none ∨ st.transactionMemory t = some ⟨c, t⟩
    | .removeConnection c t _ => (st.connectionMemory c = none ∨ st.connectionMemory c = some ⟨c, t⟩) ∧
        st.transactionMemory t ≠ some ⟨c, t⟩
    | _ => True
  | _ => True

/-! ### The invariant -/

structure MemInv (st : DsState Thread Conn Txn) : Prop where
  transactions : ∀ t x, st.transactionMemory t = some x → x.transaction = t
  connections : ∀ c x, st.connectionMemory c = some x → x.currentConnection = c
  linked : Linked st.connectionOf st.transactionOf st.Entering st.Removing

variable {st st' : DsState Thread Conn Txn}

theorem memInv_start (status : Txn → Status) (pooled : Conn → Bool) :
    MemInv (start status pooled : DsState Thread Conn Txn) where
  transactions := fun _ _ h => nomatch h
  connections := fun _ _ h => nomatch h
  linked := ⟨fun _ _ h => by simp [connectionOf, start] at h, fun _ _ h => by simp [transactionOf, start] at h⟩

theorem MemInv.connectionOf_eq (h : MemInv st) {t : Txn} {c : Conn} :
    st.connectionOf t = some c ↔ st.transactionMemory t = some ⟨c, t⟩ := by
  simp only [connectionOf, Option.map_eq_some_iff]
  constructor
  · rintro ⟨x, hx, rfl⟩
    rw [hx, ← h.transactions t x hx]
  · exact fun hx => ⟨_, hx, rfl⟩

theorem MemInv.transactionOf_eq (h : MemInv st) {t : Txn} {c : Conn} :
    st.transactionOf c = some t ↔ st.connectionMemory c = some ⟨c, t⟩ := by
  simp only [transactionOf, Option.map_eq_some_iff]
  constructor
  · rintro ⟨x, hx, rfl⟩
    rw [hx, ← h.connections c x hx]
  · exact fun hx => ⟨_, hx, rfl⟩

theorem MemInv.memoriesInverse (h : MemInv st) (hs : st.Settled) : st.MemoriesInverse := by
  have hinv := h.linked.inverse hs.1 hs.2
  refine ⟨fun t c => ?_, h.transactions, h.connections, fun t t' x x' hx hx' hc => ?_⟩
  · rw [← h.connectionOf_eq, ← h.transactionOf_eq, hinv]
  · have ht : st.transactionOf x.currentConnection = some t := (hinv _ _).mp (by simp [connectionOf, hx])
    have ht' : st.transactionOf x.currentConnection = some t' := (hinv _ _).mp (by simp [connectionOf, hx', hc])
    rw [ht, Option.some.injEq] at ht'
    exact ht'

/-! ### Steps -/

end DsState

/-- In the middle of a pair. -/
def Pc.halfway : Pc Conn Txn → Bool
  | .putConnection _ _ | .removeConnection _ _ _ => true
  | _ => false

/-- The effect changes one of the two maps. -/
def Effect.onMemories : Effect Conn Txn → Bool
  | .putTransaction _ _ | .putConnection _ _ | .removeTransaction _ | .removeConnection _ => true
  | _ => false

/-- Only the two second halves are done in the middle of a pair. -/
theorem EffectFrom.not_halfway {st : DsState Thread Conn Txn} {pc pc' : Pc Conn Txn} {e : Effect Conn Txn}
    (h : EffectFrom st pc pc' e) (he : e.onMemories = false) : pc.halfway = false := by
  have hwrapper : ∀ {pc : Pc Conn Txn}, pc.inWrapper → pc.halfway = false := fun {pc} hw => by
    cases pc <;> first | rfl | cases hw
  cases e with
  | skip =>
    cases (show Moves st pc pc' from h) with
    | wrapper hw => exact hwrapper hw
    | _ => rfl
  | acquire t => rcases h with ⟨rfl, -⟩ | ⟨c, rfl, -⟩ <;> rfl
  | checkout c =>
    obtain ⟨-, p, conn1, rfl, -⟩ := h
    rfl
  | plainCall c call =>
    rcases h with ⟨p, conn, rfl, -⟩ | ⟨w, wrapper, rfl, -⟩ | ⟨rfl, -⟩ <;> rfl
  | enlistResource t c =>
    obtain ⟨rfl, -⟩ := h
    rfl
  | registerSynchronization t s =>
    rcases h with ⟨c, rfl, -⟩ | ⟨hw, -⟩
    · rfl
    · exact hwrapper hw
  | setClosed w => exact hwrapper h.1
  | returnWrapper t c release => rcases h.1 with rfl | rfl <;> rfl
  | returnPlain c =>
    obtain ⟨rfl, -⟩ := h
    rfl
  | raise x release called =>
    rcases h.1 with hr | hw | ⟨p, c, rfl⟩
    · cases pc <;> first | rfl | cases hr
    · exact hwrapper hw
    · rfl
  | putTransaction t c => cases he
  | putConnection t c => cases he
  | removeTransaction t => cases he
  | removeConnection c => cases he

namespace DsState

variable {st st' : DsState Thread Conn Txn} {th : Thread}

/-- The invariant is about the maps and the points of the threads. -/
theorem MemInv.congr (h : MemInv st) (ht : st'.transactionMemory = st.transactionMemory)
    (hc : st'.connectionMemory = st.connectionMemory) (hp : st'.pc = st.pc) : MemInv st' := by
  refine ⟨by rw [ht]; exact h.transactions, by rw [hc]; exact h.connections, ?_⟩
  have hf : st'.connectionOf = st.connectionOf := by unfold connectionOf; rw [ht]
  have hg : st'.transactionOf = st.transactionOf := by unfold transactionOf; rw [hc]
  have ho : st'.Entering = st.Entering := by unfold Entering; rw [hp]
  have hr : st'.Removing = st.Removing := by unfold Removing; rw [hp]
  rw [hf, hg, ho, hr]
  exact h.linked

theorem MemInv.apply_frame [DecidableEq Conn] [DecidableEq Txn] (h : MemInv st) {e : Effect Conn Txn}
    (he : e.onMemories = false) : MemInv (st.apply th e) := by
  cases e with
  | putTransaction t c => cases he
  | putConnection t c => cases he
  | removeTransaction t => cases he
  | removeConnection c => cases he
  | returnWrapper t c release => cases release <;> exact h.congr rfl rfl rfl
  | raise x release called => cases release <;> exact h.congr rfl rfl rfl
  | _ => exact h.congr rfl rfl rfl

theorem connectionOf_put [DecidableEq Txn] (st : DsState Thread Conn Txn) (t : Txn)
    (x : Option (TransactionContext Conn Txn)) :
    connectionOf { st with transactionMemory := Function.update st.transactionMemory t x } =
      Function.update st.connectionOf t (x.map TransactionContext.currentConnection) := by
  funext t'
  by_cases ht : t' = t
  · subst ht
    simp [connectionOf]
  · simp [connectionOf, ht]

theorem transactionOf_put [DecidableEq Conn] (st : DsState Thread Conn Txn) (c : Conn)
    (x : Option (TransactionContext Conn Txn)) :
    transactionOf { st with connectionMemory := Function.update st.connectionMemory c x } =
      Function.update st.transactionOf c (x.map TransactionContext.transaction) := by
  funext c'
  by_cases hc : c' = c
  · subst hc
    simp [transactionOf]
  · simp [transactionOf, hc]

/-- First half of `registerConnection(c, t)`. -/
theorem MemInv.putTransaction [DecidableEq Txn] (h : MemInv st) {c : Conn} {t : Txn}
    (ht : st.transactionMemory t = none ∨ st.transactionMemory t = some ⟨c, t⟩) (ho : st.Entering t c) :
    MemInv { st with transactionMemory := Function.update st.transactionMemory t (some ⟨c, t⟩) } := by
  refine ⟨fun t' x hx => ?_, h.connections, ?_⟩
  · by_cases ht' : t' = t
    · subst ht'
      obtain rfl : TransactionContext.mk c t' = x := by simpa using hx
      rfl
    · exact h.transactions t' x (by simpa [ht'] using hx)
  · rw [connectionOf_put]
    exact h.linked.putFwd (ht.imp (fun hn => by simp [connectionOf, hn]) h.connectionOf_eq.mpr) ho

/-- First half of `terminateTransaction(c, t)`. -/
theorem MemInv.removeTransaction [DecidableEq Txn] (h : MemInv st) {c : Conn} {t : Txn}
    (ht : st.transactionMemory t = none ∨ st.transactionMemory t = some ⟨c, t⟩) (hc : st.Removing t c) :
    MemInv { st with transactionMemory := Function.update st.transactionMemory t none } := by
  refine ⟨fun t' x hx => ?_, h.connections, ?_⟩
  · by_cases ht : t' = t
    · simp [ht] at hx
    · exact h.transactions t' x (by simpa [ht] using hx)
  · rw [connectionOf_put]
    exact h.linked.removeFwd (ht.imp (fun hn => by simp [connectionOf, hn]) h.connectionOf_eq.mpr) hc

variable [DecidableEq Thread]

theorem Entering.setPc {t : Txn} {c : Conn} (h : st.Entering t c) (hpc : st.pc th ≠ .putConnection c t)
    (pc : Pc Conn Txn) : (st.setPc th pc).Entering t c := by
  obtain ⟨th', hth'⟩ := h
  have hne : th' ≠ th := fun he => hpc (he ▸ hth')
  exact ⟨th', by simp [DsState.setPc, hne, hth']⟩

theorem Removing.setPc {t : Txn} {c : Conn} (h : st.Removing t c) (hpc : ∀ k, st.pc th ≠ .removeConnection c t k)
    (pc : Pc Conn Txn) : (st.setPc th pc).Removing t c := by
  obtain ⟨th', k, hth'⟩ := h
  have hne : th' ≠ th := fun he => hpc k (he ▸ hth')
  exact ⟨th', k, by simp [DsState.setPc, hne, hth']⟩

/-- A thread that is not in the middle of a pair may go anywhere. -/
theorem MemInv.setPc (h : MemInv st) (hpc : (st.pc th).halfway = false) (pc : Pc Conn Txn) :
    MemInv (st.setPc th pc) := by
  refine ⟨h.transactions, h.connections, h.linked.mono (fun t c ho => ho.setPc ?_ pc) fun t c hc => hc.setPc ?_ pc⟩
  · intro he
    rw [he] at hpc
    cases hpc
  · intro k he
    rw [he] at hpc
    cases hpc

/-- Second half of `registerConnection(c, t)`. -/
theorem MemInv.putConnection [DecidableEq Conn] (h : MemInv st) {c : Conn} {t : Txn}
    (hpc : st.pc th = .putConnection c t) (ht : st.transactionMemory t = some ⟨c, t⟩)
    (hc : st.connectionMemory c = none ∨ st.connectionMemory c = some ⟨c, t⟩) (pc : Pc Conn Txn) :
    MemInv ({ st with connectionMemory := Function.update st.connectionMemory c (some ⟨c, t⟩) }.setPc th pc) := by
  refine ⟨h.transactions, fun c' x hx => ?_, ?_⟩
  · by_cases hc' : c' = c
    · subst hc'
      obtain rfl : TransactionContext.mk c' t = x := by simpa [DsState.setPc] using hx
      rfl
    · exact h.connections c' x (by simpa [DsState.setPc, hc'] using hx)
  · have hopening : ∀ t' c', st.Entering t' c' → (t' = t ∧ c' = c) ∨ (st.setPc th pc).Entering t' c' := by
      intro t' c' ho
      by_cases he : t' = t ∧ c' = c
      · exact .inl he
      · exact .inr (ho.setPc (fun heq => he (by rw [hpc] at heq; cases heq; exact ⟨rfl, rfl⟩)) pc)
    have hput := h.linked.putBwd (h.connectionOf_eq.mpr ht)
      (hc.imp (fun hn => by simp [transactionOf, hn]) h.transactionOf_eq.mpr) hopening
    have hsame := transactionOf_put st c (some ⟨c, t⟩)
    exact hsame ▸ hput.mono (fun _ _ ho => ho) fun _ _ hr => hr.setPc (fun k he => by rw [hpc] at he; cases he) pc

/-- Second half of `terminateTransaction(c, t)`. -/
theorem MemInv.removeConnection [DecidableEq Conn] (h : MemInv st) {c : Conn} {t : Txn} {k : AfterTerminate Txn}
    (hpc : st.pc th = .removeConnection c t k) (ht : st.transactionMemory t ≠ some ⟨c, t⟩)
    (hc : st.connectionMemory c = none ∨ st.connectionMemory c = some ⟨c, t⟩) (pc : Pc Conn Txn) :
    MemInv ({ st with connectionMemory := Function.update st.connectionMemory c none }.setPc th pc) := by
  refine ⟨h.transactions, fun c' x hx => ?_, ?_⟩
  · by_cases hc' : c' = c
    · simp [DsState.setPc, hc'] at hx
    · exact h.connections c' x (by simpa [DsState.setPc, hc'] using hx)
  · have hclosing : ∀ t' c', st.Removing t' c' → (t' = t ∧ c' = c) ∨ (st.setPc th pc).Removing t' c' := by
      intro t' c' hr
      by_cases he : t' = t ∧ c' = c
      · exact .inl he
      · exact .inr (hr.setPc (fun k heq => he (by rw [hpc] at heq; cases heq; exact ⟨rfl, rfl⟩)) pc)
    have hremove := h.linked.removeBwd (mt h.connectionOf_eq.mp ht)
      (hc.imp (fun hn => by simp [transactionOf, hn]) h.transactionOf_eq.mpr) hclosing
    have hsame := transactionOf_put st c none
    exact hsame ▸ hremove.mono (fun _ _ ho => ho.setPc (fun he => by rw [hpc] at he; cases he) pc) fun _ _ hr => hr

variable [DecidableEq Conn] [DecidableEq Txn]

/-- **One orderly step** keeps the invariant. -/
theorem MemInv.step (h : MemInv st) {a : DsAction Thread Conn Txn} (hok : st.Orderly a) (hs : st.step a = some st') :
    MemInv st' := by
  cases steps_of_step hs with
  | setStatus => exact h.congr rfl rfl rfl
  | getConnection hpc => exact h.setPc (by rw [hpc]; rfl) _
  | call hpc => exact h.setPc (by rw [hpc]; rfl) _
  | @afterCompletion th t i s hpc =>
    have h' : MemInv (st.runSynchronization t i) := h.congr rfl rfl rfl
    exact h'.setPc ((congrArg Pc.halfway hpc).trans rfl) _
  | closeLent => exact h.congr rfl rfl rfl
  | @step th answer pc e hinstr =>
    have hfrom := instr_effect hinstr
    by_cases he : e.onMemories
    · cases e with
      | putTransaction t c =>
        obtain ⟨hpc, rfl⟩ := hfrom
        simp only [Orderly, hpc] at hok
        exact (h.setPc (by rw [hpc]; rfl) (.putConnection c t)).putTransaction hok
          ⟨th, by simp [DsState.setPc]⟩
      | putConnection t c =>
        obtain ⟨hpc, rfl⟩ := hfrom
        simp only [Orderly, hpc] at hok
        exact h.putConnection hpc hok.2 hok.1 _
      | removeTransaction t =>
        obtain ⟨c, k, hpc, rfl⟩ := hfrom
        simp only [Orderly, hpc] at hok
        exact (h.setPc (by rw [hpc]; rfl) (.removeConnection c t k)).removeTransaction hok
          ⟨th, k, by simp [DsState.setPc]⟩
      | removeConnection c =>
        obtain ⟨t, k, hpc, rfl⟩ := hfrom
        simp only [Orderly, hpc] at hok
        exact h.removeConnection hpc hok.2 hok.1 _
      | _ => cases he
    · rw [Bool.not_eq_true] at he
      refine (h.apply_frame he).setPc ?_ pc
      rw [apply_pc]
      exact hfrom.not_halfway he

/-- **The memories.**  In every state that orderly steps reach, if no registration and no termination is half done,
the two maps are inverse to each other. -/
theorem memories_inverse {status : Txn → Status} {pooled : Conn → Bool}
    (h : Runs step Orderly (start status pooled : DsState Thread Conn Txn) st) (hs : st.Settled) :
    st.MemoriesInverse :=
  (Runs.invariant (memInv_start status pooled) (fun _ _ _ hI hok hstep => hI.step hok hstep) h).memoriesInverse hs

/-! ### Two overlapping registrations -/

/-- One call alone is orderly. -/
theorem along_registersLocking :
    Along step Orderly twoPooled (looks false .userPassword ++ registersLocking false false) :=
  .cons rfl trivial <| .cons rfl trivial <| .cons rfl trivial <| .cons rfl trivial <| .cons rfl trivial <|
    .cons rfl trivial <| .cons rfl (.inl rfl) <| .cons rfl ⟨.inl rfl, rfl⟩ <| .cons rfl trivial <| .cons rfl trivial <|
      .cons rfl trivial trivial

theorem memories_inverse_registered : ∃ st : DsState Bool Bool Unit,
    st.transactionMemory () = some ⟨false, ()⟩ ∧ st.MemoriesInverse := by
  refine ⟨_, ?_, memories_inverse (Runs.of_along _ along_registersLocking rfl) ⟨fun t c h => ?_, fun t c h => ?_⟩⟩
  · rfl
  · obtain ⟨th, hth⟩ := h
    cases th <;> cases hth
  · obtain ⟨th, k, hth⟩ := h
    cases th <;> cases hth

/-- Two calls of `getConnection(username, password)` miss, then both register. -/
def lockingRace : List (DsAction Bool Bool Unit) :=
  looks false .userPassword ++ looks true .userPassword ++ registersLocking false false ++ registersLocking true true

/-- The second registration leaves the first connection behind in `connectionMemory`. -/
theorem memories_not_inverse :
    ¬ ∀ st : DsState Bool Bool Unit, Reaches step twoPooled st → (∀ th, st.pc th = .idle) → st.MemoriesInverse := by
  intro h
  obtain ⟨st, hreach, hview⟩ : ∃ st : DsState Bool Bool Unit, Reaches step twoPooled st ∧
      (st.pc false, st.pc true, st.transactionMemory (), st.connectionMemory false) =
        (.idle, .idle, some ⟨true, ()⟩, some ⟨false, ()⟩) :=
    Runs.of_exec_map lockingRace rfl
  simp only [Prod.mk.injEq] at hview
  obtain ⟨hidle₀, hidle₁, ht, hc⟩ := hview
  have hinv := h st hreach fun th => by cases th <;> assumption
  have hback := (hinv.inverse () false).mpr hc
  rw [ht] at hback
  cases hback

end DsState

end Dynamy.Services
