import Dynamy.Services.ClosedOnce
import Dynamy.Services.Memories

/-!
# Dynamy.Services.OneAtATime — what keeps the memories orderly

`Orderly` is about the puts and removes of the code.  They are orderly when calls of `getConnection` and callbacks that
terminate a transaction come one at a time, no transaction changes its status during a call in it or becomes active
again, and the pool does not hand out a connection that a callback is still to take from a transaction
(`orderly_of_oneAtATime`).

With one thread at the memories, what it has seen stays so (`At`); between the calls, what a callback is to remove is
either registered or gone (`Awaits`).
-/

namespace Dynamy.Services

open Dynamy.Java Dynamy.Lib

variable {Thread Conn Txn : Type}

/-- In a call of `getConnection`, or in `terminateTransaction`. -/
def Pc.atMemories : Pc Conn Txn → Bool
  | .idle | .closePlain _ => false
  | pc => pc.inCall.isNone

theorem inCall_of_atMemories {pc : Pc Conn Txn} (h : pc.atMemories) : pc.inCall = none := by
  cases pc <;> first | rfl | cases h

namespace DsState

/-- No callback is still to take `c` from a transaction. -/
def Fresh (st : DsState Thread Conn Txn) (c : Conn) : Prop := ∀ t, .terminateTransaction c ∉ st.synchronizations t

/-- What is asked of the callers, the transactions, the transaction manager and the pool. -/
def OneAtATime (st : DsState Thread Conn Txn) : DsAction Thread Conn Txn → Prop
  | .setStatus t status => (∀ th, (st.pc th).within ≠ some t) ∧ (status.isActive → (st.status t).isActive)
  | .getConnection _ _ _ => ∀ th, (st.pc th).atMemories = false
  | .afterCompletion _ t i => ∀ c, (st.synchronizations t)[i]? = some (.terminateTransaction c) →
      ∀ th, (st.pc th).atMemories = false
  | .step _ (.connection c) => st.Fresh c
  | _ => True

/-! ### The invariant -/

/-- The transaction of the search is active and has no connection. -/
def Missed (st : DsState Thread Conn Txn) (p : Purpose Txn) : Prop :=
  ∀ t, p.transaction = some t → st.transactionMemory t = none ∧ (st.status t).isActive

/-- `c` is registered with `t`, or with nobody. -/
def HasOrGone (st : DsState Thread Conn Txn) (t : Txn) (c : Conn) : Prop :=
  st.connectionMemory c = none ∨ st.connectionMemory c = some ⟨c, t⟩

/-- What a thread at this point has seen. -/
def At (st : DsState Thread Conn Txn) : Pc Conn Txn → Prop
  | .lookup _ t => (st.status t).isActive
  | .enter t => st.transactionMemory t = none ∧ (st.status t).isActive
  | .checkout p _ => st.Missed p
  | .swap p _ c | .containsKey p c | .owner p c => st.Missed p ∧ st.Fresh c
  | .isActive p c t => st.Missed p ∧ st.Fresh c ∧ st.connectionMemory c = some ⟨c, t⟩
  | .removeTransaction c t (.free p) =>
    st.Missed p ∧ st.Fresh c ∧ st.connectionMemory c = some ⟨c, t⟩ ∧ ¬ (st.status t).isActive
  | .removeConnection c t (.free p) =>
    st.Missed p ∧ st.Fresh c ∧ st.connectionMemory c = some ⟨c, t⟩ ∧ st.transactionMemory t = none
  | .removeTransaction c t .callback => st.status t = .completed ∧ st.HasOrGone t c ∧
      (st.transactionMemory t = none ∨ st.transactionMemory t = some ⟨c, t⟩)
  | .removeConnection c t .callback => st.HasOrGone t c ∧ st.transactionMemory t = none
  | .acquire c t | .recheck c t | .putTransaction c t =>
    st.transactionMemory t = none ∧ (st.status t).isActive ∧ st.Fresh c ∧ st.connectionMemory c = none
  | .putConnection c t => st.transactionMemory t = some ⟨c, t⟩ ∧ st.Fresh c ∧ st.connectionMemory c = none
  | .enlistResource c t | .synchronize c t =>
    st.transactionMemory t = some ⟨c, t⟩ ∧ st.connectionMemory c = some ⟨c, t⟩
  | _ => True

/-- A callback is to take `c` from `t`. -/
structure Awaits (st : DsState Thread Conn Txn) (t : Txn) (c : Conn) : Prop where
  connection : st.HasOrGone t c
  transaction : st.transactionMemory t = none ∨ st.transactionMemory t = some ⟨c, t⟩
  active : (st.status t).isActive → st.transactionMemory t = some ⟨c, t⟩

structure SerialInv (st : DsState Thread Conn Txn) : Prop where
  calls : st.CallsExist
  memories : st.MemInv
  alone : ∀ th th', (st.pc th).atMemories → (st.pc th').atMemories → th = th'
  seen : ∀ th, st.At (st.pc th)
  awaited : ∀ t c, .terminateTransaction c ∈ st.synchronizations t → st.Awaits t c

variable {st st' : DsState Thread Conn Txn} {th : Thread} {c : Conn} {t : Txn} {a : DsAction Thread Conn Txn}
  {answer : Answer Conn} {pc pc' : Pc Conn Txn} {e : Effect Conn Txn}

theorem at_of_elsewhere (h : pc.atMemories = false) : st.At pc := by
  cases pc <;> trivial

theorem SerialInv.settled (h : st.SerialInv) (hpc : (st.pc th).halfway = false) (hth : (st.pc th).atMemories) :
    st.Settled := by
  have hnobody : ∀ th' pc, st.pc th' = pc → pc.atMemories → pc.halfway = false := by
    rintro th' pc rfl hth'
    rw [h.alone th' th hth' hth]
    exact hpc
  refine ⟨fun t c ⟨th', hth'⟩ => ?_, fun t c ⟨th', k, hth'⟩ => ?_⟩
  · cases hnobody th' _ hth' rfl
  · cases hnobody th' _ hth' rfl

/-- A search removes a connection from the transaction that it is registered with. -/
theorem SerialInv.registered (h : st.SerialInv) (hpc : (st.pc th).halfway = false) (hth : (st.pc th).atMemories)
    (hc : st.connectionMemory c = some ⟨c, t⟩) : st.transactionMemory t = some ⟨c, t⟩ :=
  ((h.memories.memoriesInverse (h.settled hpc hth)).inverse t c).mpr hc

/-- **Puts and removes** are orderly. -/
theorem SerialInv.orderly (h : st.SerialInv) : st.Orderly a := by
  cases a with
  | step th answer =>
    have hseen := h.seen th
    cases hpc : st.pc th with
    | putTransaction c t =>
      rw [hpc] at hseen
      simp only [Orderly, hpc]
      exact .inl hseen.1
    | putConnection c t =>
      rw [hpc] at hseen
      simp only [Orderly, hpc]
      exact ⟨.inl hseen.2.2, hseen.1⟩
    | removeTransaction c t k =>
      rw [hpc] at hseen
      simp only [Orderly, hpc]
      cases k with
      | free p => exact .inr (h.registered (by rw [hpc]; rfl) (by rw [hpc]; rfl) hseen.2.2.1)
      | callback => exact hseen.2.2
    | removeConnection c t k =>
      rw [hpc] at hseen
      simp only [Orderly, hpc]
      cases k with
      | free p => exact ⟨.inr hseen.2.2.1, by simp [hseen.2.2.2]⟩
      | callback => exact ⟨hseen.1, by simp [hseen.2]⟩
    | _ => simp only [Orderly, hpc]
  | _ => trivial

/-! ### Steps -/

theorem Awaits.congr (h : st.Awaits t c) (ht : st'.transactionMemory = st.transactionMemory)
    (hc : st'.connectionMemory = st.connectionMemory) (hstatus : st'.status = st.status) : st'.Awaits t c := by
  refine ⟨?_, ht ▸ h.transaction, ?_⟩
  · rw [HasOrGone, hc]
    exact h.connection
  · rw [ht, hstatus]
    exact h.active

/-- What a thread has seen stays so in a step that is not at the memories and moves no call out of its transaction. -/
theorem At.mono (h : st.At pc) (ht : st'.transactionMemory = st.transactionMemory)
    (hc : st'.connectionMemory = st.connectionMemory)
    (hactive : ∀ t, pc.within = some t → (st.status t).isActive → (st'.status t).isActive)
    (hinactive : ∀ t, (st'.status t).isActive → (st.status t).isActive)
    (hcompleted : ∀ t, st.status t = .completed → st'.status t = .completed)
    (hcallbacks : ∀ t c, .terminateTransaction c ∈ st'.synchronizations t →
      .terminateTransaction c ∈ st.synchronizations t) : st'.At pc := by
  have hmissed : ∀ {p : Purpose Txn}, pc.within = p.transaction → st.Missed p → st'.Missed p := fun hp h t htp =>
    ⟨(congrFun ht t).trans (h t htp).1, hactive t (hp.trans htp) (h t htp).2⟩
  have hfresh : ∀ {c}, st.Fresh c → st'.Fresh c := fun h t hmem => h t (hcallbacks t _ hmem)
  have hgone : ∀ {t c}, st.HasOrGone t c → st'.HasOrGone t c := fun {t c} h => by rwa [HasOrGone, hc]
  cases pc with
  | lookup o t => exact hactive t rfl h
  | enter t => exact ⟨(congrFun ht t).trans h.1, hactive t rfl h.2⟩
  | checkout => exact hmissed rfl h
  | swap | containsKey | owner => exact ⟨hmissed rfl h.1, hfresh h.2⟩
  | isActive p c t => exact ⟨hmissed rfl h.1, hfresh h.2.1, (congrFun hc c).trans h.2.2⟩
  | removeTransaction c t k =>
    cases k with
    | free p =>
      exact ⟨hmissed rfl h.1, hfresh h.2.1, (congrFun hc c).trans h.2.2.1, fun hactive' => h.2.2.2 (hinactive t hactive')⟩
    | callback =>
      refine ⟨hcompleted t h.1, hgone h.2.1, ?_⟩
      rw [ht]
      exact h.2.2
  | removeConnection c t k =>
    cases k with
    | free p => exact ⟨hmissed rfl h.1, hfresh h.2.1, (congrFun hc c).trans h.2.2.1, (congrFun ht t).trans h.2.2.2⟩
    | callback => exact ⟨hgone h.1, (congrFun ht t).trans h.2⟩
  | acquire c t | recheck c t | putTransaction c t =>
    exact ⟨(congrFun ht t).trans h.1, hactive t rfl h.2.1, hfresh h.2.2.1, (congrFun hc c).trans h.2.2.2⟩
  | putConnection c t => exact ⟨(congrFun ht t).trans h.1, hfresh h.2.1, (congrFun hc c).trans h.2.2⟩
  | enlistResource c t | synchronize c t => exact ⟨(congrFun ht t).trans h.1, (congrFun hc c).trans h.2⟩
  | _ => trivial

theorem at_found {p : Purpose Txn} (hmissed : st.Missed p) (hfresh : st.Fresh c) (hc : st.connectionMemory c = none) :
    st.At (p.found c) := by
  cases p with
  | outside => trivial
  | inside o t =>
    obtain ⟨ht, hactive⟩ := hmissed t rfl
    cases o <;> exact ⟨ht, hactive, hfresh, hc⟩

section

variable [DecidableEq Conn] [DecidableEq Txn]

/-- **One step at the memories**: what the thread has seen from then on. -/
theorem SerialInv.seen_step (h : st.SerialInv) (hstep : OwnStep st (st.pc th) answer pc' e)
    (hfresh : ∀ c, answer = .connection c → st.Fresh c) : (st.apply th e).At pc' := by
  have hseen := h.seen th
  generalize st.pc th = pc at hstep hseen
  cases hstep with
  | outside => exact nofun
  | current hactive => exact hactive
  | missed hnone => exact fun t ht => by cases ht; exact ⟨hnone, hseen⟩
  | missedLocking hnone => exact ⟨hnone, hseen⟩
  | enters => exact fun t ht => by cases ht; exact hseen
  | @takes p conn1 c hpool =>
    cases conn1 <;> exact ⟨hseen, hfresh c rfl⟩
  | swaps => exact hseen
  | registered => exact hseen
  | unregistered hnone => exact at_found hseen.1 hseen.2 (Option.not_isSome_iff_eq_none.mp hnone)
  | @owner p c context hcontext =>
    refine ⟨hseen.1, hseen.2, hcontext.trans ?_⟩
    rw [← h.memories.connections c context hcontext]
  | busy => exact hseen.1
  | stale hstale => exact ⟨hseen.1, hseen.2.1, hseen.2.2, hstale⟩
  | @removesTransaction c t k =>
    cases k with
    | free p =>
      refine ⟨fun t' ht' => ⟨?_, (hseen.1 t' ht').2⟩, hseen.2.1, hseen.2.2.1, Function.update_self ..⟩
      show Function.update st.transactionMemory t none t' = none
      by_cases heq : t' = t
      · rw [heq, Function.update_self]
      · rw [Function.update_of_ne heq]
        exact (hseen.1 t' ht').1
    | callback => exact ⟨hseen.2.1, Function.update_self ..⟩
  | @removesConnection c t k =>
    cases k with
    | free p =>
      have hnone : (st.apply th (.removeConnection c)).connectionMemory c = none := Function.update_self ..
      exact at_found hseen.1 hseen.2.1 hnone
    | callback => trivial
  | acquires => exact hseen
  | absent => exact hseen
  | putsTransaction => exact ⟨Function.update_self .., hseen.2.2⟩
  | putsConnection => exact ⟨hseen.1, Function.update_self ..⟩
  | enlists => exact hseen
  | refused => exact hseen
  | _ => trivial

theorem SerialInv.awaited_step (h : st.SerialInv) (hstep : OwnStep st (st.pc th) answer pc' e) {t : Txn} {c : Conn}
    (hmem : .terminateTransaction c ∈ (st.apply th e).synchronizations t) : (st.apply th e).Awaits t c := by
  have hseen := h.seen th
  generalize st.pc th = pc at hstep hseen
  cases hstep with
  | @removesTransaction c' t' k =>
    have hold := h.awaited t c hmem
    by_cases ht : t = t'
    · subst ht
      refine ⟨hold.connection, .inl (Function.update_self ..), fun hactive => ?_⟩
      cases k with
      | free p => exact absurd hactive hseen.2.2.2
      | callback =>
        have hactive : (st.status t).isActive := hactive
        rw [hseen.1] at hactive
        cases hactive
    · have hsame : (st.apply th (.removeTransaction t')).transactionMemory t = st.transactionMemory t :=
        Function.update_of_ne ht ..
      exact ⟨hold.connection, hsame ▸ hold.transaction, fun hactive => hsame.trans (hold.active hactive)⟩
  | @removesConnection c' t' k =>
    have hold := h.awaited t c hmem
    refine ⟨?_, hold.transaction, hold.active⟩
    by_cases hc : c = c'
    · subst hc
      exact .inl (Function.update_self ..)
    · have hsame : (st.apply th (.removeConnection c')).connectionMemory c = st.connectionMemory c :=
        Function.update_of_ne hc ..
      exact hold.connection.imp hsame.trans hsame.trans
  | @putsTransaction c' t' =>
    have hold := h.awaited t c hmem
    have ht : t ≠ t' := by
      rintro rfl
      cases (hold.active hseen.2.1).symm.trans hseen.1
    have hsame : (st.apply th (.putTransaction t' c')).transactionMemory t = st.transactionMemory t :=
      Function.update_of_ne ht ..
    exact ⟨hold.connection, hsame ▸ hold.transaction, fun hactive => hsame.trans (hold.active hactive)⟩
  | @putsConnection c' t' =>
    have hold := h.awaited t c hmem
    have hc : c ≠ c' := by
      rintro rfl
      exact hseen.2.1 t hmem
    have hsame : (st.apply th (.putConnection t' c')).connectionMemory c = st.connectionMemory c :=
      Function.update_of_ne hc ..
    exact ⟨hold.connection.imp hsame.trans hsame.trans, hold.transaction, hold.active⟩
  | @synchronizes c' t' =>
    by_cases hold : .terminateTransaction c ∈ st.synchronizations t
    · exact (h.awaited t c hold).congr rfl rfl rfl
    · have hmem : .terminateTransaction c ∈ Function.update st.synchronizations t' _ t := hmem
      by_cases ht : t = t'
      · subst ht
        rw [Function.update_self, List.mem_append, or_iff_right hold, List.mem_singleton] at hmem
        cases hmem
        exact ⟨.inr hseen.2, .inr hseen.1, fun _ => hseen.1⟩
      · rw [Function.update_of_ne ht] at hmem
        exact absurd hmem hold
  | raises =>
    cases hrelease : pc.release <;> rw [hrelease] at hmem <;> exact (h.awaited t c hmem).congr rfl rfl rfl
  | @vanished p =>
    cases hrelease : p.monitor <;> rw [hrelease] at hmem <;> exact (h.awaited t c hmem).congr rfl rfl rfl
  | _ => exact (h.awaited t c hmem).congr rfl rfl rfl

variable [DecidableEq Thread]

omit [DecidableEq Conn] [DecidableEq Txn] in
/-- A thread moves on where nobody else is at the memories, or away from them. -/
theorem alone_setPc (h : ∀ th th', (st.pc th).atMemories → (st.pc th').atMemories → th = th')
    (hpc : pc.atMemories → (st.pc th).atMemories ∨ ∀ th', (st.pc th').atMemories = false) :
    ∀ th₁ th₂, ((st.setPc th pc).pc th₁).atMemories → ((st.setPc th pc).pc th₂).atMemories → th₁ = th₂ := by
  have hself : ∀ th', th' ≠ th → ((st.setPc th pc).pc th').atMemories → ((st.setPc th pc).pc th).atMemories → False := by
    intro th' hne hth' hth
    rw [setPc_of_ne hne] at hth'
    rw [setPc_self] at hth
    rcases hpc hth with hbefore | hnobody
    · exact hne (h th' th hth' hbefore)
    · rw [hnobody th'] at hth'
      cases hth'
  intro th₁ th₂ h₁ h₂
  by_cases hth₁ : th₁ = th
  · by_cases hth₂ : th₂ = th
    · rw [hth₁, hth₂]
    · exact (hself th₂ hth₂ h₂ (hth₁ ▸ h₁)).elim
  · by_cases hth₂ : th₂ = th
    · exact (hself th₁ hth₁ h₁ (hth₂ ▸ h₂)).elim
    · rw [setPc_of_ne hth₁] at h₁
      rw [setPc_of_ne hth₂] at h₂
      exact h th₁ th₂ h₁ h₂

omit [DecidableEq Conn] [DecidableEq Txn] in
/-- A thread starts something. -/
theorem SerialInv.start (h : st.SerialInv) (hs : (st.setPc th pc).CallsExist) (hm : (st.setPc th pc).MemInv)
    (hpc : pc.atMemories → ∀ th', (st.pc th').atMemories = false) (hat : st.At pc) : (st.setPc th pc).SerialInv where
  calls := hs
  memories := hm
  alone := alone_setPc h.alone fun hth => .inr (hpc hth)
  seen th' := by
    by_cases hth : th' = th
    · subst hth
      rw [setPc_self]
      exact hat
    · rw [setPc_of_ne hth]
      exact h.seen th'
  awaited t c hmem := (h.awaited t c hmem).congr rfl rfl rfl

omit [DecidableEq Thread] in
/-- Away from the memories, a step changes nothing there. -/
theorem SerialInv.elsewhere_step (h : st.SerialInv) (hinstr : st.instr (st.pc th) answer = some (pc', e))
    (hat : (st.pc th).atMemories = false) : (st.apply th e).transactionMemory = st.transactionMemory ∧
      (st.apply th e).connectionMemory = st.connectionMemory ∧
      (∀ t c, .terminateTransaction c ∈ (st.apply th e).synchronizations t →
        .terminateTransaction c ∈ st.synchronizations t) ∧ pc'.atMemories = false := by
  rcases h.calls.cases hinstr with hown | ⟨w, call, wrapper, hin, -, hwrapper⟩
  · generalize st.pc th = pc at hown hat
    cases hown with
    | closesPlain => exact ⟨rfl, rfl, fun _ _ hmem => hmem, rfl⟩
    | raises hraise =>
      have hrelease : pc.release = none := by cases pc <;> first | rfl | cases hat
      rw [hrelease]
      exact ⟨rfl, rfl, fun _ _ hmem => hmem, rfl⟩
    | _ => cases hat
  · obtain ⟨hc, ht, -⟩ := hwrapper.frame th
    have hnext : pc'.atMemories = false := by
      rcases hwrapper.inCall with hsame | rfl
      · have hin' := hsame.trans hin
        cases pc' <;> first | rfl | cases hin'
      · rfl
    refine ⟨ht, hc, ?_, hnext⟩
    generalize st.pc th = pc at hwrapper
    cases hwrapper with
    | @schedules t =>
      intro t' c' hmem
      have hmem : .terminateTransaction c' ∈ Function.update st.synchronizations t _ t' := hmem
      by_cases ht' : t' = t
      · subst ht'
        rw [Function.update_self, List.mem_append, List.mem_singleton] at hmem
        exact hmem.resolve_right nofun
      · rwa [Function.update_of_ne ht'] at hmem
    | _ => exact fun _ _ hmem => hmem

omit [DecidableEq Thread] [DecidableEq Conn] [DecidableEq Txn] in
/-- The memories, the threads and the statuses are as before, and no callback has come. -/
theorem SerialInv.congr (h : st.SerialInv) (hcalls : st'.CallsExist)
    (ht : st'.transactionMemory = st.transactionMemory) (hc : st'.connectionMemory = st.connectionMemory)
    (hpc : st'.pc = st.pc) (hstatus : st'.status = st.status)
    (hback : ∀ t c, .terminateTransaction c ∈ st'.synchronizations t → .terminateTransaction c ∈ st.synchronizations t) :
    st'.SerialInv where
  calls := hcalls
  memories := h.memories.congr ht hc hpc
  alone := by
    rw [hpc]
    exact h.alone
  seen th := by
    rw [hpc]
    exact (h.seen th).mono ht hc (fun t _ hactive => hstatus ▸ hactive) (fun t hactive => hstatus ▸ hactive)
      (fun t hcompleted => hstatus ▸ hcompleted) hback
  awaited t c hmem := (h.awaited t c (hback t c hmem)).congr ht hc hstatus

theorem SerialInv.step (h : st.SerialInv) (hok : st.OneAtATime a) (hs : st.step a = some st') : st'.SerialInv := by
  have hcalls := h.calls.step hs
  have hmemories := h.memories.step h.orderly hs
  cases steps_of_step hs with
  | @setStatus t status hstatus =>
    have hsame : ∀ t', t' ≠ t → Function.update st.status t status t' = st.status t' := fun t' ht' =>
      Function.update_of_ne ht' ..
    have hinactive : ∀ t', (Function.update st.status t status t').isActive → (st.status t').isActive := by
      intro t' hactive
      by_cases ht' : t' = t
      · subst ht'
        rw [Function.update_self] at hactive
        exact hok.2 hactive
      · rwa [hsame t' ht'] at hactive
    refine ⟨hcalls, hmemories, h.alone, fun th => ?_, fun t' c hmem => ?_⟩
    · refine (h.seen th).mono rfl rfl (fun t' hwithin hactive => ?_) hinactive (fun t' hcompleted => ?_)
        fun _ _ hmem => hmem
      · have ht' : t' ≠ t := fun heq => hok.1 th (heq ▸ hwithin)
        exact (congrArg Status.isActive (hsame t' ht')).trans hactive
      · have ht' : t' ≠ t := fun heq => hstatus (heq ▸ hcompleted)
        exact (hsame t' ht').trans hcompleted
    · have hold := h.awaited t' c hmem
      exact ⟨hold.connection, hold.transaction, fun hactive => hold.active (hinactive t' hactive)⟩
  | getConnection => exact h.start hcalls hmemories (fun _ => hok) trivial
  | @call th w call => exact h.start hcalls hmemories (by cases call <;> exact nofun) (by cases call <;> trivial)
  | @afterCompletion th t i s hidle hcompleted hi =>
    have hback : ∀ t' c, .terminateTransaction c ∈ (st.runSynchronization t i).synchronizations t' →
        .terminateTransaction c ∈ st.synchronizations t' := by
      intro t' c hmem
      have hmem : .terminateTransaction c ∈ Function.update st.synchronizations t _ t' := hmem
      by_cases ht' : t' = t
      · subst ht'
        rw [Function.update_self] at hmem
        exact List.mem_of_mem_eraseIdx hmem
      · rwa [Function.update_of_ne ht'] at hmem
    have hrun : (st.runSynchronization t i).SerialInv := h.congr h.calls rfl rfl rfl rfl hback
    cases s with
    | terminateTransaction c =>
      have hold := h.awaited t c (List.mem_of_getElem? hi)
      exact hrun.start hcalls hmemories (fun _ => hok c hi) ⟨hcompleted, hold.connection, hold.transaction⟩
    | closePlain c => exact hrun.start hcalls hmemories nofun trivial
  | closeLent => exact h.congr hcalls rfl rfl rfl rfl fun _ _ hmem => hmem
  | @step th answer pc e hinstr =>
    cases hat : (st.pc th).atMemories with
    | true =>
      have hown := ownStep_of_instr (inCall_of_atMemories hat) hinstr
      refine ⟨hcalls, hmemories, ?_, fun th' => ?_, fun t c hmem => (h.awaited_step hown hmem).congr rfl rfl rfl⟩
      · refine alone_setPc ?_ fun _ => .inl ?_
        · rw [apply_pc]
          exact h.alone
        · rw [apply_pc]
          exact hat
      · by_cases hth : th' = th
        · subst hth
          rw [setPc_self]
          refine h.seen_step hown fun c hanswer => ?_
          subst hanswer
          exact hok
        · rw [setPc_of_ne hth, apply_pc]
          refine at_of_elsewhere ?_
          by_contra hne
          exact hth (h.alone th' th (by simpa using hne) hat)
    | false =>
      obtain ⟨ht, hc, hback, hnext⟩ := h.elsewhere_step hinstr hat
      have hcalls' : (st.apply th e).CallsExist := fun th' w call hcall =>
        (h.calls th' w call (by rwa [apply_pc] at hcall)).trans_le (wrappers_length_apply st th e)
      have happly : (st.apply th e).SerialInv :=
        h.congr hcalls' ht hc (apply_pc st th e) (apply_status st th e) hback
      exact happly.start hcalls hmemories (by rw [hnext]; exact nofun) (at_of_elsewhere hnext)

omit [DecidableEq Conn] [DecidableEq Txn] [DecidableEq Thread] in
theorem serialInv_start (status : Txn → Status) (pooled : Conn → Bool) :
    (start status pooled : DsState Thread Conn Txn).SerialInv where
  calls := fun _ _ _ h => nomatch h
  memories := memInv_start status pooled
  alone := fun _ _ h => nomatch h
  seen := fun _ => trivial
  awaited := fun _ _ h => nomatch h

/-- **One at a time**: calls of `getConnection` and terminations that do not overlap are orderly. -/
theorem orderly_of_oneAtATime {status : Txn → Status} {pooled : Conn → Bool}
    (h : Runs step OneAtATime (start status pooled : DsState Thread Conn Txn) st) :
    Runs step Orderly (start status pooled) st :=
  Runs.of_invariant (serialInv_start status pooled) (fun _ _ _ hI hok hs => hI.step hok hs)
    (fun _ _ hI _ => hI.orderly) h

/-- **Between the calls** that come one at a time, the two maps are inverse to each other. -/
theorem inverse_between_calls {status : Txn → Status} {pooled : Conn → Bool}
    (h : Runs step OneAtATime (start status pooled : DsState Thread Conn Txn) st)
    (hs : ∀ th, (st.pc th).atMemories = false) : st.MemoriesInverse := by
  have hinv := Runs.invariant (serialInv_start status pooled) (fun _ _ _ hI hok hs => SerialInv.step hI hok hs) h
  refine hinv.memories.memoriesInverse ⟨fun t c ⟨th, hth⟩ => ?_, fun t c ⟨th, k, hth⟩ => ?_⟩
  · exact nomatch (congrArg Pc.atMemories hth).symm.trans (hs th)
  · exact nomatch (congrArg Pc.atMemories hth).symm.trans (hs th)

end

/-- The first call is alone, and the pool hands out a new connection. -/
theorem along_oneAtATime :
    Along step OneAtATime twoPooled (looks false .userPassword ++ registersLocking false false) :=
  .cons rfl (fun th => by cases th <;> rfl) <| .cons rfl trivial <| .cons rfl trivial <| .cons rfl trivial <|
    .cons rfl (fun _ => List.not_mem_nil) <| .cons rfl trivial <| .cons rfl trivial <| .cons rfl trivial <|
      .cons rfl trivial <| .cons rfl trivial <| .cons rfl trivial trivial

theorem inverse_between_calls_first : ∃ st : DsState Bool Bool Unit,
    st.transactionMemory () = some ⟨false, ()⟩ ∧ st.MemoriesInverse := by
  refine ⟨_, ?_, inverse_between_calls (Runs.of_along _ along_oneAtATime rfl) fun th => ?_⟩
  · rfl
  · cases th <;> rfl

end DsState

end Dynamy.Services
