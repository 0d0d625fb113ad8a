import Dynamy.Services.TransactionConnectionWrapper
import Mathlib.Data.Finset.Card

/-!
# Dynamy.Services.ReleasedOnce — how often a transaction closes its connection

All the wrappers over one connection that calls in one transaction returned, and the `close()` calls on them while the
transaction is active.  Each wrapper has its own flag, and the first close of each registers its own callback.  What is
conserved is the number of closed wrappers: each stands for a close of the connection that has happened, that waits
among the callbacks, or that a thread has in its hands (`Balance`).  `released_iff` reads off when one close comes out.
-/

namespace Dynamy.Services

open Dynamy.Java Dynamy.Lib

variable {Thread Conn Txn : Type}

/-- What a run is watched for. -/
inductive Release
  /-- `close()` is called on the wrapper `w` -/
  | asked (w : ℕ)
  /-- `close()` of the plain connection is called, and whether the transaction has completed by then -/
  | closed (completed : Bool)

/-- The calls of `close()` on the plain connection. -/
def closings (l : List Release) : List Bool :=
  l.filterMap fun
    | .asked _ => none
    | .closed completed => some completed

@[simp] theorem closings_append (l l' : List Release) : closings (l ++ l') = closings l ++ closings l' :=
  List.filterMap_append

namespace DsState

variable [DecidableEq Thread] [DecidableEq Conn] [DecidableEq Txn]

/-- `w` is a wrapper over `c` that a call in `t` returned. -/
def Obtained (st : DsState Thread Conn Txn) (c : Conn) (t : Txn) (w : ℕ) : Prop :=
  (st.wrappers[w]?).map (fun wrapper => (wrapper.plainConn, wrapper.caller)) = some (c, t)

instance (st : DsState Thread Conn Txn) (c : Conn) (t : Txn) (w : ℕ) : Decidable (st.Obtained c t w) :=
  inferInstanceAs (Decidable (_ = _))

/-- Its flag is set. -/
def Marked (st : DsState Thread Conn Txn) (c : Conn) (t : Txn) (w : ℕ) : Prop := st.wrappers[w]? = some ⟨c, t, true⟩

/-- `th` is in a `close` of the wrapper `w` of `t` over `c`. -/
def Closing (st : DsState Thread Conn Txn) (c : Conn) (t : Txn) (th : Thread) (w : ℕ) : Prop :=
  (st.pc th).inCall = some (w, .close) ∧ st.Obtained c t w

/-- `th` is in such a `close`, or in a callback that closes `c`. -/
def Releases (st : DsState Thread Conn Txn) (c : Conn) (t : Txn) (th : Thread) : Prop :=
  (∃ w, st.Closing c t th w) ∨ st.pc th = .closePlain c

instance (st : DsState Thread Conn Txn) (c : Conn) (t : Txn) (th : Thread) : Decidable (st.Releases c t th) :=
  decidable_of_iff ((st.pc th).inCall.any (fun (w, call) => call = .close ∧ st.Obtained c t w) ∨ st.pc th = .closePlain c)
    (by simp [Releases, Closing, Option.any_eq_true])

/-- What a choice means for the connection `c` in the transaction `t`. -/
def released (c : Conn) (t : Txn) (st : DsState Thread Conn Txn) : DsAction Thread Conn Txn → List Release
  | .call _ w .close => if st.Obtained c t w then [.asked w] else []
  | .step th answer =>
    if st.Releases c t th then
      (st.instr (st.pc th) answer).elim [] fun (_, e) =>
        if e.called = some (c, .close) then [.closed (st.status t = .completed)] else []
    else []
  | _ => []

/-- The machine, with the log of the releases of `c` in `t`. -/
abbrev releaseStep (c : Conn) (t : Txn) : DsState Thread Conn Txn × List Release → DsAction Thread Conn Txn →
    Option (DsState Thread Conn Txn × List Release) := logged step (released c t)

/-- What the closes and the callbacks depend on stays as it is; wrappers may be added. -/
structure LeavesRelease (c : Conn) (t : Txn) (st st' : DsState Thread Conn Txn) : Prop where
  status : st'.status t = st.status t
  connectionMemory : (st.status t).isActive → st'.connectionMemory c = st.connectionMemory c
  obtained : ∀ w, st.Obtained c t w → st'.Obtained c t w
  marked : ∀ w, st'.Marked c t w ↔ st.Marked c t w
  synchronizations : (st'.synchronizations t).count (.closePlain c) = (st.synchronizations t).count (.closePlain c)
  stays : ∀ th, st.Releases c t th → st'.pc th = st.pc th
  new : ∀ th, st'.Releases c t th → st.Releases c t th

/-- A call of `close` on a wrapper of `t` over `c` while `t` is active, a step of one, in which the transaction raises
nothing; a callback that closes `c`; the transaction moving on, out of the active statuses only when every close has
ended and never back into them; or something that has nothing to do with all this. -/
inductive ReleaseBeside (c : Conn) (t : Txn) (x : DsState Thread Conn Txn × List Release) :
    DsAction Thread Conn Txn → Prop
  | call {th : Thread} {w : ℕ} (hw : x.1.Obtained c t w) (h : (x.1.status t).isActive) :
      ReleaseBeside c t x (.call th w .close)
  | step {th : Thread} {w : ℕ} (h : x.1.Closing c t th w) : ReleaseBeside c t x (.step th .go)
  | afterCompletion {th : Thread} {i : ℕ} (h : (x.1.synchronizations t)[i]? = some (.closePlain c)) :
      ReleaseBeside c t x (.afterCompletion th t i)
  | closePlain {th : Thread} {answer : Answer Conn} (h : x.1.pc th = .closePlain c) :
      ReleaseBeside c t x (.step th answer)
  | setStatus {status : Status} (h : status.isActive → (x.1.status t).isActive)
      (hends : ¬ status.isActive → ∀ th w, ¬ x.1.Closing c t th w) : ReleaseBeside c t x (.setStatus t status)
  | other {a : DsAction Thread Conn Txn} (h : released c t x.1 a = [])
      (hl : ∀ st', x.1.step a = some st' → LeavesRelease c t x.1 st') : ReleaseBeside c t x a

/-! ### The invariant -/

/-- A thread has one close of `c` in its hands. -/
def Pending (st : DsState Thread Conn Txn) (c : Conn) (t : Txn) (th : Thread) : Prop :=
  (∃ w, st.pc th = .closeLater w t ∧ st.Obtained c t w) ∨ st.pc th = .closePlain c

/-- Each marked wrapper stands for one close: one of the `n` that have happened, one that waits among the callbacks, or
one in the hands of a thread. -/
def Balance (st : DsState Thread Conn Txn) (c : Conn) (t : Txn) (n : ℕ) : Prop :=
  ∃ (marked : Finset ℕ) (pending : Finset Thread), (∀ w, w ∈ marked ↔ st.Marked c t w) ∧
    (∀ th, th ∈ pending ↔ st.Pending c t th) ∧
    n + (st.synchronizations t).count (.closePlain c) + pending.card = marked.card

/-- How far a close comes while its transaction is active. -/
def OnCloseCourse (st : DsState Thread Conn Txn) (c : Conn) (t : Txn) : Pc Conn Txn → Prop
  | .guarded _ _ t' | .closeOnce _ t' => t' = t
  | .closeLater w t' => t' = t ∧ st.Marked c t w
  | .plainCall _ _ => False
  | _ => True

structure ReleaseInv (c : Conn) (t : Txn) (x : DsState Thread Conn Txn × List Release) : Prop where
  context : (x.1.status t).isActive → ∃ c', x.1.connectionMemory c = some ⟨c', t⟩
  closing : ∀ th w, x.1.Closing c t th w → (x.1.status t).isActive ∧ x.1.OnCloseCourse c t (x.1.pc th)
  callback : ∀ th, x.1.pc th = .closePlain c → x.1.status t = .completed
  afterwards : ∀ completed ∈ closings x.2, completed = true
  balance : x.1.Balance c t (closings x.2).length
  asked : ∀ w, .asked w ∈ x.2 ↔ x.1.Marked c t w ∨ ∃ th, x.1.Closing c t th w

/-- What the threads that are not `own` see of a step. -/
structure SeenByOthers (own : Thread → Prop) (c : Conn) (t : Txn) (st st' : DsState Thread Conn Txn) : Prop where
  context : (st'.status t).isActive → (st.status t).isActive ∧ st'.connectionMemory c = st.connectionMemory c
  active : ∀ th w, st.Closing c t th w → (st.status t).isActive → (st'.status t).isActive
  completed : st.status t = .completed → st'.status t = .completed
  obtained : ∀ w, st.Obtained c t w → st'.Obtained c t w
  marked : ∀ w, st.Marked c t w → st'.Marked c t w
  stays : ∀ th, ¬ own th → st.Releases c t th → st'.pc th = st.pc th
  new : ∀ th, ¬ own th → st'.Releases c t th → st.Releases c t th

variable {s st st' : DsState Thread Conn Txn} {u x y : DsState Thread Conn Txn × List Release} {th : Thread}
  {c : Conn} {t : Txn} {w : ℕ} {wrapper : TransactionConnectionWrapper Conn Txn} {pc pc' : Pc Conn Txn}
  {answer : Answer Conn} {e : Effect Conn Txn} {a : DsAction Thread Conn Txn} {own : Thread → Prop} {l : List Release}

omit [DecidableEq Thread] [DecidableEq Conn] [DecidableEq Txn] in
theorem obtained_iff : st.Obtained c t w ↔ ∃ closed, st.wrappers[w]? = some ⟨c, t, closed⟩ := by
  rw [Obtained, Option.map_eq_some_iff]
  constructor
  · rintro ⟨⟨c', t', closed⟩, hw, heq⟩
    cases heq
    exact ⟨closed, hw⟩
  · rintro ⟨closed, hw⟩
    exact ⟨_, hw, rfl⟩

omit [DecidableEq Thread] [DecidableEq Conn] [DecidableEq Txn] in
theorem Pending.releases (h : st.Pending c t th) : st.Releases c t th := by
  rcases h with ⟨w, hpc, hw⟩ | hpc
  · exact .inl ⟨w, by rw [hpc]; rfl, hw⟩
  · exact .inr hpc

omit [DecidableEq Thread] [DecidableEq Conn] [DecidableEq Txn] in
theorem pending_iff_closeLater (h : st.Closing c t th w) : st.Pending c t th ↔ st.pc th = .closeLater w t := by
  obtain ⟨hin, hw⟩ := h
  constructor
  · rintro (⟨w', hlater, -⟩ | hplain)
    · rw [hlater] at hin
      cases hin
      exact hlater
    · rw [hplain] at hin
      cases hin
  · exact fun hlater => .inl ⟨w, hlater, hw⟩

omit [DecidableEq Thread] [DecidableEq Conn] [DecidableEq Txn] in
theorem not_pending_of_idle (h : st.pc th = .idle) : ¬ st.Pending c t th := by
  rintro (⟨w, hlater, -⟩ | hplain)
  · cases h.symm.trans hlater
  · cases h.symm.trans hplain

omit [DecidableEq Thread] [DecidableEq Conn] [DecidableEq Txn] in
theorem not_closing_of_pc (h : st.pc th = pc) (hin : pc.inCall = none) : ¬ st.Closing c t th w := by
  rintro ⟨hcall, -⟩
  rw [h, hin] at hcall
  cases hcall

omit [DecidableEq Thread] [DecidableEq Conn] [DecidableEq Txn] in
theorem not_releases_of_idle (h : st.pc th = .idle) : ¬ st.Releases c t th := by
  rintro (⟨w, hclosing⟩ | hplain)
  · exact not_closing_of_pc h rfl hclosing
  · cases h.symm.trans hplain

/-! ### The other threads -/

section Others

variable (ho : SeenByOthers own c t st st') (hth : ¬ own th)

include ho hth

omit [DecidableEq Thread] [DecidableEq Conn] [DecidableEq Txn] in
theorem SeenByOthers.closing_iff : st'.Closing c t th w ↔ st.Closing c t th w := by
  constructor
  · intro h
    have hreleases := ho.new th hth (.inl ⟨w, h⟩)
    have hpc := ho.stays th hth hreleases
    rcases hreleases with ⟨w', hin, hw'⟩ | hplain
    · obtain rfl : w' = w := by
        have heq := hin.symm.trans (hpc ▸ h.1)
        cases heq
        rfl
      exact ⟨hin, hw'⟩
    · have hin := h.1
      rw [hpc, hplain] at hin
      cases hin
  · intro h
    have hpc := ho.stays th hth (.inl ⟨w, h⟩)
    exact ⟨hpc ▸ h.1, ho.obtained w h.2⟩

omit [DecidableEq Thread] [DecidableEq Conn] [DecidableEq Txn] in
theorem SeenByOthers.pending_iff : st'.Pending c t th ↔ st.Pending c t th := by
  constructor
  · intro h
    have hpc := ho.stays th hth (ho.new th hth h.releases)
    rcases h with ⟨w, hlater, hw⟩ | hplain
    · have hclosing : st'.Closing c t th w := ⟨by rw [hlater]; rfl, hw⟩
      exact .inl ⟨w, hpc ▸ hlater, ((ho.closing_iff hth).mp hclosing).2⟩
    · exact .inr (hpc ▸ hplain)
  · intro h
    have hpc := ho.stays th hth h.releases
    rcases h with ⟨w, hlater, hw⟩ | hplain
    · exact .inl ⟨w, hpc ▸ hlater, ho.obtained w hw⟩
    · exact .inr (hpc ▸ hplain)

omit hth in
omit [DecidableEq Thread] [DecidableEq Conn] [DecidableEq Txn] in
theorem SeenByOthers.exists_closing_iff (hown : ∀ th, own th → (st'.Closing c t th w ↔ st.Closing c t th w)) :
    (∃ th, st'.Closing c t th w) ↔ ∃ th, st.Closing c t th w := by
  refine exists_congr fun th => ?_
  by_cases hth : own th
  · exact hown th hth
  · exact ho.closing_iff hth

end Others

omit [DecidableEq Thread] [DecidableEq Txn] in
/-- What remains to be seen when the other threads have seen a step: the threads that took it, and the counts. -/
theorem ReleaseInv.of_others (h : ReleaseInv c t x) (ho : SeenByOthers own c t x.1 st')
    (hclosing : ∀ th w, own th → st'.Closing c t th w → (st'.status t).isActive ∧ st'.OnCloseCourse c t (st'.pc th))
    (hcallback : ∀ th, own th → st'.pc th = .closePlain c → st'.status t = .completed)
    (hafterwards : ∀ completed ∈ Services.closings l, completed = true)
    (hbalance : st'.Balance c t (Services.closings (x.2 ++ l)).length)
    (hasked : ∀ w, (.asked w ∈ l ∨ x.1.Marked c t w ∨ ∃ th, x.1.Closing c t th w) ↔
      st'.Marked c t w ∨ ∃ th, st'.Closing c t th w) : ReleaseInv c t (st', x.2 ++ l) where
  context hactive := by
    obtain ⟨hbefore, hcm⟩ := ho.context hactive
    obtain ⟨c', hcontext⟩ := h.context hbefore
    exact ⟨c', hcm.trans hcontext⟩
  closing th w hth := by
    by_cases hown : own th
    · exact hclosing th w hown hth
    · have hbefore := (ho.closing_iff hown).mp hth
      obtain ⟨hactive, hcourse⟩ := h.closing th w hbefore
      refine ⟨ho.active th w hbefore hactive, ?_⟩
      dsimp only
      rw [ho.stays th hown (.inl ⟨w, hbefore⟩)]
      revert hcourse
      cases x.1.pc th with
      | closeLater w' t' => exact fun hcourse => ⟨hcourse.1, ho.marked w' hcourse.2⟩
      | _ => exact id
  callback th hth := by
    by_cases hown : own th
    · exact hcallback th hown hth
    · have hreleases := ho.new th hown (.inr hth)
      have hpc := ho.stays th hown hreleases
      exact ho.completed (h.callback th (hpc ▸ hth))
  afterwards := by
    intro completed hmem
    rw [closings_append, List.mem_append] at hmem
    exact hmem.elim (h.afterwards completed) (hafterwards completed)
  balance := hbalance
  asked w := by rw [List.mem_append, h.asked w, or_comm, hasked w]

/-! ### The balance -/

section Balance

variable {n n' : ℕ} (hb : st.Balance c t n) (hothers : ∀ th' ≠ th, (st'.Pending c t th' ↔ st.Pending c t th'))

include hb

omit [DecidableEq Thread] [DecidableEq Txn] in
/-- Nothing changes hands. -/
theorem Balance.same (hmarked : ∀ w, st'.Marked c t w ↔ st.Marked c t w)
    (hpending : ∀ th, st'.Pending c t th ↔ st.Pending c t th)
    (hsum : (st'.synchronizations t).count (.closePlain c) = (st.synchronizations t).count (.closePlain c)) :
    st'.Balance c t n := by
  obtain ⟨marked, pending, hm, hp, hcard⟩ := hb
  exact ⟨marked, pending, fun w => (hm w).trans (hmarked w).symm, fun th => (hp th).trans (hpending th).symm,
    hsum ▸ hcard⟩

include hothers

omit [DecidableEq Txn] in
/-- A thread takes a close into its hands. -/
theorem Balance.takes (hmarked : ∀ w, st'.Marked c t w ↔ st.Marked c t w) (hbefore : ¬ st.Pending c t th)
    (hafter : st'.Pending c t th)
    (hsum : n' + (st'.synchronizations t).count (.closePlain c) + 1 =
      n + (st.synchronizations t).count (.closePlain c)) : st'.Balance c t n' := by
  obtain ⟨marked, pending, hm, hp, hcard⟩ := hb
  have hth : th ∉ pending := fun hmem => hbefore ((hp th).mp hmem)
  refine ⟨marked, insert th pending, fun w => (hm w).trans (hmarked w).symm, fun th' => ?_, ?_⟩
  · rw [Finset.mem_insert, hp th']
    by_cases hth' : th' = th
    · rw [hth']
      exact iff_of_true (.inl rfl) hafter
    · rw [hothers th' hth']
      exact or_iff_right hth'
  · rw [Finset.card_insert_of_notMem hth, ← hcard]
    omega

omit [DecidableEq Txn] in
/-- A thread gives a close out of its hands. -/
theorem Balance.gives (hmarked : ∀ w, st'.Marked c t w ↔ st.Marked c t w) (hbefore : st.Pending c t th)
    (hafter : ¬ st'.Pending c t th)
    (hsum : n' + (st'.synchronizations t).count (.closePlain c) =
      n + (st.synchronizations t).count (.closePlain c) + 1) : st'.Balance c t n' := by
  obtain ⟨marked, pending, hm, hp, hcard⟩ := hb
  have hth : th ∈ pending := (hp th).mpr hbefore
  refine ⟨marked, pending.erase th, fun w => (hm w).trans (hmarked w).symm, fun th' => ?_, ?_⟩
  · rw [Finset.mem_erase, hp th']
    by_cases hth' : th' = th
    · rw [hth']
      exact iff_of_false (fun hne => hne.1 rfl) hafter
    · rw [hothers th' hth']
      exact and_iff_right hth'
  · have hpos := Finset.card_pos.mpr ⟨th, hth⟩
    rw [Finset.card_erase_of_mem hth, ← hcard]
    omega

omit [DecidableEq Txn] in
/-- A thread marks a wrapper, and has its close in hands. -/
theorem Balance.marks (hmarked : ∀ w', st'.Marked c t w' ↔ w' = w ∨ st.Marked c t w') (hopen : ¬ st.Marked c t w)
    (hbefore : ¬ st.Pending c t th) (hafter : st'.Pending c t th)
    (hsum : (st'.synchronizations t).count (.closePlain c) = (st.synchronizations t).count (.closePlain c)) :
    st'.Balance c t n := by
  obtain ⟨marked, pending, hm, hp, hcard⟩ := hb
  have hth : th ∉ pending := fun hmem => hbefore ((hp th).mp hmem)
  have hw : w ∉ marked := fun hmem => hopen ((hm w).mp hmem)
  refine ⟨insert w marked, insert th pending, fun w' => ?_, fun th' => ?_, ?_⟩
  · rw [Finset.mem_insert, hm w', hmarked w']
  · rw [Finset.mem_insert, hp th']
    by_cases hth' : th' = th
    · rw [hth']
      exact iff_of_true (.inl rfl) hafter
    · rw [hothers th' hth']
      exact or_iff_right hth'
  · rw [Finset.card_insert_of_notMem hth, Finset.card_insert_of_notMem hw, hsum]
    omega

end Balance

/-! ### One step of a close -/

omit [DecidableEq Thread] in
theorem obtained_apply (h : WrapperStep st w wrapper pc answer pc' e) (w' : ℕ) :
    (st.apply th e).Obtained c t w' ↔ st.Obtained c t w' := by
  cases h with
  | wins =>
    unfold Obtained
    rw [map_wrapper_setClosed fun _ => rfl]
  | _ => exact Iff.rfl

omit [DecidableEq Thread] in
theorem marked_setClosed {closed : Bool} (hw : st.wrappers[w]? = some ⟨c, t, closed⟩) (th : Thread) (w' : ℕ) :
    (st.apply th (.setClosed w)).Marked c t w' ↔ w' = w ∨ st.Marked c t w' := by
  simp only [Marked, apply, List.getElem?_modify]
  by_cases heq : w = w'
  · subst heq
    simp [hw]
  · simp [heq, Ne.symm heq]

/-- What others see of a step of a close. -/
theorem WrapperStep.seenByOthers {closed : Bool} (hw : st.wrappers[w]? = some ⟨c, t, closed⟩)
    (h : WrapperStep st w ⟨c, t, closed⟩ pc answer pc' e) :
    SeenByOthers (· = th) c t st ((st.apply th e).setPc th pc') := by
  have hpc : ∀ th' ≠ th, ((st.apply th e).setPc th pc').pc th' = st.pc th' := fun th' hne => by
    rw [setPc_of_ne hne, apply_pc]
  have hobtained : ∀ w', ((st.apply th e).setPc th pc').Obtained c t w' ↔ st.Obtained c t w' := obtained_apply h
  have hstatus : ((st.apply th e).setPc th pc').status = st.status := apply_status st th e
  refine ⟨?_, ?_, ?_, fun w' => (hobtained w').mpr, ?_, fun th' hne _ => hpc th' hne, ?_⟩
  · rw [hstatus]
    exact fun hactive => ⟨hactive, congrFun (h.frame th).1 c⟩
  · rw [hstatus]
    exact fun _ _ _ => id
  · rw [hstatus]
    exact id
  · cases h with
    | wins => exact fun w' hmarked => (marked_setClosed hw th w').mpr (.inr hmarked)
    | _ => exact fun _ => id
  · rintro th' hne (⟨w', hin, hw'⟩ | hplain)
    · exact .inl ⟨w', hpc th' hne ▸ hin, (hobtained w').mp hw'⟩
    · exact .inr (hpc th' hne ▸ hplain)

omit [DecidableEq Thread] [DecidableEq Conn] [DecidableEq Txn] in
/-- Who was in a close of `w`, and has marked it or is still in it, changes nothing in what was asked. -/
theorem SeenByOthers.asked_iff (ho : SeenByOthers (· = th) c t st st')
    (hmarked : ∀ w' ≠ w, (st'.Marked c t w' ↔ st.Marked c t w')) (hbefore : st.Closing c t th w)
    (hafter : ∀ w', st'.Closing c t th w' → w' = w) (hstill : st'.Marked c t w ∨ st'.Closing c t th w) (w' : ℕ) :
    (.asked w' ∈ ([] : List Release) ∨ st.Marked c t w' ∨ ∃ th, st.Closing c t th w') ↔
      st'.Marked c t w' ∨ ∃ th, st'.Closing c t th w' := by
  by_cases heq : w' = w
  · subst heq
    exact iff_of_true (.inr (.inr ⟨th, hbefore⟩)) (hstill.imp_right fun hclosing => ⟨th, hclosing⟩)
  · have hown : ∀ th', th' = th → (st'.Closing c t th' w' ↔ st.Closing c t th' w') := by
      rintro th' rfl
      refine iff_of_false (fun hclosing => heq (hafter w' hclosing)) fun hclosing => heq ?_
      have hsame := hbefore.1.symm.trans hclosing.1
      cases hsame
      rfl
    rw [hmarked w' heq, ho.exists_closing_iff hown, or_iff_right List.not_mem_nil]

omit [DecidableEq Thread] in
/-- On its way a close calls nothing. -/
theorem released_of_course (hinstr : st.instr (st.pc th) answer = some (pc', e))
    (hstep : WrapperStep st w wrapper (st.pc th) answer pc' e) (hcourse : st.OnCloseCourse c t (st.pc th)) :
    released c t st (.step th answer) = [] := by
  have hcalled : e.called = none := by
    generalize st.pc th = pc at hstep hcourse
    cases hstep with
    | reaches => exact hcourse.elim
    | plainRaises => exact hcourse.elim
    | _ => rfl
  simp [released, hinstr, hcalled]

omit [DecidableEq Thread] [DecidableEq Txn] in
/-- What remains to be seen of a step of a close. -/
theorem ReleaseInv.of_close (h : ReleaseInv c t x) (ho : SeenByOthers (· = th) c t x.1 st')
    (hclosing : x.1.Closing c t th w) (hplain : st'.pc th ≠ .closePlain c)
    (hafter : ∀ w', st'.Closing c t th w' → w' = w ∧ st'.OnCloseCourse c t (st'.pc th))
    (hmarked : ∀ w' ≠ w, (st'.Marked c t w' ↔ x.1.Marked c t w')) (hstill : st'.Marked c t w ∨ st'.Closing c t th w)
    (hbalance : st'.Balance c t (Services.closings x.2).length) : ReleaseInv c t (st', x.2) := by
  have hactive := ho.active th w hclosing (h.closing th w hclosing).1
  have hown : ∀ th' w', th' = th → st'.Closing c t th' w' →
      (st'.status t).isActive ∧ st'.OnCloseCourse c t (st'.pc th') := by
    rintro th' w' rfl hclosing'
    exact ⟨hactive, (hafter w' hclosing').2⟩
  have hcallback : ∀ th', th' = th → st'.pc th' = .closePlain c → st'.status t = .completed := by
    rintro th' rfl hplain'
    exact absurd hplain' hplain
  have hasked := ho.asked_iff hmarked hclosing (fun w' hclosing' => (hafter w' hclosing').1) hstill
  have hinv := h.of_others (l := []) ho hown hcallback (List.forall_mem_nil _) (by rwa [List.append_nil]) hasked
  rwa [List.append_nil] at hinv

/-- **A step of a close** keeps the balance. -/
theorem ReleaseInv.close_step (h : ReleaseInv c t x) (hat : x.1.pc th = pc) (hclosing : x.1.Closing c t th w)
    (hs : releaseStep c t x (.step th .go) = some y) : ReleaseInv c t y := by
  obtain ⟨hstep, hlog⟩ := logged_eq_some.mp hs
  obtain ⟨st', l'⟩ := y
  simp only [DsState.step, Option.map_eq_some_iff, Prod.exists] at hstep
  obtain ⟨pc', e, hinstr, rfl⟩ := hstep
  obtain ⟨hactive, hcourse⟩ := h.closing th w hclosing
  have hin : pc.inCall = some (w, .close) := hat ▸ hclosing.1
  obtain ⟨closed, hw⟩ := obtained_iff.mp hclosing.2
  obtain ⟨c', hcontext⟩ := h.context hactive
  have hstep := wrapperStep_of_instr hw hclosing.1 hinstr
  rw [released_of_course hinstr hstep hcourse, List.append_nil] at hlog
  obtain rfl : l' = x.2 := hlog
  rw [hat] at hstep hcourse
  have hself : ((x.1.apply th e).setPc th pc').pc th = pc' := setPc_self ..
  have hobtained : ((x.1.apply th e).setPc th pc').Obtained c t w := (obtained_apply hstep w).mpr hclosing.2
  have ho : SeenByOthers (· = th) c t x.1 ((x.1.apply th e).setPc th pc') := hstep.seenByOthers hw
  have hothers : ∀ th' ≠ th, (((x.1.apply th e).setPc th pc').Pending c t th' ↔ x.1.Pending c t th') := fun th' hne =>
    ho.pending_iff hne
  have hleaves : pc' = .idle → ∀ w', ((x.1.apply th e).setPc th pc').Closing c t th w' → w' = w ∧
      ((x.1.apply th e).setPc th pc').OnCloseCourse c t (((x.1.apply th e).setPc th pc').pc th) := by
    rintro hidle w' ⟨hin', -⟩
    rw [hself, hidle] at hin'
    cases hin'
  have hstays : pc'.inCall = some (w, .close) → ((x.1.apply th e).setPc th pc').OnCloseCourse c t pc' →
      ∀ w', ((x.1.apply th e).setPc th pc').Closing c t th w' → w' = w ∧
        ((x.1.apply th e).setPc th pc').OnCloseCourse c t (((x.1.apply th e).setPc th pc').pc th) := by
    rintro hin' hcourse' w' ⟨hin'', -⟩
    rw [hself] at hin'' ⊢
    rw [hin'] at hin''
    cases hin''
    exact ⟨rfl, hcourse'⟩
  have hsame : ¬ ((x.1.apply th e).setPc th pc').Pending c t th → ¬ x.1.Pending c t th →
      ∀ th', ((x.1.apply th e).setPc th pc').Pending c t th' ↔ x.1.Pending c t th' := by
    intro hafter hbefore th'
    by_cases hth' : th' = th
    · rw [hth']
      exact iff_of_false hafter hbefore
    · exact hothers th' hth'
  have hbefore : (∀ t', pc ≠ .closeLater w t') → ¬ x.1.Pending c t th := by
    intro hnot
    rw [pending_iff_closeLater hclosing, hat]
    exact hnot t
  -- the steps that only move the thread on
  have hmoves : e = .skip → pc'.inCall = some (w, .close) → ((x.1.apply th e).setPc th pc').OnCloseCourse c t pc' →
      (∀ t', pc ≠ .closeLater w t') → (∀ t', pc' ≠ .closeLater w t') →
        ReleaseInv c t ((x.1.apply th e).setPc th pc', x.2) := by
    rintro rfl hin' hcourse' hnot hnot'
    have hclosing' : ((x.1.apply th .skip).setPc th pc').Closing c t th w := ⟨by rw [hself]; exact hin', hobtained⟩
    have hafter : ¬ ((x.1.apply th .skip).setPc th pc').Pending c t th := by
      rw [pending_iff_closeLater hclosing', hself]
      exact hnot' t
    have hplain : ((x.1.apply th .skip).setPc th pc').pc th ≠ .closePlain c := by
      rintro heq
      rw [hself.symm.trans heq] at hin'
      cases hin'
    exact h.of_close ho hclosing hplain (hstays hin' hcourse') (fun _ _ => Iff.rfl) (.inr hclosing')
      (h.balance.same (fun _ => Iff.rfl) (hsame hafter (hbefore hnot)) rfl)
  cases hstep with
  | registered hsome =>
    cases hin
    cases hcontext.symm.trans hsome
    exact hmoves rfl rfl rfl (by simp) (by simp)
  | unregistered hnone => cases hcontext.symm.trans hnone
  | refuses _ hcall =>
    cases hin
    exact absurd rfl hcall
  | defers =>
    cases hin
    exact hmoves rfl rfl trivial (by simp) (by simp)
  | passes hnot =>
    obtain rfl := hcourse
    exact absurd hactive hnot
  | owned hsome =>
    cases hin
    cases hcontext.symm.trans hsome
    exact hmoves rfl rfl rfl (by simp) (by simp)
  | disowned hnone => cases hcontext.symm.trans hnone
  | ignored hclosed =>
    cases hin
    obtain rfl : closed = true := hclosed
    have hafter := not_pending_of_idle (c := c) (t := t) hself
    exact h.of_close ho hclosing (by rw [hself]; simp) (hleaves rfl) (fun _ _ => Iff.rfl) (.inl hw)
      (h.balance.same (fun _ => Iff.rfl) (hsame hafter (hbefore (by simp))) rfl)
  | wins hopen =>
    cases hin
    obtain rfl := hcourse.symm
    obtain rfl : closed = false := hopen
    have hmarked := marked_setClosed hw th
    have hunmarked : ¬ x.1.Marked c t w := fun hmarked => by cases hw.symm.trans hmarked
    have hcourse' : ((x.1.apply th (.setClosed w)).setPc th (.closeLater w t)).OnCloseCourse c t (.closeLater w t) :=
      ⟨rfl, (hmarked w).mpr (.inl rfl)⟩
    exact h.of_close ho hclosing (by rw [hself]; simp) (hstays rfl hcourse')
      (fun w' hne => (hmarked w').trans (or_iff_right hne)) (.inl hcourse'.2)
      (h.balance.marks hothers hmarked hunmarked (hbefore (by simp)) (.inl ⟨w, hself, hobtained⟩) rfl)
  | schedules =>
    cases hin
    obtain ⟨heq, hmarked⟩ := hcourse
    obtain rfl := heq.symm
    have hpending : x.1.Pending c t th := (pending_iff_closeLater hclosing).mpr hat
    refine h.of_close ho hclosing (by rw [hself]; simp) (hleaves rfl) (fun _ _ => Iff.rfl) (.inl hmarked)
      (h.balance.gives hothers (fun _ => Iff.rfl) hpending (not_pending_of_idle hself) ?_)
    simp [setPc, apply, List.count_append]
    omega
  | reaches => exact absurd hcourse id

/-! ### One step of a run -/

omit [DecidableEq Thread] [DecidableEq Conn] [DecidableEq Txn] in
/-- What others see when only `th` moves, and no wrapper changes. -/
theorem seenByOthers_of_pc (hstatus : st'.status = st.status) (hcm : st'.connectionMemory = st.connectionMemory)
    (hwrappers : st'.wrappers = st.wrappers) (hpc : ∀ th' ≠ th, st'.pc th' = st.pc th') :
    SeenByOthers (· = th) c t st st' := by
  have hobtained : ∀ w, st'.Obtained c t w ↔ st.Obtained c t w := fun w => by rw [Obtained, hwrappers, Obtained]
  refine ⟨?_, ?_, ?_, fun w => (hobtained w).mpr, fun w hw => ?_, fun th' hne _ => hpc th' hne, ?_⟩
  · rw [hstatus, hcm]
    exact fun hactive => ⟨hactive, rfl⟩
  · rw [hstatus]
    exact fun _ _ _ => id
  · rw [hstatus]
    exact id
  · exact (congrArg (·[w]?) hwrappers).trans hw
  · rintro th' hne (⟨w, hin, hw⟩ | hplain)
    · exact .inl ⟨w, hpc th' hne ▸ hin, (hobtained w).mp hw⟩
    · exact .inr (hpc th' hne ▸ hplain)

omit [DecidableEq Thread] [DecidableEq Txn] in
/-- What remains to be seen when no close takes the step. -/
theorem ReleaseInv.of_outside (h : ReleaseInv c t x) (ho : SeenByOthers own c t x.1 st')
    (hbefore : ∀ th w, own th → ¬ x.1.Closing c t th w) (hafter : ∀ th w, own th → ¬ st'.Closing c t th w)
    (hmarked : ∀ w, st'.Marked c t w ↔ x.1.Marked c t w)
    (hcallback : ∀ th, own th → st'.pc th = .closePlain c → st'.status t = .completed)
    (hnone : ∀ w, .asked w ∉ l) (hafterwards : ∀ completed ∈ Services.closings l, completed = true)
    (hbalance : st'.Balance c t (Services.closings (x.2 ++ l)).length) : ReleaseInv c t (st', x.2 ++ l) := by
  refine h.of_others ho (fun th w hown hclosing => absurd hclosing (hafter th w hown)) hcallback hafterwards hbalance ?_
  intro w
  rw [hmarked w, or_iff_right (hnone w),
    ho.exists_closing_iff fun th hown => iff_of_false (hafter th w hown) (hbefore th w hown)]

/-- A callback is taken up. -/
theorem ReleaseInv.afterCompletion_step {i : ℕ} (h : ReleaseInv c t x)
    (hi : (x.1.synchronizations t)[i]? = some (.closePlain c))
    (hs : releaseStep c t x (.afterCompletion th t i) = some y) : ReleaseInv c t y := by
  obtain ⟨hstep, hlog⟩ := logged_eq_some.mp hs
  obtain ⟨st', l'⟩ := y
  obtain rfl : l' = x.2 ++ [] := hlog
  simp only [DsState.step, hi, Option.ite_none_right_eq_some, Option.some.injEq] at hstep
  obtain ⟨⟨hidle, hcompleted⟩, rfl⟩ := hstep
  have hself : ((x.1.runSynchronization t i).setPc th (.closePlain c)).pc th = .closePlain c := setPc_self ..
  have ho : SeenByOthers (· = th) c t x.1 ((x.1.runSynchronization t i).setPc th (.closePlain c)) :=
    seenByOthers_of_pc rfl rfl rfl fun _ => setPc_of_ne
  have hcount := count_runSynchronization hi (.closePlain c)
  rw [if_pos (beq_self_eq_true _)] at hcount
  refine h.of_outside ho ?_ ?_ (fun _ => Iff.rfl) (fun _ _ _ => hcompleted)
    (fun _ => List.not_mem_nil) (List.forall_mem_nil _) ?_
  · rintro th' w rfl
    exact not_closing_of_pc hidle rfl
  · rintro th' w rfl
    exact not_closing_of_pc hself rfl
  · refine h.balance.takes (fun th' hne => ho.pending_iff hne) (fun _ => Iff.rfl) (not_pending_of_idle hidle)
      (.inr hself) ?_
    rw [List.append_nil, Nat.add_assoc]
    exact congrArg ((closings x.2).length + ·) hcount

/-- The callback closes the connection. -/
theorem ReleaseInv.closePlain_step (h : ReleaseInv c t x) (hat : x.1.pc th = .closePlain c)
    (hs : releaseStep c t x (.step th answer) = some y) : ReleaseInv c t y := by
  obtain ⟨hstep, hlog⟩ := logged_eq_some.mp hs
  obtain ⟨st', l'⟩ := y
  have hcompleted := h.callback th hat
  simp only [DsState.step, Option.map_eq_some_iff, Prod.exists] at hstep
  obtain ⟨pc', e, hinstr, rfl⟩ := hstep
  have hlog' : l' = x.2 ++ released c t x.1 (.step th answer) := hlog
  have hreleases : x.1.Releases c t th := .inr hat
  rw [released, if_pos hreleases, hinstr] at hlog'
  rw [hat] at hinstr
  have hidle : pc' = .idle ∧ e.called = some (c, .close) ∧ (x.1.apply th e).status = x.1.status ∧
      (x.1.apply th e).connectionMemory = x.1.connectionMemory ∧ (x.1.apply th e).wrappers = x.1.wrappers ∧
        (x.1.apply th e).synchronizations = x.1.synchronizations := by
    cases answer with
    | connection => cases hinstr
    | refuses => cases hinstr
    | go => cases hinstr; exact ⟨rfl, rfl, rfl, rfl, rfl, rfl⟩
    | raises => cases hinstr; exact ⟨rfl, rfl, rfl, rfl, rfl, rfl⟩
  obtain ⟨rfl, hcalled, hstatus, hcm, hwrappers, hsync⟩ := hidle
  obtain rfl : l' = x.2 ++ [.closed true] := by simpa [hcalled, hcompleted] using hlog'
  have hself : ((x.1.apply th e).setPc th .idle).pc th = .idle := setPc_self ..
  have ho : SeenByOthers (· = th) c t x.1 ((x.1.apply th e).setPc th .idle) :=
    seenByOthers_of_pc hstatus hcm hwrappers fun th' hne => by
      rw [setPc_of_ne hne, apply_pc]
  have hmarked : ∀ w, ((x.1.apply th e).setPc th .idle).Marked c t w ↔ x.1.Marked c t w := fun w => by
    rw [Marked, Marked]
    exact iff_of_eq (congrArg (fun wrappers : List _ => wrappers[w]? = _) hwrappers)
  refine h.of_outside ho ?_ ?_ hmarked ?_ (fun w hmem => ?_) ?_ ?_
  · rintro th' w rfl
    exact not_closing_of_pc hat rfl
  · rintro th' w rfl
    exact not_closing_of_pc hself rfl
  · rintro th' rfl hplain
    cases hself.symm.trans hplain
  · cases List.mem_singleton.mp hmem
  · intro completed hmem
    exact List.mem_singleton.mp hmem
  · refine h.balance.gives (fun th' hne => ho.pending_iff hne) hmarked (.inr hat) (not_pending_of_idle hself) ?_
    show _ + ((x.1.apply th e).synchronizations t).count _ = _
    rw [hsync, closings_append, List.length_append]
    show _ + 1 + _ = _
    omega

/-- `close()` is called. -/
theorem ReleaseInv.call_step (h : ReleaseInv c t x) (hw : x.1.Obtained c t w) (hactive : (x.1.status t).isActive)
    (hs : releaseStep c t x (.call th w .close) = some y) : ReleaseInv c t y := by
  obtain ⟨hstep, hlog⟩ := logged_eq_some.mp hs
  obtain ⟨st', l'⟩ := y
  obtain rfl : l' = x.2 ++ [.asked w] := by
    rw [show l' = x.2 ++ released c t x.1 (.call th w .close) from hlog, released, if_pos hw]
  simp only [DsState.step, Option.ite_none_right_eq_some, Option.some.injEq] at hstep
  obtain ⟨⟨hidle, -⟩, rfl⟩ := hstep
  have hself : (x.1.setPc th (.inTransaction w .close)).pc th = .inTransaction w .close := setPc_self ..
  have ho : SeenByOthers (· = th) c t x.1 (x.1.setPc th (.inTransaction w .close)) :=
    seenByOthers_of_pc rfl rfl rfl fun _ => setPc_of_ne
  have hclosing : (x.1.setPc th (.inTransaction w .close)).Closing c t th w := ⟨by rw [hself]; rfl, hw⟩
  have hpending : ∀ th', (x.1.setPc th (.inTransaction w .close)).Pending c t th' ↔ x.1.Pending c t th' := by
    intro th'
    by_cases hth' : th' = th
    · subst hth'
      refine iff_of_false ?_ (not_pending_of_idle hidle)
      rw [pending_iff_closeLater hclosing, hself]
      simp
    · exact ho.pending_iff hth'
  refine h.of_others ho ?_ ?_ (List.forall_mem_nil _) ?_ fun w' => ?_
  · rintro th' w' rfl -
    refine ⟨hactive, ?_⟩
    show OnCloseCourse _ c t ((x.1.setPc th' (.inTransaction w .close)).pc th')
    rw [hself]
    trivial
  · rintro th' rfl hplain
    cases hself.symm.trans hplain
  · rw [closings_append, show Services.closings [Release.asked w] = [] from rfl, List.append_nil]
    exact h.balance.same (fun _ => Iff.rfl) hpending rfl
  · by_cases heq : w' = w
    · subst heq
      exact iff_of_true (.inl (List.mem_singleton_self _)) (.inr ⟨th, hclosing⟩)
    · have hnot : .asked w' ∉ [Release.asked w] := fun hmem => by
        cases List.mem_singleton.mp hmem
        exact heq rfl
      have hown : ∀ th', th' = th →
          ((x.1.setPc th (.inTransaction w .close)).Closing c t th' w' ↔ x.1.Closing c t th' w') := by
        rintro th' rfl
        refine iff_of_false (fun hclosing' => heq ?_) (not_closing_of_pc hidle rfl)
        cases hclosing'.1.symm.trans hclosing.1
        rfl
      rw [or_iff_right hnot]
      exact or_congr_right (ho.exists_closing_iff hown).symm

/-- The step lemma, whatever happens. -/
theorem ReleaseInv.step (h : ReleaseInv c t x) (hbeside : ReleaseBeside c t x a) (hs : releaseStep c t x a = some y) :
    ReleaseInv c t y := by
  cases hbeside with
  | call hw hactive => exact h.call_step hw hactive hs
  | step hclosing => exact h.close_step rfl hclosing hs
  | afterCompletion hi => exact h.afterCompletion_step hi hs
  | closePlain hat => exact h.closePlain_step hat hs
  | @setStatus status hactive hends =>
    obtain ⟨hstep, hlog⟩ := logged_eq_some.mp hs
    obtain ⟨st', l'⟩ := y
    obtain rfl : l' = x.2 ++ [] := hlog
    have hcompleted := completed_of_step (t := t) hstep
    cases steps_of_step hstep with
    | setStatus =>
      have ho : SeenByOthers (fun _ => False) c t x.1
          { x.1 with status := Function.update x.1.status t status } := by
        refine ⟨fun h => ?_, fun th w hclosing _ => ?_, hcompleted, fun _ => id, fun _ => id, fun _ _ _ => rfl,
          fun _ _ => id⟩ <;> dsimp only at * <;> rw [Function.update_self] at *
        · exact ⟨hactive h, rfl⟩
        · by_contra hnot
          exact hends hnot th w hclosing
      refine h.of_outside ho (fun _ _ => False.elim) (fun _ _ => False.elim) (fun _ => Iff.rfl) (fun _ => False.elim)
        (fun _ => List.not_mem_nil) (List.forall_mem_nil _) ?_
      rw [List.append_nil]
      exact h.balance.same (fun _ => Iff.rfl) (fun _ => Iff.rfl) rfl
  | other hquiet hleaves =>
    obtain ⟨hstep, hlog⟩ := logged_eq_some.mp hs
    obtain ⟨st', l'⟩ := y
    obtain rfl : l' = x.2 ++ [] := by rw [show l' = x.2 ++ released c t x.1 a from hlog, hquiet]
    have hl := hleaves st' hstep
    have ho : SeenByOthers (fun _ => False) c t x.1 st' := by
      refine ⟨fun hactive => ?_, fun _ _ _ => ?_, completed_of_step hstep, hl.obtained, fun w => (hl.marked w).mpr,
        fun th _ => hl.stays th, fun th _ => hl.new th⟩
      · rw [hl.status] at hactive
        exact ⟨hactive, hl.connectionMemory hactive⟩
      · rw [hl.status]
        exact id
    refine h.of_outside ho (fun _ _ => False.elim) (fun _ _ => False.elim) hl.marked (fun _ => False.elim)
      (fun _ => List.not_mem_nil) (List.forall_mem_nil _) ?_
    rw [List.append_nil]
    exact h.balance.same hl.marked (fun th => ho.pending_iff id) hl.synchronizations

/-- **Released once.**  Let `c` be registered with the active transaction `t`, with no close of it begun: no wrapper
of `t` over `c` marked, no callback that closes `c`, no thread in either.  Let the wrappers be closed in any order and
any number of times while `t` is active, let `t` complete and its callbacks be run, with anything beside all this that
leaves it alone.  Then the plain connection has been closed exactly once, and after the completion, if and only if the
`close()` calls were all made on one wrapper. -/
theorem released_iff {context : TransactionContext Conn Txn} (hcontext : s.connectionMemory c = some context)
    (ht : context.transaction = t) (hunmarked : ∀ w, ¬ s.Marked c t w)
    (hnone : .closePlain c ∉ s.synchronizations t) (hidle : ∀ th, ¬ s.Releases c t th)
    (hrun : Runs (releaseStep c t) (ReleaseBeside c t) (s, []) u)
    (hended : ∀ th, ¬ u.1.Releases c t th) (hcalled : .closePlain c ∉ u.1.synchronizations t) :
    closings u.2 = [true] ↔ ∃ w, ∀ w', .asked w' ∈ u.2 ↔ w' = w := by
  have hstart : ReleaseInv c t ((s, []) : DsState Thread Conn Txn × List Release) := by
    refine ⟨fun _ => ⟨context.currentConnection, ?_⟩, fun th w hclosing => absurd (.inl ⟨w, hclosing⟩) (hidle th),
      fun th hplain => absurd (.inr hplain) (hidle th), fun _ => nofun, ⟨∅, ∅, fun w => ?_, fun th => ?_, ?_⟩, fun w => ?_⟩
    · rw [hcontext, ← ht]
    · exact iff_of_false (Finset.notMem_empty w) (hunmarked w)
    · exact iff_of_false (Finset.notMem_empty th) fun hpending => hidle th hpending.releases
    · simpa [closings] using List.count_eq_zero.mpr hnone
    · refine iff_of_false List.not_mem_nil ?_
      rintro (hmarked | ⟨th, hclosing⟩)
      · exact hunmarked w hmarked
      · exact hidle th (.inl ⟨w, hclosing⟩)
  have hinv := hrun.invariant hstart fun x a y h hbeside hs => h.step hbeside hs
  obtain ⟨marked, pending, hmarked, hpending, hcard⟩ := hinv.balance
  have hempty : pending = ∅ := Finset.eq_empty_of_forall_notMem fun th hmem => hended th ((hpending th).mp hmem).releases
  have hlength : (closings u.2).length = marked.card := by
    rw [← hcard, hempty, List.count_eq_zero.mpr hcalled]
    rfl
  have hasked : ∀ w, .asked w ∈ u.2 ↔ w ∈ marked := fun w => by
    rw [hinv.asked w, hmarked w]
    exact or_iff_left fun ⟨th, hclosing⟩ => hended th (.inl ⟨w, hclosing⟩)
  have hall : closings u.2 = List.replicate marked.card true := by
    rw [← hlength]
    exact List.eq_replicate_of_mem hinv.afterwards
  rw [hall, show [true] = List.replicate 1 true from rfl, List.replicate_left_inj, Finset.card_eq_one]
  refine exists_congr fun w => ?_
  rw [Finset.ext_iff]
  simp only [hasked, Finset.mem_singleton]

/-! ### Two runs in the small world -/

/-- The thread `true` calls `close` on the wrapper `w` and takes `n` steps of it. -/
def closes (w n : ℕ) : List (DsAction Bool Bool Unit) := .call true w .close :: List.replicate n (.step true .go)

/-- The transaction completes and runs the callback `1`, the first one behind `terminateTransaction`. -/
def completes : List (DsAction Bool Bool Unit) :=
  [.setStatus () .completed, .afterCompletion true () 1, .step true .go]

/-- The wrapper `0` is closed twice; the second close finds the flag set. -/
def closesOne : List (DsAction Bool Bool Unit) := closes 0 5 ++ closes 0 4 ++ completes

theorem released_iff_closesOne : ∃ u, exec (releaseStep false ()) (oneWrapped, []) closesOne = some u ∧
    closings u.2 = [true] := by
  have hbeside : Along (releaseStep false ()) (ReleaseBeside false ()) (oneWrapped, []) closesOne :=
    .cons rfl (.call rfl rfl) <| .cons rfl (.step ⟨rfl, rfl⟩) <| .cons rfl (.step ⟨rfl, rfl⟩) <|
      .cons rfl (.step ⟨rfl, rfl⟩) <| .cons rfl (.step ⟨rfl, rfl⟩) <| .cons rfl (.step ⟨rfl, rfl⟩) <|
        .cons rfl (.call rfl rfl) <| .cons rfl (.step ⟨rfl, rfl⟩) <| .cons rfl (.step ⟨rfl, rfl⟩) <|
          .cons rfl (.step ⟨rfl, rfl⟩) <| .cons rfl (.step ⟨rfl, rfl⟩) <|
            .cons rfl (.setStatus nofun fun _ th _ => by cases th <;> exact not_closing_of_pc rfl rfl) <|
              .cons rfl (.afterCompletion rfl) <| .cons rfl (.closePlain rfl) trivial
  have hunmarked : ∀ w, ¬ oneWrapped.Marked false () w := fun w => by
    match w with
    | 0 => exact nofun
    | w + 1 => exact nofun
  have hidle : ∀ th, ¬ oneWrapped.Releases false () th := fun th => by cases th <;> exact not_releases_of_idle rfl
  refine ⟨_, rfl, (released_iff rfl rfl hunmarked (by decide) hidle (Runs.of_along _ hbeside rfl) ?_ (by decide)).mpr ?_⟩
  · exact fun th => by cases th <;> exact not_releases_of_idle rfl
  · refine ⟨0, fun w => ⟨fun hasked => ?_, fun h => ?_⟩⟩
    · have hlog : (.asked w : Release) ∈ [.asked 0, .asked 0, .closed true] := hasked
      simpa using hlog
    · subst h
      exact List.mem_cons_self

/-- A second call of `getConnection` in the transaction has returned the wrapper `1` over the same connection. -/
def twoWrapped : DsState Bool Bool Unit := (exec step oneWrapped (looks true .plain ++ [.step true .go])).getD oneWrapped

/-- Both wrappers are closed. -/
def closesBoth : List (DsAction Bool Bool Unit) :=
  closes 0 5 ++ closes 1 5 ++ completes ++ [.afterCompletion true () 1, .step true .go]

/-- Each of the two callbacks closes the connection. -/
theorem not_released_once : ¬ ∀ (as : List (DsAction Bool Bool Unit)) (u : DsState Bool Bool Unit × List Release),
    Along (releaseStep false ()) (ReleaseBeside false ()) (twoWrapped, []) as →
      exec (releaseStep false ()) (twoWrapped, []) as = some u → (∀ th, ¬ u.1.Releases false () th) →
        .closePlain false ∉ u.1.synchronizations () → closings u.2 = [true] := by
  intro h
  have hbeside : Along (releaseStep false ()) (ReleaseBeside false ()) (twoWrapped, []) closesBoth :=
    .cons rfl (.call rfl rfl) <| .cons rfl (.step ⟨rfl, rfl⟩) <| .cons rfl (.step ⟨rfl, rfl⟩) <|
      .cons rfl (.step ⟨rfl, rfl⟩) <| .cons rfl (.step ⟨rfl, rfl⟩) <| .cons rfl (.step ⟨rfl, rfl⟩) <|
        .cons rfl (.call rfl rfl) <| .cons rfl (.step ⟨rfl, rfl⟩) <| .cons rfl (.step ⟨rfl, rfl⟩) <|
          .cons rfl (.step ⟨rfl, rfl⟩) <| .cons rfl (.step ⟨rfl, rfl⟩) <| .cons rfl (.step ⟨rfl, rfl⟩) <|
            .cons rfl (.setStatus nofun fun _ th _ => by cases th <;> exact not_closing_of_pc rfl rfl) <|
              .cons rfl (.afterCompletion rfl) <| .cons rfl (.closePlain rfl) <|
                .cons rfl (.afterCompletion rfl) <| .cons rfl (.closePlain rfl) trivial
  have honce := h closesBoth _ hbeside rfl (fun th => by cases th <;> exact not_releases_of_idle rfl) (by decide)
  exact absurd honce (by decide)

end DsState

end Dynamy.Services
