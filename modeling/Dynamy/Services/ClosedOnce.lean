import Dynamy.Services.Exclusive
import Dynamy.Services.Monitors

/-!
# Dynamy.Services.ClosedOnce — what callers must do to keep an enlisted connection

`Careful` is about the closes of plain connections, most of which the code makes itself.  Here is what is asked of the
others (`ClosedOnce`): each connection that was handed out is closed once, by one of its wrappers or its holder; no
wrapper is closed between the end of the active statuses and completion; a transaction does not complete during a call
in it; and `registerSynchronization` raises no `NullPointerException`.  The rest is the code's: a `close()` that found
its transaction active leaves the plain connection alone (`putsOff_of_judgedActive`), and every plain close is then
careful (`careful_of_closedOnce`).

At any time at most one thread or one callback is to close a connection (`Claim`), and finds it out of everybody's
hands when it does.
-/

namespace Dynamy.Services

open Dynamy.Java Dynamy.Lib

variable {Thread Conn Txn : Type}

/-! ### One connection -/

namespace Uses

variable {a b : Uses Thread Txn} {th : Thread} {r : Role Txn}

/-- Out of the pool, and with no call but those that return it in a transaction. -/
def Out (a : Uses Thread Txn) : Prop := a.pooled = false ∧ ∀ th, a.role th = .none ∨ ∃ t, a.role th = .inside t

/-- No transaction but `t` has to do with it. -/
def Only (a : Uses Thread Txn) (t : Txn) : Prop :=
  (∀ t', a.busy t' → t' = t) ∧ ∀ th t', a.role th = .inside t' → t' = t

/-- No transaction and no call has to do with it. -/
def Unused (a : Uses Thread Txn) : Prop := (∀ th, a.role th = .none) ∧ ∀ t, ¬ a.busy t

theorem Out.not_taken (h : a.Out) : a.role th ≠ .taken := by
  intro hth
  rcases h.2 th with hr | ⟨t, hr⟩ <;> rw [hr] at hth <;> cases hth

theorem Out.not_entered (h : a.Out) {t : Txn} : a.role th ≠ .entered t := by
  intro hth
  rcases h.2 th with hr | ⟨t, hr⟩ <;> rw [hr] at hth <;> cases hth

variable [DecidableEq Thread]

theorem out_setRole (hpooled : a.pooled = false) (hr : r = .none ∨ ∃ t, r = .inside t)
    (h : ∀ th', th' ≠ th → a.role th' = .none ∨ ∃ t, a.role th' = .inside t) : (a.setRole th r).Out :=
  ⟨hpooled, (forall_setRole (P := fun _ r => r = .none ∨ ∃ t, r = .inside t)).mpr ⟨hr, h⟩⟩

theorem only_setRole {t : Txn} (hr : ∀ t', r = .inside t' → t' = t)
    (h : ∀ th' t', th' ≠ th → a.role th' = .inside t' → t' = t) :
    ∀ th' t', (a.setRole th r).role th' = .inside t' → t' = t :=
  (forall_setRole (P := fun _ r => ∀ t', r = .inside t' → t' = t)).mpr ⟨hr, fun th' hne t' => h th' t' hne⟩

/-- **Out**: until it is closed, it stays out, and nobody comes to it but through the transactions that it is in. -/
theorem Step.out (h : Step a b) (ha : a.Out) (hb : b.pooled = false) :
    b.Out ∧ (∀ t, a.Only t → b.Only t) ∧ (a.Unused → b.Unused) := by
  cases h with
  | quiet hbusy =>
    exact ⟨ha, fun t ho => ⟨fun t' ht' => ho.1 t' (hbusy t' ht'), ho.2⟩,
      fun hu => ⟨hu.1, fun t ht => hu.2 t (hbusy t ht)⟩⟩
  | take hp => rw [ha.1] at hp; cases hp
  | drop _ hbusy =>
    refine ⟨out_setRole ha.1 (.inl rfl) fun th' _ => ha.2 th', fun t ho => ⟨fun t' ht' => ho.1 t' (hbusy t' ht'), ?_⟩,
      fun hu => ⟨?_, fun t ht => hu.2 t (hbusy t ht)⟩⟩
    · exact only_setRole (fun _ => nofun) fun th' t' _ => ho.2 th' t'
    · exact (forall_setRole (P := fun _ r => r = .none)).mpr ⟨rfl, fun th' _ => hu.1 th'⟩
  | release hth => exact absurd hth ha.not_taken
  | close => cases hb
  | enter hth => exact absurd hth ha.not_taken
  | register hth => exact absurd hth ha.not_entered
  | present hth => exact absurd hth ha.not_taken
  | @hit th t hth hbusy =>
    refine ⟨out_setRole ha.1 (.inr ⟨t, rfl⟩) fun th' _ => ha.2 th', fun t' ho => ⟨ho.1, ?_⟩,
      fun hu => absurd hbusy (hu.2 t)⟩
    refine only_setRole (fun t'' heq => ?_) fun th' t'' _ => ho.2 th' t''
    cases heq
    exact ho.1 t hbusy
  | @enlist th t busy hth hbusy =>
    refine ⟨ha, fun t' ho => ⟨fun t'' ht'' => ?_, ho.2⟩, fun hu => ?_⟩
    · rcases hbusy t'' ht'' with hold | rfl
      · exact ho.1 t'' hold
      · exact ho.2 th t'' hth
    · rw [hu.1] at hth
      cases hth

/-- Once it is out again, only the transaction has to do with it in which a thread went on with it. -/
theorem Step.only (h : Step a b) (hplace : Place a) (hb : b.Out) {t : Txn} (hkeep : a.Out → a.Only t)
    (hgoes : ∀ th t', a.role th = .taken ∨ a.role th = .entered t' → b.role th = .inside t' → t' = t) : b.Only t := by
  by_cases ha : a.Out
  · exact (h.out ha hb.1).2.1 t (hkeep ha)
  cases h with
  | quiet => exact absurd ⟨hb.1, hb.2⟩ ha
  | take => exact absurd (setRole_self ..) hb.not_taken
  | @drop th busy hdrop hbusy =>
    have hth : a.role th = .taken := by
      by_contra hne
      refine ha ⟨hb.1, fun th' => ?_⟩
      by_cases hth : th' = th
      · subst hth
        cases hr : a.role th' with
        | none => exact .inl rfl
        | taken => exact absurd hr hne
        | entered t' => exact absurd hr (hdrop t')
        | inside t' => exact .inr ⟨t', rfl⟩
      · exact setRole_ne (a := a) .none hth ▸ hb.2 th'
    obtain ⟨-, hr, hnone⟩ := hplace.of_taken hth
    refine ⟨fun t' ht' => absurd (hbusy t' ht') (hnone t'), only_setRole (fun _ => nofun) fun th' t' hne hth' => ?_⟩
    rw [hr th' hne] at hth'
    cases hth'
  | release => cases hb.1
  | close => cases hb.1
  | enter => exact absurd (setRole_self ..) hb.not_entered
  | @register th t' hth =>
    obtain rfl := hgoes th t' (.inr hth) (setRole_self ..)
    obtain ⟨-, hr, hbusy⟩ := hplace.of_entered hth
    refine ⟨hbusy, only_setRole (fun t'' heq => by cases heq; rfl) fun th' t'' hne hth' => ?_⟩
    rcases hr th' hne with hr | hr <;> rw [hr] at hth' <;> cases hth'
    rfl
  | @present th t' hth =>
    obtain rfl := hgoes th t' (.inl hth) (setRole_self ..)
    obtain ⟨-, hr, hbusy⟩ := hplace.of_taken hth
    refine ⟨fun t'' ht'' => absurd ht'' (hbusy t''), only_setRole (fun t'' heq => by cases heq; rfl)
      fun th' t'' hne hth' => ?_⟩
    rw [hr th' hne] at hth'
    cases hth'
  | @hit th t' hth =>
    refine absurd ⟨hb.1, fun th' => ?_⟩ ha
    by_cases heq : th' = th
    · exact .inl (heq ▸ hth)
    · exact setRole_ne (a := a) (.inside t') heq ▸ hb.2 th'
  | enlist => exact absurd ⟨hb.1, hb.2⟩ ha

end Uses

/-! ### The points of a call -/

def Purpose.transaction : Purpose Txn → Option Txn
  | .outside => none
  | .inside _ t => some t

/-- The transaction that a call of `getConnection` is in, once it has been found active. -/
def Pc.within : Pc Conn Txn → Option Txn
  | .lookup _ t | .hit t _ | .enter t => some t
  | .checkout p _ | .swap p _ _ | .containsKey p _ | .owner p _ | .isActive p _ _ => p.transaction
  | .removeTransaction _ _ (.free p) | .removeConnection _ _ (.free p) => p.transaction
  | .acquire _ t | .recheck _ t | .putTransaction _ t | .putConnection _ t => some t
  | .enlistResource _ t | .synchronize _ t | .leave _ t => some t
  | _ => none

/-- The search has seen that no transaction has the connection. -/
def Pc.Checked (c : Conn) : Pc Conn Txn → Prop
  | .give c' | .acquire c' _ | .recheck c' _ | .putTransaction c' _ | .putConnection c' _ => c' = c
  | _ => False

/-- In a `close()` of the wrapper `w` that puts the plain close off to the end of the transaction, or after it. -/
def Pc.PutsOff (w : ℕ) : Pc Conn Txn → Prop
  | .idle => True
  | .closeOwner w' | .closeOnce w' _ | .closeLater w' _ => w' = w
  | _ => False

/-- On the way to a plain close of `c`. -/
def Pc.Closes (plainOf : ℕ → Option Conn) (c : Conn) (pc : Pc Conn Txn) : Prop :=
  (∃ w, pc.inCall = some (w, .close) ∧ plainOf w = some c) ∨ pc = .closePlain c

section Points

variable {st : DsState Thread Conn Txn} {pc pc' : Pc Conn Txn} {answer : Answer Conn} {e : Effect Conn Txn} {c : Conn}
  {t : Txn} {th : Thread}

theorem within_of_inCall {w : ℕ} {call : Call} (h : pc.inCall = some (w, call)) : pc.within = none := by
  cases pc <;> first | rfl | cases h

theorem not_checked_of_inCall {w : ℕ} {call : Call} (h : pc.inCall = some (w, call)) : ¬ pc.Checked c := by
  cases pc <;> first | exact id | cases h

theorem role_of_inCall [DecidableEq Conn] {w : ℕ} {call : Call} (h : pc.inCall = some (w, call)) :
    pc.role c = .none := by
  cases pc <;> first | rfl | cases h

theorem found_within (p : Purpose Txn) (c : Conn) : (p.found c).within = p.transaction := by
  cases p with
  | outside => rfl
  | inside o t => cases o <;> rfl

theorem found_checked {p : Purpose Txn} {c' : Conn} (h : (p.found c').Checked c) : c' = c := by
  rcases found_cases p c' with heq | ⟨t, heq | heq⟩ <;> rw [heq] at h <;> exact h

/-- A call gets into a transaction that it finds active. -/
theorem OwnStep.within (h : OwnStep st pc answer pc' e) (ht : pc'.within = some t) :
    pc.within = some t ∨ (st.status t).isActive := by
  cases h with
  | current hactive =>
    cases ht
    exact .inr hactive
  | takes =>
    refine .inl (Eq.trans ?_ ht)
    cases ‹Option Conn› <;> rfl
  | unregistered => exact .inl ((found_within _ _).symm.trans ht)
  | @removesConnection c' t' k =>
    cases k with
    | free p => exact .inl ((found_within p c').symm.trans ht)
    | callback => cases ht
  | @removesTransaction c' t' k =>
    cases k with
    | free p => exact .inl ht
    | callback => cases ht
  | outside => cases ht
  | hit => cases ht
  | vanished => cases ht
  | gives => cases ht
  | leaves => cases ht
  | closesPlain => cases ht
  | raises => cases ht
  | _ => exact .inl ht

theorem OwnStep.not_closePlain (h : OwnStep st pc answer pc' e) : pc' ≠ .closePlain c := by
  have hfound : ∀ (p : Purpose Txn) (c' : Conn), p.found c' ≠ .closePlain c := fun p c' => by
    rcases found_cases p c' with h | ⟨t, h | h⟩ <;> rw [h] <;> exact nofun
  cases h with
  | takes => cases ‹Option Conn› <;> exact nofun
  | unregistered => exact hfound _ _
  | @removesConnection c' t k =>
    cases k with
    | free p => exact hfound p c'
    | callback => exact nofun
  | _ => exact nofun

variable [DecidableEq Conn]

theorem eq_of_towards {c' : Conn} {r r' : Role Txn} (h : r.towards c c' = r') (hr : r' ≠ .none) : r = r' ∧ c' = c := by
  unfold Role.towards at h
  split_ifs at h with hc
  · exact ⟨h, hc⟩
  · exact absurd h.symm hr

theorem within_of_role (h : pc.role c = .inside t) : pc.within = some t := by
  have hinside : ∀ {t' : Txn} {c' : Conn}, (Role.inside t').towards c c' = .inside t → some t' = some t := fun h => by
    cases (eq_of_towards h nofun).1
    rfl
  have htaken : ∀ {c' : Conn}, (Role.taken : Role Txn).towards c c' ≠ .inside t := fun h => by
    cases (eq_of_towards h nofun).1
  cases pc with
  | hit | enlistResource | synchronize | leave => exact hinside h
  | putConnection => cases (eq_of_towards h nofun).1
  | swap p conn1 conn =>
    simp only [Pc.role] at h
    split_ifs at h
  | checkout p conn1 =>
    cases conn1 with
    | none => cases h
    | some c' => exact absurd h htaken
  | removeTransaction c' t' k | removeConnection c' t' k =>
    cases k with
    | free p => exact absurd h htaken
    | callback => cases h
  | _ => first | cases h | exact absurd h htaken

/-- Who goes on with a connection from the pool in a transaction has seen that it belongs to none. -/
theorem OwnStep.unregistered_of_inside [DecidableEq Txn] (h : OwnStep st pc answer pc' e)
    (hchecked : pc.Checked c → st.connectionMemory c = none) (htaken : pc.role c = .taken)
    (hinside : pc'.role c = .inside t) : (st.apply th e).connectionMemory c = none := by
  have hno : ∀ {c' : Conn}, (Role.taken : Role Txn).towards c c' ≠ .inside t := fun h => by
    cases (eq_of_towards h (by simp)).1
  cases h with
  | @takes p conn1 c' =>
    cases conn1 with
    | none => exact absurd hinside hno
    | some conn1 =>
      simp only [DsState.checkoutNext, Pc.role] at hinside
      split_ifs at hinside
  | unregistered =>
    rw [role_found] at hinside
    exact absurd hinside hno
  | @removesConnection c' t' k =>
    cases k with
    | free p =>
      rw [AfterTerminate.next, role_found] at hinside
      exact absurd hinside hno
    | callback => cases hinside
  | @removesTransaction c' t' k =>
    cases k with
    | free p => exact absurd hinside hno
    | callback => cases hinside
  | present => exact hchecked (eq_of_towards htaken (by simp)).2
  | putsTransaction => cases (eq_of_towards hinside (by simp)).1
  | putsConnection | enlists | refused | synchronizes => cases (eq_of_towards htaken (by simp)).1
  | found => cases htaken
  | _ => first | cases hinside | exact absurd hinside hno

theorem OwnStep.checked [DecidableEq Txn] (h : OwnStep st pc answer pc' e)
    (hbefore : pc.Checked c → st.connectionMemory c = none) (hc : pc'.Checked c) :
    (st.apply th e).connectionMemory c = none := by
  cases h with
  | takes => cases ‹Option Conn› <;> cases hc
  | unregistered hnone =>
    rw [found_checked hc, Option.not_isSome_iff_eq_none] at hnone
    exact hnone
  | @removesConnection c' t k =>
    cases k with
    | free p =>
      rw [← found_checked hc]
      exact Function.update_self ..
    | callback => cases hc
  | acquires => exact hbefore hc
  | absent => exact hbefore hc
  | putsTransaction => exact hbefore hc
  | _ => cases hc

end Points

namespace DsState

/-! ### Who closes -/

section Closers

variable [DecidableEq Conn]

/-- `th` is on its way to a plain close of `c`. -/
def Closes (st : DsState Thread Conn Txn) (c : Conn) (th : Thread) : Prop := (st.pc th).Closes st.plainOf c

/-- The callbacks of `t` that close `c`. -/
def deferred (st : DsState Thread Conn Txn) (c : Conn) (t : Txn) : ℕ := (st.synchronizations t).count (.closePlain c)

/-- Out of the pool, not in the hands of a search, and nobody closes it or is to close it. -/
structure Unclaimed (st : DsState Thread Conn Txn) (c : Conn) : Prop where
  out : (st.uses c).Out
  threads : ∀ th, ¬ st.Closes c th
  callbacks : ∀ t, st.deferred c t = 0

/-- `isTransactionActive` says of `t` what it is asked for. -/
def JudgedRight (st : DsState Thread Conn Txn) (t : Txn) : Prop := (st.status t).isActive ∨ st.status t = .completed

/-- A `close()` that is under way depends on what `isTransactionActive` is going to say of `t`. -/
def Judges (st : DsState Thread Conn Txn) (t : Txn) (th : Thread) : Prop :=
  (∃ w, st.pc th = .guarded w .close t) ∨ ∃ w c x, st.pc th = .inTransaction w .close ∧ st.plainOf w = some c ∧
    st.connectionMemory c = some x ∧ x.transaction = t

/-- What is asked of the callers, the transactions and the transaction manager. -/
def ClosedOnce (st : DsState Thread Conn Txn) : DsAction Thread Conn Txn → Prop
  | .setStatus t status => (status = .completed → ∀ th, (st.pc th).within ≠ some t) ∧
      (¬ status.isActive → ∀ th, ¬ st.Judges t th)
  | .call _ w .close => ∀ c, st.plainOf w = some c → st.Unclaimed c ∧
      ∀ x, st.connectionMemory c = some x → st.JudgedRight x.transaction
  | .closeLent c => st.Unclaimed c ∧ st.Releasable c
  | .step th (.raises e) => ∀ w t, st.pc th = .closeLater w t → e.cls ≠ .nullPointer
  | _ => True

/-! ### The invariant -/

/-- How far a close of `c` has come, and what it relies on. -/
def CloseCourse (st : DsState Thread Conn Txn) (c : Conn) : Pc Conn Txn → Prop
  | .inTransaction _ _ => ∀ x, st.connectionMemory c = some x → st.JudgedRight x.transaction
  | .guarded _ _ t => st.JudgedRight t ∧ (st.uses c).Only t
  | .closeOnce _ t | .closeLater _ t => (st.uses c).Only t
  | .plainCall _ _ | .closePlain _ => (st.uses c).Unused
  | _ => True

/-- Nobody is to close `c`, or one thread, or one callback. -/
inductive Claim (st : DsState Thread Conn Txn) (c : Conn) : Prop
  | free (hth : ∀ th, ¬ st.Closes c th) (ht : ∀ t, st.deferred c t = 0)
  | thread (th : Thread) (hout : (st.uses c).Out) (hcourse : st.CloseCourse c (st.pc th))
      (hth : ∀ th', st.Closes c th' → th' = th) (ht : ∀ t, st.deferred c t = 0)
  | callback (t : Txn) (hout : (st.uses c).Out) (honly : (st.uses c).Only t) (hth : ∀ th, ¬ st.Closes c th)
      (ht : ∀ t', t' ≠ t → st.deferred c t' = 0) (hone : st.deferred c t = 1)

structure OnceInv (st : DsState Thread Conn Txn) : Prop where
  apart : st.Apart
  place : ∀ c, (st.uses c).Place
  calls : st.CallsExist
  within : ∀ th t, (st.pc th).within = some t → st.status t ≠ .completed
  checked : ∀ th c, (st.pc th).Checked c → st.connectionMemory c = none
  owned : ∀ c x, (st.uses c).Out → st.connectionMemory c = some x → (st.uses c).Only x.transaction
  claim : ∀ c, st.Claim c

end Closers

/-! ### Steps -/

variable {st st' : DsState Thread Conn Txn} {th : Thread} {c : Conn} {t : Txn} {a : DsAction Thread Conn Txn}
  {answer : Answer Conn} {pc' : Pc Conn Txn} {e : Effect Conn Txn}

section

variable [DecidableEq Conn]

/-- The thread that closes `c` is the only one, and no callback does. -/
theorem Claim.of_closes (h : st.Claim c) (hth : st.Closes c th) : (st.uses c).Out ∧ st.CloseCourse c (st.pc th) ∧
    (∀ th', st.Closes c th' → th' = th) ∧ ∀ t, st.deferred c t = 0 := by
  cases h with
  | free hnone => exact absurd hth (hnone th)
  | thread th' hout hcourse hone ht =>
    rw [hone th hth]
    exact ⟨hout, hcourse, hone, ht⟩
  | callback _ _ _ hnone => exact absurd hth (hnone th)

omit [DecidableEq Conn] in
theorem closes_of_inCall {w : ℕ} (hin : (st.pc th).inCall = some (w, .close)) (hw : st.plainOf w = some c) :
    st.Closes c th := .inl ⟨w, hin, hw⟩

/-- **Plain closes**, and lookups, are careful. -/
theorem OnceInv.careful (h : st.OnceInv) (hok : st.ClosedOnce a) : st.Careful a := by
  cases a with
  | closeLent c => exact hok.2
  | step th answer =>
    cases hpc : st.pc th with
    | lookup o t =>
      simp only [Careful, hpc]
      exact h.within th t (by rw [hpc]; rfl)
    | plainCall w call =>
      cases call with
      | close =>
        simp only [Careful, hpc]
        intro wrapper hw
        have hcloses : st.Closes wrapper.plainConn th :=
          closes_of_inCall (by rw [hpc]; rfl) (by rw [plainOf, hw]; rfl)
        have hcourse := ((h.claim _).of_closes hcloses).2.1
        rw [hpc] at hcourse
        exact hcourse
      | _ => simp only [Careful, hpc]
    | closePlain c =>
      simp only [Careful, hpc]
      have hcourse := ((h.claim c).of_closes (show st.Closes c th from .inr hpc)).2.1
      rw [hpc] at hcourse
      exact hcourse
    | _ => simp only [Careful, hpc]
  | _ => trivial

theorem CloseCourse.mono (h : st.CloseCourse c (st.pc th)) (hth : st.Closes c th)
    (hmem : ∀ x, st'.connectionMemory c = some x → st.connectionMemory c = some x)
    (hjudged : ∀ t, st.Judges t th → st.JudgedRight t → st'.JudgedRight t)
    (honly : ∀ t, (st.uses c).Only t → (st'.uses c).Only t) (hunused : (st.uses c).Unused → (st'.uses c).Unused) :
    st'.CloseCourse c (st.pc th) := by
  rcases hth with ⟨w, hin, hw⟩ | hpc
  · cases hpc : st.pc th with
    | inTransaction w' call =>
      rw [hpc] at h hin
      cases hin
      exact fun x hx => hjudged _ (.inr ⟨w, c, x, hpc, hw, hmem x hx, rfl⟩) (h x (hmem x hx))
    | guarded w' call t =>
      rw [hpc] at h hin
      cases hin
      exact ⟨hjudged t (.inl ⟨w, hpc⟩) h.1, honly t h.2⟩
    | closeOnce w' t =>
      rw [hpc] at h
      exact honly t h
    | closeLater w' t =>
      rw [hpc] at h
      exact honly t h
    | plainCall w' call =>
      rw [hpc] at h
      exact hunused h
    | closePlain c' =>
      rw [hpc] at hin
      cases hin
    | _ => exact trivial
  · rw [hpc] at h ⊢
    exact hunused h

end

section

variable [DecidableEq Conn] [DecidableEq Thread]

/-- A step that closes `c` no more and no less than before, and takes no connection back. -/
theorem Claim.frame (h : st.Claim c) (hstep : (st.uses c).Step (st'.uses c))
    (hpooled : (st.uses c).Out → st'.pooled c = false) (hcloses : ∀ th, st'.Closes c th ↔ st.Closes c th)
    (hpc : ∀ th, st.Closes c th → st'.pc th = st.pc th)
    (hmem : (st.uses c).Out → ∀ x, st'.connectionMemory c = some x → st.connectionMemory c = some x)
    (hjudged : ∀ th t, st.Judges t th → st.JudgedRight t → st'.JudgedRight t)
    (hdeferred : ∀ t, st'.deferred c t = st.deferred c t) : st'.Claim c := by
  cases h with
  | free hth ht => exact .free (fun th h => hth th ((hcloses th).mp h)) fun t => (hdeferred t).trans (ht t)
  | thread th hout hcourse hth ht =>
    obtain ⟨hout', honly, hunused⟩ := hstep.out hout (hpooled hout)
    by_cases hcl : st.Closes c th
    · refine .thread th hout' ?_ (fun th' h => hth th' ((hcloses th').mp h)) fun t => (hdeferred t).trans (ht t)
      rw [hpc th hcl]
      exact hcourse.mono hcl (hmem hout) (hjudged th) honly hunused
    · refine .free (fun th' h => hcl ?_) fun t => (hdeferred t).trans (ht t)
      have hth' := (hcloses th').mp h
      exact hth th' hth' ▸ hth'
  | callback t hout honly hth ht hone =>
    obtain ⟨hout', hkeeps, -⟩ := hstep.out hout (hpooled hout)
    exact .callback t hout' (hkeeps t honly) (fun th h => hth th ((hcloses th).mp h))
      (fun t' ht' => (hdeferred t').trans (ht t' ht')) ((hdeferred t).trans hone)

variable [DecidableEq Txn]

omit [DecidableEq Thread] in
/-- Every wrapper keeps its connection. -/
theorem plainOf_apply {w : ℕ} (e : Effect Conn Txn) (hw : w < st.wrappers.length) :
    (st.apply th e).plainOf w = st.plainOf w := by
  cases e with
  | setClosed w' => exact map_wrapper_setClosed (fun _ => rfl) st th w' w
  | returnWrapper t c release =>
    cases release <;> exact congrArg (Option.map _) (List.getElem?_append_left hw)
  | raise x release called => cases release <;> rfl
  | _ => rfl

theorem closes_of_ne {th' : Thread} (hcalls : st.CallsExist) (hne : th' ≠ th) :
    ((st.apply th e).setPc th pc').Closes c th' ↔ st.Closes c th' := by
  have hpc : ((st.apply th e).setPc th pc').pc th' = st.pc th' := by rw [setPc_of_ne hne, apply_pc]
  show Pc.Closes (st.apply th e).plainOf c _ ↔ _
  rw [hpc]
  refine or_congr_left (exists_congr fun w => and_congr_right fun hin => ?_)
  rw [plainOf_apply e (hcalls th' w .close hin)]

omit [DecidableEq Thread] in
/-- A connection that is out goes back to the pool by a close that somebody is on the way to. -/
theorem pooled_of_out (hfrom : EffectFrom st (st.pc th) pc' e) (hout : (st.uses c).Out) (hcl : ¬ st.Closes c th) :
    (st.apply th e).pooled c = false := by
  cases e with
  | checkout c' =>
    show Function.update st.pooled c' false c = false
    by_cases hc : c = c'
    · rw [hc, Function.update_self]
    · rw [Function.update_of_ne hc]
      exact hout.1
  | plainCall c' call =>
    show (if call = .close then Function.update st.pooled c' true else st.pooled) c = false
    split_ifs with hcall
    · by_cases hc : c = c'
      · subst hc
        rcases hfrom with ⟨p, conn, hpc, -⟩ | ⟨w, wrapper, hpc, -, hw, hplain⟩ | ⟨hpc, -⟩
        · have hrole : (st.uses c).role th = .taken := by simp [uses, hpc, Pc.role]
          exact absurd hrole hout.not_taken
        · refine absurd (closes_of_inCall (w := w) (by rw [hpc, hcall]; rfl) ?_) hcl
          rw [plainOf, hw, ← hplain]
          rfl
        · exact absurd (.inr hpc) hcl
      · rw [Function.update_of_ne hc]
        exact hout.1
    · exact hout.1
  | returnWrapper t c' release => cases release <;> exact hout.1
  | raise x release called => cases release <;> exact hout.1
  | _ => exact hout.1

omit [DecidableEq Thread] in
/-- A connection that is out is not registered anew. -/
theorem connectionMemory_of_out (hfrom : EffectFrom st (st.pc th) pc' e) (hout : (st.uses c).Out)
    {x : TransactionContext Conn Txn} (hx : (st.apply th e).connectionMemory c = some x) :
    st.connectionMemory c = some x := by
  cases e with
  | putConnection t c' =>
    have hc : c ≠ c' := by
      rintro rfl
      have hrole : (st.uses c).role th = .entered t := by simp [uses, hfrom.1, Pc.role, Role.towards]
      exact hout.not_entered hrole
    exact (Function.update_of_ne hc ..).symm.trans hx
  | removeConnection c' =>
    have hc : c ≠ c' := by
      rintro rfl
      have hgone : (st.apply th (.removeConnection c)).connectionMemory c = none := Function.update_self ..
      rw [hgone] at hx
      cases hx
    exact (Function.update_of_ne hc ..).symm.trans hx
  | returnWrapper t c' release => cases release <;> exact hx
  | raise x release called => cases release <;> exact hx
  | _ => exact hx

omit [DecidableEq Thread] in
/-- Only a `close()` puts off a close. -/
theorem OnceInv.deferred_apply (h : st.OnceInv) (hinstr : st.instr (st.pc th) answer = some (pc', e))
    (hcl : ¬ st.Closes c th) (t : Txn) : (st.apply th e).deferred c t = st.deferred c t := by
  have hother : ∀ t' s, s ≠ .closePlain c →
      (st.apply th (.registerSynchronization t' s)).deferred c t = st.deferred c t := by
    intro t' s hs
    show (Function.update st.synchronizations t' (st.synchronizations t' ++ [s]) t).count (.closePlain c) = _
    by_cases ht : t = t'
    · subst ht
      rw [Function.update_self, List.count_append, List.count_singleton, beq_eq_false_iff_ne.mpr hs]
      rfl
    · rw [Function.update_of_ne ht]
      rfl
  rcases h.calls.cases hinstr with hown | ⟨w, call, wrapper, hin, hw, hwrapper⟩
  · generalize st.pc th = pc at hown
    cases hown with
    | synchronizes => exact hother _ _ nofun
    | raises => cases pc.release <;> rfl
    | @vanished p => cases p.monitor <;> rfl
    | _ => rfl
  · generalize hpc : st.pc th = pc at hwrapper hin
    cases hwrapper with
    | schedules =>
      refine hother _ _ fun heq => hcl ?_
      cases heq
      exact closes_of_inCall (by rw [hpc]; rfl) (by rw [plainOf, hw]; rfl)
    | _ => rfl

/-- A thread that closes nothing moves on. -/
theorem OnceInv.claim_other (h : st.OnceInv) (hinstr : st.instr (st.pc th) answer = some (pc', e))
    (hstep : (st.uses c).Step (((st.apply th e).setPc th pc').uses c)) (hcl : ¬ st.Closes c th) :
    ((st.apply th e).setPc th pc').Claim c := by
  have hfrom := instr_effect hinstr
  have hafter : ¬ ((st.apply th e).setPc th pc').Closes c th := by
    intro hth
    have hth : Pc.Closes (st.apply th e).plainOf c pc' := by rwa [Closes, setPc_self] at hth
    rcases h.calls.cases hinstr with hown | ⟨w, call, wrapper, hin, -, hwrapper⟩
    · rcases hth with ⟨w, hin, -⟩ | hpc
      · rw [hown.inCall] at hin
        cases hin
      · exact hown.not_closePlain hpc
    · rw [(hwrapper.frame th).2.2] at hth
      rcases hwrapper.inCall with hsame | rfl
      · rcases hth with ⟨w', hin', hw'⟩ | rfl
        · exact hcl (closes_of_inCall (hsame ▸ hin') hw')
        · rw [hin] at hsame
          cases hsame
      · rcases hth with ⟨w', hin', -⟩ | hpc
        · cases hin'
        · cases hpc
  have hne : ∀ th', st.Closes c th' → th' ≠ th := fun th' hth' heq => hcl (heq ▸ hth')
  refine (h.claim c).frame hstep (fun hout => pooled_of_out hfrom hout hcl) (fun th' => ?_) (fun th' hth' => ?_)
    (fun hout x hx => connectionMemory_of_out hfrom hout hx) (fun th' t _ hright => ?_) fun t => ?_
  · by_cases hth : th' = th
    · rw [hth]
      exact iff_of_false hafter hcl
    · exact closes_of_ne h.calls hth
  · rw [setPc_of_ne (hne th' hth'), apply_pc]
  · show (Status.isActive ((st.apply th e).status t)) ∨ (st.apply th e).status t = .completed
    rw [apply_status]
    exact hright
  · exact h.deferred_apply hinstr hcl t

omit [DecidableEq Conn] [DecidableEq Thread] [DecidableEq Txn] in
theorem not_closes_of_idle (hpc : st.pc th = .idle) : ¬ st.Closes c th := by
  rintro (⟨w, hin, -⟩ | hclose)
  · rw [hpc] at hin
    cases hin
  · cases hpc.symm.trans hclose

omit [DecidableEq Thread] [DecidableEq Txn] in
/-- When its only transaction has completed, nobody has to do with the connection. -/
theorem OnceInv.unused (h : st.OnceInv) (hout : (st.uses c).Out) (honly : (st.uses c).Only t)
    (ht : st.status t = .completed) : (st.uses c).Unused := by
  refine ⟨fun th => (hout.2 th).resolve_right ?_, fun t' ht' => ?_⟩
  · rintro ⟨t', hth⟩
    obtain rfl := honly.2 th t' hth
    exact h.within th t' (within_of_role hth) ht
  · obtain rfl := honly.1 t' ht'
    exact ht'.2 ht

/-- A thread on its way to close `c` moves on. -/
theorem OnceInv.claim_own (h : st.OnceInv) (hok : st.ClosedOnce (.step th answer))
    (hinstr : st.instr (st.pc th) answer = some (pc', e))
    (hstep : (st.uses c).Step (((st.apply th e).setPc th pc').uses c)) (hcl : st.Closes c th) :
    ((st.apply th e).setPc th pc').Claim c := by
  obtain ⟨hout, hcourse, hone, hdeferred⟩ := (h.claim c).of_closes hcl
  have hothers : ∀ th', ((st.apply th e).setPc th pc').Closes c th' → th' = th := by
    intro th' hth'
    by_contra hne
    exact hne (hone th' ((closes_of_ne h.calls hne).mp hth'))
  have hnobody : pc' = .idle → ∀ th', ¬ ((st.apply th e).setPc th pc').Closes c th' := by
    intro hpc th' hth'
    obtain rfl := hothers th' hth'
    exact not_closes_of_idle (setPc_self ..) (hpc ▸ hth')
  -- the close ends, or goes on in this thread
  have hends : pc' = .idle → (∀ t, (st.apply th e).deferred c t = 0) → ((st.apply th e).setPc th pc').Claim c :=
    fun hpc hd => .free (hnobody hpc) hd
  have hgoes : (st.apply th e).pooled c = false → (∀ t, (st.apply th e).deferred c t = 0) →
      ((∀ t, (st.uses c).Only t → (((st.apply th e).setPc th pc').uses c).Only t) →
        ((st.uses c).Unused → (((st.apply th e).setPc th pc').uses c).Unused) →
          ((st.apply th e).setPc th pc').CloseCourse c pc') → ((st.apply th e).setPc th pc').Claim c := by
    intro hpooled hd hnext
    obtain ⟨hout', honly, hunused⟩ := hstep.out hout hpooled
    refine .thread th hout' ?_ hothers hd
    rw [setPc_self]
    exact hnext honly hunused
  rcases hcl with ⟨w, hin, hplain⟩ | hpc
  · obtain ⟨wrapper, hw, rfl⟩ := Option.map_eq_some_iff.mp hplain
    have hwrapper := wrapperStep_of_instr hw hin hinstr
    generalize hpc : st.pc th = pc at hwrapper hin hcourse
    cases hwrapper with
    | @registered call context hcontext =>
      exact hgoes hout.1 hdeferred fun honly _ => ⟨hcourse context hcontext, honly _ (h.owned _ _ hout hcontext)⟩
    | unregistered => exact hends rfl hdeferred
    | refuses _ hcall =>
      cases hin
      exact absurd rfl hcall
    | defers => exact hgoes hout.1 hdeferred fun _ _ => trivial
    | passes hnot =>
      have hunused := h.unused hout hcourse.2 (hcourse.1.resolve_left hnot)
      exact hgoes hout.1 hdeferred fun _ hkeeps => hkeeps hunused
    | statusRaises => exact hends rfl hdeferred
    | owned hcontext => exact hgoes hout.1 hdeferred fun honly _ => honly _ (h.owned _ _ hout hcontext)
    | disowned => exact hends rfl hdeferred
    | ignored => exact hends rfl hdeferred
    | wins => exact hgoes hout.1 hdeferred fun honly _ => honly _ hcourse
    | @schedules t =>
      obtain ⟨hout', honly, -⟩ := hstep.out hout hout.1
      refine .callback t hout' (honly t hcourse) (hnobody rfl) (fun t' ht' => ?_) ?_
      · show (Function.update st.synchronizations t _ t').count _ = 0
        rw [Function.update_of_ne ht']
        exact hdeferred t'
      · show (Function.update st.synchronizations t _ t).count _ = 1
        rw [Function.update_self, List.count_append, List.count_singleton_self]
        exact congrArg (· + 1) (hdeferred t)
    | retries hx => exact absurd hx (hok w _ hpc)
    | registrationRaises => exact hends rfl hdeferred
    | reaches => exact hends rfl hdeferred
    | plainRaises => exact hends rfl hdeferred
  · have hown := ownStep_of_instr (by rw [hpc]; rfl) hinstr
    rw [hpc] at hown
    cases hown with
    | closesPlain => exact hends rfl hdeferred
    | raises => exact hends rfl hdeferred

omit [DecidableEq Thread] [DecidableEq Txn] in
theorem role_of_checked {pc : Pc Conn Txn} (h : pc.Checked c) : pc.role c = .taken ∨ ∃ t, pc.role c = .entered t := by
  cases pc with
  | give c' | acquire c' t | recheck c' t | putTransaction c' t =>
    obtain rfl := h
    exact .inl (if_pos rfl)
  | putConnection c' t =>
    obtain rfl := h
    exact .inr ⟨t, if_pos rfl⟩
  | _ => cases h

/-- What a thread may start with. -/
inductive Starts (pc : Pc Conn Txn) : Prop
  | getConnection {o : Overload} {transaction : Option Txn} (h : pc = .current o transaction)
  | call {w : ℕ} {call : Call} (h : pc = call.entry w)
  | callback {s : Synchronization Conn} {t : Txn} (h : pc = s.entry t)

/-- **A thread**, seen over any step. -/
theorem pc_of_step (hs : st.step a = some st') (th : Thread) : st'.pc th = st.pc th ∨
    (st.pc th = .idle ∧ Starts (st'.pc th)) ∨
    ∃ answer pc e, a = .step th answer ∧ st.instr (st.pc th) answer = some (pc, e) ∧
      st' = (st.apply th e).setPc th pc := by
  have hstarts : ∀ (st₁ : DsState Thread Conn Txn) {th₁ pc}, st₁.pc = st.pc → st.pc th₁ = .idle → Starts pc →
      (st₁.setPc th₁ pc).pc th = st.pc th ∨ (st.pc th = .idle ∧ Starts ((st₁.setPc th₁ pc).pc th)) := by
    intro st₁ th₁ pc hpc hidle hstart
    by_cases hth : th = th₁
    · subst hth
      rw [setPc_self]
      exact .inr ⟨hidle, hstart⟩
    · rw [setPc_of_ne hth, hpc]
      exact .inl rfl
  cases steps_of_step hs with
  | setStatus => exact .inl rfl
  | getConnection hidle => exact (hstarts st rfl hidle (.getConnection rfl)).imp_right .inl
  | call hidle => exact (hstarts st rfl hidle (.call rfl)).imp_right .inl
  | @afterCompletion th₁ t i s hidle =>
    exact (hstarts (st.runSynchronization t i) rfl hidle (.callback rfl)).imp_right .inl
  | closeLent => exact .inl rfl
  | @step th₁ answer pc e hinstr =>
    by_cases hth : th = th₁
    · subst hth
      exact .inr (.inr ⟨answer, pc, e, rfl, hinstr, rfl⟩)
    · rw [setPc_of_ne hth, apply_pc]
      exact .inl rfl

theorem completed_before (hs : st.step a = some st') (h : st'.status t = .completed) :
    st.status t = .completed ∨ a = .setStatus t .completed := by
  cases steps_of_step hs with
  | @setStatus t' status =>
    by_cases ht : t = t'
    · subst ht
      obtain rfl : status = .completed := (Function.update_self ..).symm.trans h
      exact .inr rfl
    · exact .inl ((Function.update_of_ne ht ..).symm.trans h)
  | @step th answer pc e hinstr => exact .inl ((congrFun (apply_status st th e) t).symm.trans h)
  | _ => exact .inl h

/-- **`connectionMemory`** over any step. -/
theorem connectionMemory_of_step (hs : st.step a = some st') (c : Conn) :
    st'.connectionMemory c = st.connectionMemory c ∨ st'.connectionMemory c = none ∨
    ∃ th t, st.pc th = .putConnection c t ∧ st'.pc th = .enlistResource c t := by
  cases steps_of_step hs with
  | @step th answer pc e hinstr =>
    have hfrom := instr_effect hinstr
    cases e with
    | putConnection t c' =>
      by_cases hc : c = c'
      · subst hc
        exact .inr (.inr ⟨th, t, hfrom.1, (setPc_self ..).trans hfrom.2⟩)
      · exact .inl (Function.update_of_ne hc ..)
    | removeConnection c' =>
      by_cases hc : c = c'
      · subst hc
        exact .inr (.inl (Function.update_self ..))
      · exact .inl (Function.update_of_ne hc ..)
    | returnWrapper t c' release => cases release <;> exact .inl rfl
    | raise x release called => cases release <;> exact .inl rfl
    | _ => exact .inl rfl
  | _ => exact .inl rfl

omit [DecidableEq Txn] in
/-- A thread starts something which does not close `c`, and no callback that closes it has run for this. -/
theorem Claim.starts {sync : Txn → List (Synchronization Conn)} {pc : Pc Conn Txn} (h : st.Claim c)
    (hstep : (st.uses c).Step (({ st with synchronizations := sync }.setPc th pc).uses c)) (hidle : st.pc th = .idle)
    (hpc : ¬ pc.Closes st.plainOf c) (hcount : ∀ t, (sync t).count (.closePlain c) = st.deferred c t) :
    ({ st with synchronizations := sync }.setPc th pc).Claim c := by
  have hne : ∀ th', st.Closes c th' → th' ≠ th := fun th' hth' heq => not_closes_of_idle hidle (heq ▸ hth')
  refine h.frame hstep (fun hout => hout.1) (fun th' => ?_) (fun th' hth' => setPc_of_ne (hne th' hth'))
    (fun _ _ hx => hx) (fun _ _ _ hright => hright) hcount
  by_cases hth : th' = th
  · subst hth
    refine iff_of_false ?_ (not_closes_of_idle hidle)
    rwa [Closes, setPc_self]
  · rw [Closes, setPc_of_ne hth]
    rfl

omit [DecidableEq Txn] in
/-- A thread starts to close `c`. -/
theorem claim_close {w : ℕ} (hok : st.ClosedOnce (.call th w .close)) (hidle : st.pc th = .idle)
    (hplain : st.plainOf w = some c) : (st.setPc th (.inTransaction w .close)).Claim c := by
  obtain ⟨hunclaimed, hright⟩ := hok c hplain
  have huses : (st.setPc th (.inTransaction w .close)).uses c = st.uses c := uses_idle hidle rfl
  refine .thread th (huses ▸ hunclaimed.out) ?_ (fun th' hth' => ?_) hunclaimed.callbacks
  · rw [setPc_self]
    exact hright
  · by_contra hne
    rw [Closes, setPc_of_ne hne] at hth'
    exact hunclaimed.threads th' hth'

/-- The callback that is to close `c` starts: what it was to do is now for this thread. -/
theorem OnceInv.claim_callback {i : ℕ} (h : st.OnceInv) (hidle : st.pc th = .idle) (hcompleted : st.status t = .completed)
    (hi : (st.synchronizations t)[i]? = some (.closePlain c)) :
    ((st.runSynchronization t i).setPc th (.closePlain c)).Claim c := by
  have hcount := count_runSynchronization hi (.closePlain c)
  rw [if_pos (beq_self_eq_true _)] at hcount
  have hpos : st.deferred c t ≠ 0 := fun hzero => Nat.succ_ne_zero _ (hcount.trans hzero)
  cases h.claim c with
  | free _ ht => exact absurd (ht t) hpos
  | thread _ _ _ _ ht => exact absurd (ht t) hpos
  | callback t₀ hout honly hth ht hone =>
    obtain rfl : t = t₀ := by
      by_contra hne
      exact hpos (ht t hne)
    have huses : ((st.runSynchronization t i).setPc th (.closePlain c)).uses c =
        (st.runSynchronization t i).uses c := uses_idle hidle rfl
    refine .thread th (huses ▸ hout) ?_ (fun th' hth' => ?_) fun t' => ?_
    · rw [setPc_self]
      show (DsState.uses ((st.runSynchronization t i).setPc th (.closePlain c)) c).Unused
      rw [huses]
      exact h.unused hout honly hcompleted
    · by_contra hne
      rw [Closes, setPc_of_ne hne] at hth'
      exact hth th' hth'
    · by_cases ht' : t' = t
      · rw [ht']
        exact Nat.succ.inj (hcount.trans hone)
      · exact (congrArg (List.count _) (Function.update_of_ne ht' ..)).trans (ht t' ht')

/-- **Who closes**: after every step, one thread or one callback at most is to close the connection. -/
theorem OnceInv.claim_step (h : st.OnceInv) (hok : st.ClosedOnce a) (hs : st.step a = some st')
    (hstep : (st.uses c).Step (st'.uses c)) : st'.Claim c := by
  cases steps_of_step hs with
  | @setStatus t status hstatus =>
    refine (h.claim c).frame hstep (fun hout => hout.1) (fun _ => .rfl) (fun _ _ => rfl) (fun _ _ hx => hx)
      (fun th t' hjudges hright => ?_) fun _ => rfl
    by_cases ht : t' = t
    · subst ht
      left
      by_contra hnot
      refine hok.2 (fun hactive => hnot ?_) th hjudges
      exact (congrArg Status.isActive (Function.update_self ..)).trans hactive
    · show (Status.isActive (Function.update st.status t status t')) ∨ Function.update st.status t status t' = _
      rw [Function.update_of_ne ht]
      exact hright
  | getConnection hidle =>
    refine (h.claim c).starts hstep hidle ?_ fun _ => rfl
    rintro (⟨w, hin, -⟩ | hpc)
    · cases hin
    · cases hpc
  | @call th w call hidle =>
    by_cases hcloses : (call.entry w : Pc Conn Txn).Closes st.plainOf c
    · obtain ⟨rfl, hplain⟩ : call = .close ∧ st.plainOf w = some c := by
        rcases hcloses with ⟨w', hin, hw⟩ | hpc
        · cases call <;> cases hin
          exact ⟨rfl, hw⟩
        · cases call <;> cases hpc
      exact claim_close hok hidle hplain
    · exact (h.claim c).starts hstep hidle hcloses fun _ => rfl
  | @afterCompletion th t i s hidle hcompleted hi =>
    by_cases hs' : s = .closePlain c
    · subst hs'
      exact h.claim_callback hidle hcompleted hi
    · refine (h.claim c).starts hstep hidle ?_ fun t' => ?_
      · rintro (⟨w, hin, -⟩ | hpc)
        · cases s <;> cases hin
        · cases s <;> cases hpc
          exact hs' rfl
      · by_cases ht' : t' = t
        · have hcount := count_runSynchronization hi (.closePlain c)
          rw [if_neg fun heq => hs' (eq_of_beq heq)] at hcount
          rw [ht']
          exact hcount
        · exact congrArg (List.count _) (Function.update_of_ne ht' ..)
  | @closeLent c' hlent =>
    by_cases hc : c = c'
    · subst hc
      exact .free hok.1.threads hok.1.callbacks
    · exact (h.claim c).frame hstep (fun hout => (Function.update_of_ne hc ..).trans hout.1) (fun _ => .rfl)
        (fun _ _ => rfl) (fun _ _ hx => hx) (fun _ _ _ hright => hright) fun _ => rfl
  | @step th answer pc e hinstr =>
    by_cases hcl : st.Closes c th
    · exact h.claim_own hok hinstr hstep hcl
    · exact h.claim_other hinstr hstep hcl

theorem OnceInv.within_step (h : st.OnceInv) (hok : st.ClosedOnce a) (hs : st.step a = some st')
    (hth : (st'.pc th).within = some t) : st'.status t ≠ .completed := by
  intro hcompleted
  rcases pc_of_step hs th with hsame | ⟨-, hstarts⟩ | ⟨answer, pc, e, -, hinstr, rfl⟩
  · rw [hsame] at hth
    rcases completed_before hs hcompleted with hbefore | rfl
    · exact h.within th t hth hbefore
    · exact hok.1 rfl th hth
  · cases hstarts with
    | getConnection hpc => rw [hpc] at hth; cases hth
    | @call w call hpc => rw [hpc] at hth; cases call <;> cases hth
    | @callback s t hpc => rw [hpc] at hth; cases s <;> cases hth
  · rw [setPc_self] at hth
    have hbefore : st.status t = .completed := (congrFun (apply_status st th e) t).symm.trans hcompleted
    rcases h.calls.cases hinstr with hown | ⟨w, call, wrapper, hin, -, hwrapper⟩
    · rcases hown.within hth with hwithin | hactive
      · exact h.within th t hwithin hbefore
      · rw [hbefore] at hactive
        cases hactive
    · rcases hwrapper.inCall with hsame | rfl
      · rw [within_of_inCall (hsame.trans hin)] at hth
        cases hth
      · cases hth

theorem OnceInv.checked_step (h : st.OnceInv) (hs : st.step a = some st') (hth : (st'.pc th).Checked c) :
    st'.connectionMemory c = none := by
  rcases pc_of_step hs th with hsame | ⟨-, hstarts⟩ | ⟨answer, pc, e, -, hinstr, rfl⟩
  · rw [hsame] at hth
    rcases connectionMemory_of_step hs c with heq | hnone | ⟨th₁, t, hput, hput'⟩
    · exact heq.trans (h.checked th c hth)
    · exact hnone
    · have hne : th ≠ th₁ := by
        rintro rfl
        rw [hsame, hput] at hput'
        cases hput'
      have hentered : (st.uses c).role th₁ = .entered t := by simp [uses, hput, Pc.role, Role.towards]
      have hr : (st.pc th).role c = .none ∨ (st.pc th).role c = .inside t := ((h.place c).of_entered hentered).2.1 th hne
      rcases role_of_checked hth with htaken | ⟨t', hentered'⟩
      · rw [htaken] at hr
        rcases hr with hr | hr <;> cases hr
      · rw [hentered'] at hr
        rcases hr with hr | hr <;> cases hr
  · cases hstarts with
    | getConnection hpc => rw [hpc] at hth; cases hth
    | @call w call hpc => rw [hpc] at hth; cases call <;> cases hth
    | @callback s t hpc => rw [hpc] at hth; cases s <;> cases hth
  · rw [setPc_self] at hth
    rcases h.calls.cases hinstr with hown | ⟨w, call, wrapper, hin, -, hwrapper⟩
    · exact hown.checked (h.checked th c) hth
    · rcases hwrapper.inCall with hsame | rfl
      · exact absurd hth (not_checked_of_inCall (hsame.trans hin))
      · cases hth

/-- **The connection that is out**, if it is registered, has to do with the transaction that it is registered with. -/
theorem OnceInv.owned_step (h : st.OnceInv) (hs : st.step a = some st') (hstep : (st.uses c).Step (st'.uses c))
    {x : TransactionContext Conn Txn} (hout : (st'.uses c).Out) (hx : st'.connectionMemory c = some x) :
    (st'.uses c).Only x.transaction := by
  refine hstep.only (h.place c) hout (fun hbefore => ?_) fun th t hbefore hinside => ?_
  · rcases connectionMemory_of_step hs c with heq | hnone | ⟨th, t, hput, -⟩
    · exact h.owned c x hbefore (heq.symm.trans hx)
    · cases hnone.symm.trans hx
    · have hentered : (st.uses c).role th = .entered t := by simp [uses, hput, Pc.role, Role.towards]
      exact absurd hentered hbefore.not_entered
  · have hbefore : (st.pc th).role c = .taken ∨ (st.pc th).role c = .entered t := hbefore
    have hinside : (st'.pc th).role c = .inside t := hinside
    rcases pc_of_step hs th with hsame | ⟨hidle, -⟩ | ⟨answer, pc, e, -, hinstr, rfl⟩
    · rw [hsame] at hinside
      rcases hbefore with hr | hr <;> cases hr.symm.trans hinside
    · rw [hidle] at hbefore
      rcases hbefore with hr | hr <;> cases hr
    · rw [setPc_self] at hinside
      rcases h.calls.cases hinstr with hown | ⟨w, call, wrapper, hin, -, -⟩
      · rcases hbefore with htaken | hentered
        · cases (hown.unregistered_of_inside (h.checked th c) htaken hinside).symm.trans hx
        · rw [role_entered hentered] at hown
          cases hown with
          | putsConnection => cases (Function.update_self ..).symm.trans hx; rfl
          | raises hraise => cases hraise
      · rw [role_of_inCall hin] at hbefore
        rcases hbefore with hr | hr <;> cases hr

theorem OnceInv.step (h : st.OnceInv) (hok : st.ClosedOnce a) (hs : st.step a = some st') : st'.OnceInv := by
  obtain ⟨hapart, huses⟩ := uses_of_step h.apart h.place (h.careful hok) hs
  exact {
    apart := hapart
    place := fun c => (h.place c).step (huses c)
    calls := h.calls.step hs
    within := fun th t hth => h.within_step hok hs hth
    checked := fun th c hth => h.checked_step hs hth
    owned := fun c x hout hx => h.owned_step hs (huses c) hout hx
    claim := fun c => h.claim_step hok hs (huses c) }

omit [DecidableEq Thread] [DecidableEq Txn] in
theorem onceInv_start (status : Txn → Status) (pooled : Conn → Bool) :
    (start status pooled : DsState Thread Conn Txn).OnceInv where
  apart := fun _ _ _ => (nomatch ·)
  place := place_start status pooled
  calls := fun _ _ _ h => nomatch h
  within := fun _ _ h => nomatch h
  checked := fun _ _ h => nomatch h
  owned := fun _ _ _ h => nomatch h
  claim := fun _ => .free (fun _ => not_closes_of_idle rfl) fun _ => rfl

/-- **Closed once**: in every run in which callers close what they get once, and in time, all steps are careful. -/
theorem careful_of_closedOnce {status : Txn → Status} {pooled : Conn → Bool}
    (h : Runs step ClosedOnce (start status pooled : DsState Thread Conn Txn) st) :
    Runs step Careful (start status pooled) st :=
  Runs.of_invariant (onceInv_start status pooled) (fun _ _ _ hI hok hs => hI.step hok hs)
    (fun _ _ hI hok => hI.careful hok) h

/-- **Returned inside**: when every connection that is handed out is closed once, and in time, a connection enlisted in
a transaction that has not completed is returned to calls in this transaction only. -/
theorem returned_inside {status : Txn → Status} {pooled : Conn → Bool}
    (h : Runs step ClosedOnce (start status pooled : DsState Thread Conn Txn) st) : st.NotReturnedOutside :=
  notReturnedOutside_of_place
    (Runs.invariant (onceInv_start status pooled) (fun _ _ _ hI hok hs => hI.step hok hs) h).place

end

/-- The wrapper is closed after the transaction has completed. -/
theorem along_closesAt_once : Along step ClosedOnce twoPooled (closesAt .completed) :=
  .cons rfl trivial <| .cons rfl trivial <| .cons rfl trivial <| .cons rfl trivial <|
    .cons rfl trivial <| .cons rfl trivial <| .cons rfl trivial <| .cons rfl trivial <| .cons rfl trivial <|
      .cons rfl trivial <| .cons rfl trivial <|
        .cons rfl ⟨fun _ th => by cases th <;> exact nofun, fun _ th => by
          rintro (⟨w, hpc⟩ | ⟨w, c, x, hpc, -⟩) <;> cases th <;> cases hpc⟩ <|
        .cons rfl (fun c hc => by
          cases hc
          refine ⟨⟨⟨rfl, fun th => .inl (by cases th <;> rfl)⟩, fun th => not_closes_of_idle (by cases th <;> rfl),
            fun t => rfl⟩, fun x hx => .inr rfl⟩) <|
          .cons rfl trivial <| .cons rfl trivial <| .cons rfl trivial <| .cons rfl trivial <| .cons rfl trivial <|
            .cons rfl trivial <| .cons rfl trivial <| .cons rfl trivial <| .cons rfl trivial <|
              .cons rfl trivial <| .cons rfl trivial trivial

theorem returned_inside_completed : ∃ st : DsState Bool Bool Unit,
    st.pc true = .give false ∧ ((), false) ∈ st.enlisted ∧ st.NotReturnedOutside := by
  refine ⟨_, ?_, ?_, returned_inside (Runs.of_along _ along_closesAt_once rfl)⟩
  · rfl
  · exact List.mem_cons_self

section

variable [DecidableEq Conn] [DecidableEq Thread] [DecidableEq Txn]

/-! ### A close that is put off -/

/-- A step within the call that `th` is in, in which `registerSynchronization` raises no `NullPointerException`. -/
def DuringClose (th : Thread) (st : DsState Thread Conn Txn) (a : DsAction Thread Conn Txn) : Prop :=
  st.pc th ≠ .idle ∧ ∀ e w t, a = .step th (.raises e) → st.pc th = .closeLater w t → e.cls ≠ .nullPointer

omit [DecidableEq Thread] [DecidableEq Conn] [DecidableEq Txn] in
theorem putsOff_of_instr {w : ℕ} (hpc : (st.pc th).PutsOff w) (hidle : st.pc th ≠ .idle)
    (hraise : ∀ e w t, answer = .raises e → st.pc th = .closeLater w t → e.cls ≠ .nullPointer)
    (hinstr : st.instr (st.pc th) answer = some (pc', e)) : pc'.PutsOff w := by
  have hin : (st.pc th).inCall = some (w, .close) := by
    revert hpc hidle
    cases st.pc th with
    | idle => exact fun _ hidle => absurd rfl hidle
    | closeOwner w' | closeOnce w' t | closeLater w' t => exact fun hw _ => by cases hw; rfl
    | _ => exact fun hpc _ => hpc.elim
  cases hw : st.wrappers[w]? with
  | none =>
    generalize hpc' : st.pc th = pc at hpc hin hinstr
    cases pc with
    | closeOwner w' =>
      cases hpc
      cases answer <;> simp [instr, proceed, interrupt, Pc.mayRaise, hw] at hinstr
    | closeOnce w' t =>
      cases hpc
      cases answer <;> simp [instr, proceed, interrupt, Pc.mayRaise, hw] at hinstr
    | closeLater w' t =>
      cases hpc
      cases answer with
      | raises x =>
        have hx := hraise x w t rfl hpc'
        simp only [instr, interrupt, if_neg hx, Option.some.injEq, Prod.mk.injEq] at hinstr
        exact hinstr.1 ▸ trivial
      | _ => simp [instr, proceed, hw] at hinstr
    | _ => first | exact hpc.elim | cases hin
  | some wrapper =>
    have hwrapper := wrapperStep_of_instr hw hin hinstr
    generalize hpc' : st.pc th = pc at hwrapper hpc
    cases hwrapper with
    | owned => exact rfl
    | wins => exact rfl
    | retries hx => exact absurd hx (hraise _ w _ rfl hpc')
    | _ => first | exact trivial | cases hpc

/-- **A `close()` that found its transaction active** comes to no plain close of its own. -/
theorem putsOff_of_judgedActive {w : ℕ} {st₁ : DsState Thread Conn Txn} (hpc : st.pc th = .guarded w .close t)
    (hactive : (st.status t).isActive) (hs : st.step (.step th .go) = some st₁)
    (h : Runs step (DuringClose th) st₁ st') : (st'.pc th).PutsOff w := by
  have hstart : (st₁.pc th).PutsOff w := by
    simp only [DsState.step, instr, proceed, hpc, hactive, if_true, Option.map_some, Option.some.injEq] at hs
    rw [← hs, setPc_self]
    exact rfl
  refine Runs.invariant (I := fun st => (st.pc th).PutsOff w) hstart (fun st a st' hI hok hs => ?_) h
  rcases pc_of_step hs th with hsame | ⟨hidle, -⟩ | ⟨answer, pc, e, ha, hinstr, rfl⟩
  · exact hsame ▸ hI
  · exact absurd hidle hok.1
  · rw [setPc_self]
    exact putsOff_of_instr hI hok.1 (fun x w t hx => hok.2 x w t (hx ▸ ha)) hinstr

end

end DsState

end Dynamy.Services
