import Dynamy.Services.Transactions
import Mathlib.Data.List.Basic

/-!
# Dynamy.Services.Exclusive — who gets an enlisted connection

A connection enlisted in a transaction should not be returned to anybody else before the transaction has completed.
`findFreeConnection` would hand it out (it calls a transaction in any status but `ACTIVE` and `MARKED_ROLLBACK` over),
so what keeps it back is that it does not return to the pool: `enlisted_not_returned` holds in runs in which no plain
close reaches a connection that is in use and no call looks up a transaction that has completed.

The abstract view of one connection (`Uses`) keeps the role of every thread towards it, whether it waits in the pool,
and which uncompleted transactions it is busy in.  Its invariant has one case for each place the connection can be in.
-/

namespace Dynamy.Services

open Dynamy.Java Dynamy.Lib

variable {Thread Conn Txn : Type}

/-! ### One connection -/

/-- What a thread has to do with the connection. -/
inductive Role (Txn : Type)
  | none
  /-- has it from the pool -/
  | taken
  /-- has mapped `t` to it in `transactionMemory`, and not it to `t` in `connectionMemory` yet -/
  | entered (t : Txn)
  /-- is about to return it, wrapped, to a call in `t` -/
  | inside (t : Txn)

structure Uses (Thread Txn : Type) where
  role : Thread → Role Txn
  pooled : Bool
  /-- uncompleted, and has the connection enlisted or in `transactionMemory` -/
  busy : Txn → Prop

namespace Uses

variable {a b : Uses Thread Txn}

/-- Where the connection is: in the pool, with one thread, being entered for `t`, or out, inside at most one
transaction. -/
inductive Place (a : Uses Thread Txn) : Prop
  | pool (hp : a.pooled = true) (hr : ∀ th, a.role th = .none) (hb : ∀ t, ¬ a.busy t)
  | taken (th : Thread) (hp : a.pooled = false) (hth : a.role th = .taken)
      (hr : ∀ th', th' ≠ th → a.role th' = .none) (hb : ∀ t, ¬ a.busy t)
  | entered (th : Thread) (t : Txn) (hp : a.pooled = false) (hth : a.role th = .entered t)
      (hr : ∀ th', th' ≠ th → a.role th' = .none ∨ a.role th' = .inside t) (hb : ∀ t', a.busy t' → t' = t)
  | out (o : Option Txn) (hp : a.pooled = false)
      (hr : ∀ th, a.role th = .none ∨ ∃ t, o = some t ∧ a.role th = .inside t) (hb : ∀ t, a.busy t → o = some t)

/-- The thread that has it from the pool is alone with it. -/
theorem Place.of_taken (h : Place a) {th : Thread} (hth : a.role th = .taken) :
    a.pooled = false ∧ (∀ th', th' ≠ th → a.role th' = .none) ∧ ∀ t, ¬ a.busy t := by
  cases h with
  | pool hp hr hb => rw [hr] at hth; cases hth
  | taken th₀ hp hth₀ hr hb =>
    have heq : th = th₀ := by
      by_contra hne
      rw [hr th hne] at hth
      cases hth
    subst heq
    exact ⟨hp, hr, hb⟩
  | entered th₀ t hp hth₀ hr hb =>
    by_cases heq : th = th₀
    · rw [heq, hth₀] at hth; cases hth
    · rcases hr th heq with h | h <;> rw [h] at hth <;> cases hth
  | out o hp hr hb => rcases hr th with h | ⟨t, -, h⟩ <;> rw [h] at hth <;> cases hth

/-- The thread that enters it for `t` shares it with calls in `t` only. -/
theorem Place.of_entered (h : Place a) {th : Thread} {t : Txn} (hth : a.role th = .entered t) :
    a.pooled = false ∧ (∀ th', th' ≠ th → a.role th' = .none ∨ a.role th' = .inside t) ∧ ∀ t', a.busy t' → t' = t := by
  cases h with
  | pool hp hr hb => rw [hr] at hth; cases hth
  | taken th₀ hp hth₀ hr hb =>
    by_cases heq : th = th₀
    · rw [heq, hth₀] at hth; cases hth
    · rw [hr th heq] at hth; cases hth
  | entered th₀ t₀ hp hth₀ hr hb =>
    by_cases heq : th = th₀
    · subst heq
      obtain rfl : t₀ = t := by rw [hth₀] at hth; cases hth; rfl
      exact ⟨hp, hr, hb⟩
    · rcases hr th heq with h | h <;> rw [h] at hth <;> cases hth
  | out o hp hr hb => rcases hr th with h | ⟨t₀, -, h⟩ <;> rw [h] at hth <;> cases hth

/-- A thread about to return it to a call in `t` shares it with `t` only. -/
theorem Place.of_inside (h : Place a) {th : Thread} {t t' : Txn} (hth : a.role th = .inside t) (hb' : a.busy t') :
    t' = t := by
  cases h with
  | pool hp hr hb => exact absurd hb' (hb t')
  | taken th₀ hp hth₀ hr hb => exact absurd hb' (hb t')
  | entered th₀ t₀ hp hth₀ hr hb =>
    by_cases heq : th = th₀
    · rw [heq, hth₀] at hth; cases hth
    · rcases hr th heq with h | h <;> rw [h] at hth <;> cases hth
      exact hb t' hb'
  | out o hp hr hb =>
    rcases hr th with h | ⟨t₀, ho, h⟩ <;> rw [h] at hth <;> cases hth
    exact Option.some.inj ((hb t' hb').symm.trans ho)

theorem Place.mono (h : Place a) {busy : Txn → Prop} (hb : ∀ t, busy t → a.busy t) :
    Place { a with busy := busy } := by
  cases h with
  | pool hp hr hb' => exact .pool hp hr fun t ht => hb' t (hb t ht)
  | taken th hp hth hr hb' => exact .taken th hp hth hr fun t ht => hb' t (hb t ht)
  | entered th t hp hth hr hb' => exact .entered th t hp hth hr fun t' ht => hb' t' (hb t' ht)
  | out o hp hr hb' => exact .out o hp hr fun t ht => hb' t (hb t ht)

variable [DecidableEq Thread]

def setRole (a : Uses Thread Txn) (th : Thread) (r : Role Txn) : Uses Thread Txn :=
  { a with role := Function.update a.role th r }

/-- The steps in which nobody but its user puts the connection back. -/
inductive Step (a : Uses Thread Txn) : Uses Thread Txn → Prop
  | quiet {busy : Txn → Prop} (h : ∀ t, busy t → a.busy t) : Step a { a with busy := busy }
  | take {th : Thread} (h : a.pooled = true) : Step a { a.setRole th .taken with pooled := false }
  | drop {th : Thread} {busy : Txn → Prop} (h : ∀ t, a.role th ≠ .entered t) (hb : ∀ t, busy t → a.busy t) :
      Step a { a.setRole th .none with busy := busy }
  | release {th : Thread} (h : a.role th = .taken) : Step a { a.setRole th .none with pooled := true }
  | close (hr : ∀ th, a.role th = .none) (hb : ∀ t, ¬ a.busy t) : Step a { a with pooled := true }
  | enter {th : Thread} {t : Txn} {busy : Txn → Prop} (h : a.role th = .taken)
      (hb : ∀ t', busy t' → a.busy t' ∨ t' = t) : Step a { a.setRole th (.entered t) with busy := busy }
  | register {th : Thread} {t : Txn} (h : a.role th = .entered t) : Step a (a.setRole th (.inside t))
  | present {th : Thread} {t : Txn} (h : a.role th = .taken) : Step a (a.setRole th (.inside t))
  | hit {th : Thread} {t : Txn} (h : a.role th = .none) (hb : a.busy t) : Step a (a.setRole th (.inside t))
  | enlist {th : Thread} {t : Txn} {busy : Txn → Prop} (h : a.role th = .inside t)
      (hb : ∀ t', busy t' → a.busy t' ∨ t' = t) : Step a { a with busy := busy }

theorem setRole_self (th : Thread) (r : Role Txn) : (a.setRole th r).role th = r := Function.update_self ..

theorem setRole_ne {th th' : Thread} (r : Role Txn) (h : th' ≠ th) : (a.setRole th r).role th' = a.role th' :=
  Function.update_of_ne h ..

theorem forall_setRole {P : Thread → Role Txn → Prop} {th : Thread} {r : Role Txn} :
    (∀ th', P th' ((a.setRole th r).role th')) ↔ P th r ∧ ∀ th', th' ≠ th → P th' (a.role th') :=
  Function.forall_update_iff ..

theorem Place.drop (h : Place a) {th : Thread} (hdrop : ∀ t, a.role th ≠ .entered t) :
    Place (a.setRole th .none) := by
  cases h with
  | pool hp hr hb => exact .pool hp ((forall_setRole (P := fun _ r => r = .none)).mpr ⟨rfl, fun th' _ => hr th'⟩) hb
  | taken th₀ hp hth hr hb =>
    by_cases heq : th = th₀
    · subst heq
      refine .out none hp ((forall_setRole (P := fun _ r => r = .none ∨ _)).mpr ⟨.inl rfl, fun th' hth' => ?_⟩)
        fun t ht => absurd ht (hb t)
      exact .inl (hr th' hth')
    · exact .taken th₀ hp (by rw [setRole_ne _ (Ne.symm heq), hth])
        ((forall_setRole (P := fun th' r => th' ≠ th₀ → r = .none)).mpr ⟨fun _ => rfl, fun th' _ => hr th'⟩) hb
  | entered th₀ t hp hth hr hb =>
    have hne : th ≠ th₀ := fun heq => hdrop t (heq ▸ hth)
    exact .entered th₀ t hp (by rw [setRole_ne _ (Ne.symm hne), hth])
      ((forall_setRole (P := fun th' r => th' ≠ th₀ → r = .none ∨ r = .inside t)).mpr
        ⟨fun _ => .inl rfl, fun th' _ => hr th'⟩) hb
  | out o hp hr hb =>
    exact .out o hp ((forall_setRole (P := fun _ r => r = .none ∨ ∃ t, o = some t ∧ r = .inside t)).mpr
      ⟨.inl rfl, fun th' _ => hr th'⟩) hb

/-- **The places**: a step leads from place to place. -/
theorem Place.step (h : Place a) (hs : Step a b) : Place b := by
  cases hs with
  | quiet hb => exact h.mono hb
  | @take th hpooled =>
    cases h with
    | pool hp hr hb => exact .taken th rfl (setRole_self ..) (fun th' hth' => (setRole_ne _ hth').trans (hr th')) hb
    | taken th₀ hp => rw [hp] at hpooled; cases hpooled
    | entered th₀ t hp => rw [hp] at hpooled; cases hpooled
    | out o hp => rw [hp] at hpooled; cases hpooled
  | drop hdrop hb => exact (h.drop hdrop).mono hb
  | @release th hth =>
    obtain ⟨-, hr, hb⟩ := h.of_taken hth
    exact .pool rfl ((forall_setRole (P := fun _ r => r = .none)).mpr ⟨rfl, hr⟩) hb
  | close hr hb => exact .pool rfl hr hb
  | @enter th t busy hth hb' =>
    obtain ⟨hp, hr, hb⟩ := h.of_taken hth
    exact .entered th t hp (setRole_self ..) (fun th' hth' => .inl ((setRole_ne _ hth').trans (hr th' hth')))
      fun t' ht' => (hb' t' ht').resolve_left (hb t')
  | @register th t hth =>
    obtain ⟨hp, hr, hb⟩ := h.of_entered hth
    refine .out (some t) hp ?_ fun t' ht' => (congrArg some (hb t' ht')).symm
    refine (forall_setRole (P := fun _ r => r = .none ∨ ∃ t', some t = some t' ∧ r = .inside t')).mpr
      ⟨.inr ⟨t, rfl, rfl⟩, fun th' hth' => ?_⟩
    exact (hr th' hth').imp_right fun h => ⟨t, rfl, h⟩
  | @present th t hth =>
    obtain ⟨hp, hr, hb⟩ := h.of_taken hth
    refine .out (some t) hp ?_ fun t' ht' => absurd ht' (hb t')
    exact (forall_setRole (P := fun _ r => r = .none ∨ ∃ t', some t = some t' ∧ r = .inside t')).mpr
      ⟨.inr ⟨t, rfl, rfl⟩, fun th' hth' => .inl (hr th' hth')⟩
  | @hit th t hth hbusy =>
    cases h with
    | pool hp hr hb => exact absurd hbusy (hb t)
    | taken th₀ hp hth₀ hr hb => exact absurd hbusy (hb t)
    | entered th₀ t₀ hp hth₀ hr hb =>
      obtain rfl := hb t hbusy
      have hne : th₀ ≠ th := fun heq => by rw [← heq, hth₀] at hth; cases hth
      exact .entered th₀ t hp (by rw [setRole_ne _ hne, hth₀])
        ((forall_setRole (P := fun th' r => th' ≠ th₀ → r = .none ∨ r = .inside t)).mpr
          ⟨fun _ => .inr rfl, fun th' _ => hr th'⟩) hb
    | out o hp hr hb =>
      obtain rfl := hb t hbusy
      exact .out (some t) hp ((forall_setRole (P := fun _ r => r = .none ∨ ∃ t', some t = some t' ∧ r = .inside t')).mpr
        ⟨.inr ⟨t, rfl, rfl⟩, fun th' _ => hr th'⟩) hb
  | @enlist th t busy hth hb' =>
    cases h with
    | pool hp hr hb => rw [hr] at hth; cases hth
    | taken th₀ hp hth₀ hr hb =>
      by_cases heq : th = th₀
      · rw [heq, hth₀] at hth; cases hth
      · rw [hr th heq] at hth; cases hth
    | entered th₀ t₀ hp hth₀ hr hb =>
      have heq : t = t₀ := by
        by_cases heq : th = th₀
        · rw [heq, hth₀] at hth; cases hth
        · rcases hr th heq with h | h <;> rw [h] at hth <;> cases hth
          rfl
      exact .entered th₀ t₀ hp hth₀ hr fun t' ht' => (hb' t' ht').elim (hb t') (heq ▸ ·)
    | out o hp hr hb =>
      have ho : o = some t := by
        rcases hr th with h | ⟨t₀, ho, h⟩ <;> rw [h] at hth <;> cases hth
        exact ho
      exact .out o hp hr fun t' ht' => (hb' t' ht').elim (hb t') (by rintro rfl; exact ho)

end Uses

/-! ### The role of a thread -/

section Roles

variable {st : DsState Thread Conn Txn} {pc pc' : Pc Conn Txn} {e : Effect Conn Txn} {c : Conn}

/-- The effect does not lend, close, enter or enlist `c`. -/
def Effect.Leaves (c : Conn) : Effect Conn Txn → Prop
  | .checkout c' | .putTransaction _ c' | .enlistResource _ c' => c' ≠ c
  | .plainCall c' call => call = .close → c' ≠ c
  | _ => True

/-- How a step from `pc` changes the role of its thread. -/
inductive RoleStep (st : DsState Thread Conn Txn) (c : Conn) (pc : Pc Conn Txn) :
    Role Txn → Role Txn → Effect Conn Txn → Prop
  | same {r : Role Txn} {e : Effect Conn Txn} (h : e.Leaves c) : RoleStep st c pc r r e
  | take : RoleStep st c pc .none .taken (.checkout c)
  | drop {r : Role Txn} {e : Effect Conn Txn} (h : e.Leaves c) (hr : ∀ t, r ≠ .entered t) : RoleStep st c pc r .none e
  | release : RoleStep st c pc .taken .none (.plainCall c .close)
  | close (hpc : pc = .closePlain c ∨ ∃ w wrapper, pc = .plainCall w .close ∧ st.wrappers[w]? = some wrapper ∧
      wrapper.plainConn = c) : RoleStep st c pc .none .none (.plainCall c .close)
  | enter {t : Txn} : RoleStep st c pc .taken (.entered t) (.putTransaction t c)
  | register {t : Txn} : RoleStep st c pc (.entered t) (.inside t) (.putConnection t c)
  | present {t : Txn} : RoleStep st c pc .taken (.inside t) .skip
  | hit {o : Overload} {t : Txn} {context : TransactionContext Conn Txn} (hpc : pc = .lookup o t)
      (h : st.transactionMemory t = some context) (hc : context.currentConnection = c) :
      RoleStep st c pc .none (.inside t) .skip
  | enlist {t : Txn} : RoleStep st c pc (.inside t) (.inside t) (.enlistResource t c)

theorem callEntry_ne_swap (w : ℕ) (call : Call) (p : Purpose Txn) (c : Conn) : call.entry w ≠ .swap p c c := by
  cases call <;> exact (nomatch ·)

variable [DecidableEq Conn]

/-- The role towards `c` of a thread that has the role `r` towards `c'`. -/
def Role.towards (c c' : Conn) (r : Role Txn) : Role Txn := if c' = c then r else .none

def Pc.role (c : Conn) : Pc Conn Txn → Role Txn
  | .swap _ conn1 conn => if conn1 = c ∨ conn = c then .taken else .none
  | .checkout _ (some c') | .containsKey _ c' | .owner _ c' | .isActive _ c' _ => .towards c c' .taken
  | .give c' | .acquire c' _ | .recheck c' _ => .towards c c' .taken
  | .putTransaction c' _ | .removeTransaction c' _ (.free _) | .removeConnection c' _ (.free _) => .towards c c' .taken
  | .putConnection c' t => .towards c c' (.entered t)
  | .enlistResource c' t | .synchronize c' t | .leave c' t | .hit t c' => .towards c c' (.inside t)
  | _ => .none

theorem taken_ne_entered {c' : Conn} (t : Txn) : (Role.taken : Role Txn).towards c c' ≠ .entered t := by
  unfold Role.towards
  split_ifs <;> exact fun h => nomatch h

theorem inside_ne_entered {c' : Conn} {t' : Txn} (t : Txn) : (Role.inside t').towards c c' ≠ .entered t := by
  unfold Role.towards
  split_ifs <;> exact fun h => nomatch h

theorem role_inWrapper (h : pc.inWrapper) : pc.role c = .none := by
  cases pc <;> first | rfl | cases h

theorem role_found (p : Purpose Txn) (c' : Conn) : (p.found c').role c = .towards c c' .taken := by
  rcases found_cases p c' with h | ⟨t, h | h⟩ <;> rw [h] <;> rfl

theorem entry_role (s : Synchronization Conn) (t : Txn) : (s.entry t).role c = .none := by
  cases s <;> rfl

theorem callEntry_role (w : ℕ) (call : Call) : (call.entry w : Pc Conn Txn).role c = .none := by
  cases call <;> rfl

/-- Only `putConnection` has `entered`. -/
theorem role_entered {t : Txn} (h : pc.role c = .entered t) : pc = .putConnection c t := by
  cases pc with
  | putConnection c' t' =>
    simp only [Pc.role, Role.towards] at h
    split_ifs at h with hc
    cases h
    rw [hc]
  | checkout p conn1 =>
    cases conn1 with
    | none => cases h
    | some c' => exact absurd h (taken_ne_entered t)
  | swap p conn1 conn =>
    simp only [Pc.role] at h
    split_ifs at h
  | removeTransaction c' t' k | removeConnection c' t' k =>
    cases k with
    | free p => exact absurd h (taken_ne_entered t)
    | callback => cases h
  | containsKey _ c' | owner _ c' | isActive _ c' _ | give c' | acquire c' _ | recheck c' _ | putTransaction c' _ =>
    exact absurd h (taken_ne_entered t)
  | enlistResource c' t' | synchronize c' t' | leave c' t' | hit t' c' =>
    exact absurd h (inside_ne_entered t)
  | _ => cases h

/-- **The roles**: every step of a thread that does not swap a connection for itself is one of those above. -/
theorem EffectFrom.roleStep (c : Conn) (hcheckout : ∀ p, pc = .checkout p (some c) → st.pooled c = false)
    (hswap : ∀ p, pc ≠ .swap p c c) (h : EffectFrom st pc pc' e) : RoleStep st c pc (pc.role c) (pc'.role c) e := by
  cases e with
  | skip =>
    cases (show Moves st pc pc' from h) with
    | @found o t context hm =>
      simp only [Pc.role, Role.towards]
      split_ifs with hc
      · exact .hit rfl hm hc
      · exact .same trivial
    | present hm =>
      simp only [Pc.role, Role.towards]
      split_ifs
      · exact .present
      · exact .same trivial
    | unregistered =>
      rw [role_found]
      exact .same trivial
    | wrapper hw hw' =>
      have hpc' : pc'.role c = .none := by
        rcases hw' with hw' | rfl
        · exact role_inWrapper hw'
        · rfl
      rw [role_inWrapper hw, hpc']
      exact .same trivial
    | _ => exact .same trivial
  | acquire t => rcases h with ⟨rfl, rfl⟩ | ⟨c', rfl, rfl⟩ <;> exact .same trivial
  | checkout c' =>
    obtain ⟨hpool, p, conn1, rfl, rfl⟩ := h
    cases conn1 with
    | none =>
      simp only [DsState.checkoutNext, Pc.role, Role.towards]
      split_ifs with hc
      · subst hc
        exact .take
      · exact .same hc
    | some conn1 =>
      simp only [DsState.checkoutNext, Pc.role, Role.towards]
      by_cases hc : c' = c
      · have hne : conn1 ≠ c := by
          rintro rfl
          rw [hc, hcheckout p rfl] at hpool
          cases hpool
        simp only [hne, hc, or_true, if_true, if_false]
        exact .take
      · simp only [hc, or_false]
        exact .same hc
  | plainCall c' call =>
    rcases h with ⟨p, conn, rfl, rfl, rfl⟩ | ⟨w, wrapper, rfl, rfl, hw, rfl⟩ | ⟨rfl, rfl, rfl⟩
    · simp only [Pc.role, Role.towards]
      by_cases hc : c' = c
      · have hne : conn ≠ c := by
          rintro rfl
          exact hswap p (hc ▸ rfl)
        simp only [hc, hne, true_or, if_true, if_false]
        exact .release
      · simp only [hc, false_or]
        exact .same fun _ => hc
    · by_cases hc : call = .close ∧ wrapper.plainConn = c
      · obtain ⟨rfl, rfl⟩ := hc
        exact .close (.inr ⟨w, wrapper, rfl, hw, rfl⟩)
      · exact .same fun hcall hconn => hc ⟨hcall, hconn⟩
    · by_cases hc : c' = c
      · subst hc
        exact .close (.inl rfl)
      · exact .same fun _ => hc
  | putTransaction t c' =>
    obtain ⟨rfl, rfl⟩ := h
    simp only [Pc.role, Role.towards]
    split_ifs with hc
    · subst hc
      exact .enter
    · exact .same hc
  | putConnection t c' =>
    obtain ⟨rfl, rfl⟩ := h
    simp only [Pc.role, Role.towards]
    split_ifs with hc
    · subst hc
      exact .register
    · exact .same trivial
  | removeTransaction t =>
    obtain ⟨c', k, rfl, rfl⟩ := h
    cases k <;> exact .same trivial
  | removeConnection c' =>
    obtain ⟨t, k, rfl, rfl⟩ := h
    cases k with
    | free p =>
      rw [AfterTerminate.next, role_found]
      exact .same trivial
    | callback => exact .same trivial
  | enlistResource t c' =>
    obtain ⟨rfl, rfl⟩ := h
    simp only [Pc.role, Role.towards]
    split_ifs with hc
    · subst hc
      exact .enlist
    · exact .same hc
  | registerSynchronization t s =>
    rcases h with ⟨c', rfl, rfl, -⟩ | ⟨hw, rfl⟩
    · exact .same trivial
    · rw [role_inWrapper hw]
      exact .same trivial
  | setClosed w =>
    rw [role_inWrapper h.1, role_inWrapper h.2]
    exact .same trivial
  | returnWrapper t c' release =>
    obtain ⟨rfl | rfl, rfl⟩ := h <;> exact .drop trivial inside_ne_entered
  | returnPlain c' =>
    obtain ⟨rfl, rfl⟩ := h
    exact .drop trivial taken_ne_entered
  | raise x release =>
    obtain ⟨hpc, rfl⟩ := h
    refine .drop trivial fun t ht => ?_
    rw [role_entered ht] at hpc
    rcases hpc with hpc | hpc | ⟨p, c', hpc⟩ <;> cases hpc

end Roles

/-! ### The view of a connection -/

/-- About to return the connection to a caller in that transaction, or in none. -/
def Pc.Returns (c : Conn) : Pc Conn Txn → Option Txn → Prop
  | .give c', caller => c' = c ∧ caller = none
  | .leave c' t, caller => c' = c ∧ caller = some t
  | .hit t c', caller => c' = c ∧ caller = some t
  | _, _ => False

namespace DsState

variable {st st' : DsState Thread Conn Txn} {th : Thread} {c : Conn}

/-- `t` has not completed, and has `c` enlisted or in `transactionMemory`. -/
def Busy (st : DsState Thread Conn Txn) (t : Txn) (c : Conn) : Prop :=
  ((t, c) ∈ st.enlisted ∨ ∃ x, st.transactionMemory t = some x ∧ x.currentConnection = c) ∧ st.status t ≠ .completed

/-- A connection enlisted in a transaction that has not completed is returned to calls in this transaction only. -/
def NotReturnedOutside (st : DsState Thread Conn Txn) : Prop := ∀ th c caller t,
  (st.pc th).Returns c caller → (t, c) ∈ st.enlisted → st.status t ≠ .completed → caller = some t

/-- No thread swaps a connection for itself. -/
def Apart (st : DsState Thread Conn Txn) : Prop := ∀ th p c, st.pc th ≠ .swap p c c

theorem Apart.setPc [DecidableEq Thread] (h : st.Apart) {pc : Pc Conn Txn} (hpc : ∀ p c, pc ≠ .swap p c c) :
    (st.setPc th pc).Apart := by
  intro th' p c
  exact (Function.forall_update_iff st.pc fun _ pc => ∀ p c, pc ≠ .swap p c c).mpr ⟨hpc, fun th' _ => h th'⟩ th' p c

variable [DecidableEq Conn]

def uses (st : DsState Thread Conn Txn) (c : Conn) : Uses Thread Txn where
  role := fun th => (st.pc th).role c
  pooled := st.pooled c
  busy := fun t => st.Busy t c

/-- `c` may go back to the pool: no call of `getConnection` has it in hand, and no transaction is busy with it. -/
def Releasable (st : DsState Thread Conn Txn) (c : Conn) : Prop :=
  (∀ th, (st.pc th).role c = .none) ∧ ∀ t, ¬ st.Busy t c

/-- Whoever closes a plain connection, a wrapper, a callback or a holder outside, does it when it may go back; no call
reads the context of a transaction that has completed since it was judged active. -/
def Careful (st : DsState Thread Conn Txn) : DsAction Thread Conn Txn → Prop
  | .closeLent c => st.Releasable c
  | .step th _ =>
    match st.pc th with
    | .lookup _ t => st.status t ≠ .completed
    | .plainCall w .close => ∀ wrapper, st.wrappers[w]? = some wrapper → st.Releasable wrapper.plainConn
    | .closePlain c => st.Releasable c
    | _ => True
  | _ => True

theorem notReturnedOutside_of_place (h : ∀ c, (st.uses c).Place) : st.NotReturnedOutside := by
  intro th c caller t hreturns henlisted hstatus
  have hbusy : (st.uses c).busy t := ⟨.inl henlisted, hstatus⟩
  cases hpc : st.pc th with
  | give c' =>
    rw [hpc] at hreturns
    obtain ⟨rfl, -⟩ := hreturns
    have hrole : (st.uses c').role th = .taken := by simp [uses, hpc, Pc.role, Role.towards]
    exact absurd hbusy (((h c').of_taken hrole).2.2 t)
  | leave c' t' =>
    rw [hpc] at hreturns
    obtain ⟨rfl, rfl⟩ := hreturns
    have hrole : (st.uses c').role th = .inside t' := by simp [uses, hpc, Pc.role, Role.towards]
    rw [(h c').of_inside hrole hbusy]
  | hit t' c' =>
    rw [hpc] at hreturns
    obtain ⟨rfl, rfl⟩ := hreturns
    have hrole : (st.uses c').role th = .inside t' := by simp [uses, hpc, Pc.role, Role.towards]
    rw [(h c').of_inside hrole hbusy]
  | _ =>
    rw [hpc] at hreturns
    exact hreturns.elim

theorem place_start (status : Txn → Status) (pooled : Conn → Bool) (c : Conn) :
    ((start status pooled : DsState Thread Conn Txn).uses c).Place := by
  have hbusy : ∀ t, ¬ (start status pooled : DsState Thread Conn Txn).Busy t c := by
    rintro t ⟨h | ⟨x, h, -⟩, -⟩ <;> cases h
  cases hp : pooled c with
  | true => exact .pool hp (fun _ => rfl) hbusy
  | false => exact .out none hp (fun _ => .inl rfl) fun t ht => absurd ht (hbusy t)

section Apply

variable [DecidableEq Txn]

theorem pooled_apply {e : Effect Conn Txn} (he : e.Leaves c) : (st.apply th e).pooled c = st.pooled c := by
  cases e with
  | checkout c' => exact Function.update_of_ne (Ne.symm he) ..
  | plainCall c' call =>
    simp only [apply, callPlain]
    split_ifs with hcall
    · exact Function.update_of_ne (Ne.symm (he hcall)) ..
    · rfl
  | returnWrapper t c' release => cases release <;> rfl
  | raise x release => cases release <;> rfl
  | _ => rfl

theorem Busy.of_apply {e : Effect Conn Txn} (he : e.Leaves c) {t : Txn} (h : (st.apply th e).Busy t c) :
    st.Busy t c := by
  obtain ⟨h, hstatus⟩ := h
  rw [apply_status] at hstatus
  refine ⟨?_, hstatus⟩
  cases e with
  | putTransaction t' c' =>
    refine h.imp_right fun ⟨x, hx, hc⟩ => ?_
    by_cases ht : t = t'
    · subst ht
      obtain rfl : TransactionContext.mk c' t = x := by simpa [apply] using hx
      exact absurd hc he
    · exact ⟨x, by simpa [apply, ht] using hx, hc⟩
  | removeTransaction t' =>
    refine h.imp_right fun ⟨x, hx, hc⟩ => ?_
    by_cases ht : t = t'
    · simp [apply, ht] at hx
    · exact ⟨x, by simpa [apply, ht] using hx, hc⟩
  | enlistResource t' c' =>
    refine h.imp_left fun hmem => (List.mem_append.mp hmem).resolve_right fun hnew => ?_
    rw [List.mem_singleton, Prod.mk.injEq] at hnew
    exact he hnew.2.symm
  | returnWrapper t' c' release => cases release <;> exact h
  | raise x release => cases release <;> exact h
  | _ => exact h

theorem uses_apply {e : Effect Conn Txn} (he : e.Leaves c) :
    (st.apply th e).uses c = { st.uses c with busy := fun t => (st.apply th e).Busy t c } := by
  simp only [uses, apply_pc, pooled_apply he]

end Apply

variable [DecidableEq Thread]

theorem uses_setPc (st : DsState Thread Conn Txn) (th : Thread) (pc : Pc Conn Txn) (c : Conn) :
    (st.setPc th pc).uses c = (st.uses c).setRole th (pc.role c) := by
  have hrole := Function.comp_update (Pc.role c) st.pc th pc
  exact congrArg (fun role => ({ st.uses c with role := role } : Uses Thread Txn)) hrole

theorem setRole_same {a : Uses Thread Txn} {r : Role Txn} (h : a.role th = r) : a.setRole th r = a := by
  rw [Uses.setRole, ← h, Function.update_eq_self]

/-- A thread that starts something else. -/
theorem uses_idle {pc : Pc Conn Txn} (hidle : st.pc th = .idle) (hpc : pc.role c = .none) :
    (st.setPc th pc).uses c = st.uses c := by
  rw [uses_setPc]
  refine setRole_same ?_
  show (st.pc th).role c = _
  rw [hidle, hpc]
  rfl

theorem uses_close {c : Conn} (h : st.Releasable c) (c' : Conn) :
    (st.uses c').Step ((st.callPlain c .close).uses c') := by
  by_cases hc : c' = c
  · subst hc
    have hclose : (st.callPlain c' .close).uses c' = { st.uses c' with pooled := true } := by
      simp [uses, callPlain, Busy]
    rw [hclose]
    exact .close h.1 h.2
  · have hsame : (st.callPlain c .close).uses c' = { st.uses c' with busy := (st.uses c').busy } := by
      simp [uses, callPlain, Busy, hc]
    rw [hsame]
    exact .quiet fun _ ht => ht

variable [DecidableEq Txn]

/-- One step of a thread. -/
theorem uses_of_instr {answer : Answer Conn} {pc : Pc Conn Txn} {e : Effect Conn Txn} (hapart : st.Apart)
    (hplace : ∀ c, (st.uses c).Place) (hok : st.Careful (.step th answer))
    (hinstr : st.instr (st.pc th) answer = some (pc, e)) (c : Conn) :
    (st.uses c).Step (((st.apply th e).setPc th pc).uses c) := by
  have hcheckout : ∀ p, st.pc th = .checkout p (some c) → st.pooled c = false := fun p hpc =>
    ((hplace c).of_taken (show (st.uses c).role th = _ by simp [uses, hpc, Pc.role, Role.towards])).1
  have hrole := (instr_effect hinstr).roleStep c hcheckout (fun p => hapart th p c)
  have hself : (st.uses c).role th = (st.pc th).role c := rfl
  rw [uses_setPc]
  generalize (st.pc th).role c = r at hrole hself
  generalize pc.role c = r' at hrole
  cases hrole with
  | same he =>
    rw [setRole_same (by rw [uses_apply he]; exact hself), uses_apply he]
    exact .quiet fun t ht => Busy.of_apply he ht
  | take =>
    have hpool : st.pooled c = true := (instr_effect hinstr).1
    have htake : (st.apply th (.checkout c)).uses c = { st.uses c with pooled := false } := by
      simp [uses, apply, Busy]
    rw [htake]
    exact .take hpool
  | drop he hr =>
    rw [uses_apply he]
    exact .drop (fun t => by rw [hself]; exact hr t) fun t ht => Busy.of_apply he ht
  | release =>
    have hrelease : (st.apply th (.plainCall c .close)).uses c = { st.uses c with pooled := true } := by
      simp [uses, apply, callPlain, Busy]
    rw [hrelease]
    exact .release hself
  | close hpc =>
    have hrel : st.Releasable c := by
      rcases hpc with hpc | ⟨w, wrapper, hpc, hw, rfl⟩ <;> simp only [Careful, hpc] at hok
      · exact hok
      · exact hok wrapper hw
    rw [setRole_same (show ((st.apply th (.plainCall c .close)).uses c).role th = .none from hself)]
    exact uses_close hrel c
  | @enter t =>
    refine .enter hself fun t' ⟨hbusy, hstatus⟩ => ?_
    by_cases ht : t' = t
    · exact .inr ht
    · exact .inl ⟨hbusy.imp_right fun ⟨x, hx, hc⟩ => ⟨x, by simpa [apply, ht] using hx, hc⟩, hstatus⟩
  | register => exact .register hself
  | present => exact .present hself
  | @hit o t context hpc h hc =>
    simp only [Careful, hpc] at hok
    exact .hit hself ⟨.inr ⟨context, h, hc⟩, hok⟩
  | @enlist t =>
    rw [setRole_same (show ((st.apply th (.enlistResource t c)).uses c).role th = .inside t from hself)]
    refine .enlist hself fun t' ⟨hbusy, hstatus⟩ => ?_
    by_cases ht : t' = t
    · exact .inr ht
    · exact .inl ⟨hbusy.imp_left fun hmem => by simpa [apply, ht] using hmem, hstatus⟩

theorem Apart.of_instr {answer : Answer Conn} {pc : Pc Conn Txn} {e : Effect Conn Txn} (hapart : st.Apart)
    (hplace : ∀ c, (st.uses c).Place) (hinstr : st.instr (st.pc th) answer = some (pc, e)) :
    ((st.apply th e).setPc th pc).Apart := by
  have hapart' : (st.apply th e).Apart := by rwa [Apart, apply_pc]
  refine hapart'.setPc fun p c hpc => ?_
  subst hpc
  obtain ⟨hcheckout, hpool⟩ := (instr_effect hinstr).origin
  have hrole : (st.uses c).role th = .taken := by simp [uses, hcheckout, Pc.role, Role.towards]
  exact Bool.false_ne_true (((hplace c).of_taken hrole).1.symm.trans hpool)

/-- **Steps of the machine are steps of the view**, as long as they are careful. -/
theorem uses_of_step {a : DsAction Thread Conn Txn} (hapart : st.Apart) (hplace : ∀ c, (st.uses c).Place)
    (hok : st.Careful a) (hs : st.step a = some st') : st'.Apart ∧ ∀ c, (st.uses c).Step (st'.uses c) := by
  cases steps_of_step hs with
  | @setStatus t status h =>
    refine ⟨hapart, fun c => .quiet fun t' ⟨hbusy, hstatus⟩ => ⟨hbusy, ?_⟩⟩
    by_cases ht : t' = t
    · rwa [ht]
    · simpa [ht] using hstatus
  | getConnection h =>
    refine ⟨hapart.setPc fun _ _ => (nomatch ·), fun c => ?_⟩
    rw [uses_idle h rfl]
    exact .quiet fun _ ht => ht
  | call h =>
    refine ⟨hapart.setPc (callEntry_ne_swap _ _), fun c => ?_⟩
    rw [uses_idle h (callEntry_role _ _)]
    exact .quiet fun _ ht => ht
  | @afterCompletion th t i s h hc =>
    refine ⟨Apart.setPc (show (st.runSynchronization t i).Apart from hapart) ?_, fun c => ?_⟩
    · cases s <;> exact fun _ _ => (nomatch ·)
    · rw [uses_idle (show (st.runSynchronization t i).pc th = .idle from h) (entry_role s t)]
      exact .quiet fun _ ht => ht
  | closeLent => exact ⟨hapart, uses_close hok⟩
  | step hinstr => exact ⟨hapart.of_instr hplace hinstr, uses_of_instr hapart hplace hok hinstr⟩

/-- **Enlisted connections.**  In every state that careful steps reach, a connection that is enlisted in a transaction
which has not completed is not returned to anybody outside this transaction. -/
theorem enlisted_not_returned {status : Txn → Status} {pooled : Conn → Bool}
    (h : Runs step Careful (start status pooled : DsState Thread Conn Txn) st) : st.NotReturnedOutside := by
  have hinv : st.Apart ∧ ∀ c, (st.uses c).Place :=
    Runs.simulation (K := Apart) (v := uses) (R := fun a b => ∀ c, (a c).Step (b c))
      (J := fun a => ∀ c, (a c).Place) h ⟨fun _ _ _ => (nomatch ·), place_start status pooled⟩
      (fun _ _ _ hapart hplace hok hs => uses_of_step hapart hplace hok hs)
      (fun _ _ hplace hstep c => (hplace c).step (hstep c))
  exact notReturnedOutside_of_place hinv.2

/-! ### A wrapper that is closed after the transaction, and before its end -/

/-- `false` registers its connection; when the status is `status` it closes the wrapper, and `true` asks for a
connection outside any transaction. -/
def closesAt (status : Status) : List (DsAction Bool Bool Unit) :=
  looks false .userPassword ++ registersLocking false false ++ [.setStatus () status, .call false 0 .close] ++
    List.replicate 3 (.step false .go) ++ [.getConnection true .plain none, .step true .go,
      .step true (.connection false)] ++ List.replicate 5 (.step true .go)

theorem along_closesAt_completed : Along step Careful twoPooled (closesAt .completed) :=
  .cons rfl trivial <| .cons rfl trivial <| .cons rfl (fun h => nomatch h) <| .cons rfl trivial <|
    .cons rfl trivial <| .cons rfl trivial <| .cons rfl trivial <| .cons rfl trivial <| .cons rfl trivial <|
      .cons rfl trivial <| .cons rfl trivial <| .cons rfl trivial <| .cons rfl trivial <| .cons rfl trivial <|
        .cons rfl trivial <|
          .cons rfl (fun _ h => Option.some.inj h ▸ ⟨fun th => by cases th <;> rfl, fun _ hbusy => hbusy.2 rfl⟩) <|
            .cons rfl trivial <| .cons rfl trivial <| .cons rfl trivial <| .cons rfl trivial <|
              .cons rfl trivial <| .cons rfl trivial <| .cons rfl trivial <| .cons rfl trivial trivial

theorem enlisted_not_returned_completed : ∃ st : DsState Bool Bool Unit,
    st.pc true = .give false ∧ ((), false) ∈ st.enlisted ∧ st.NotReturnedOutside := by
  refine ⟨_, ?_, ?_, enlisted_not_returned (Runs.of_along _ along_closesAt_completed rfl)⟩
  · rfl
  · exact List.mem_cons_self

/-- Closed while the transaction is `PREPARING`, the connection is handed to the caller outside. -/
theorem enlisted_returned_outside :
    ¬ ∀ st : DsState Bool Bool Unit, Reaches step twoPooled st → st.NotReturnedOutside := by
  intro h
  obtain ⟨st, hreach, hview⟩ : ∃ st : DsState Bool Bool Unit, Reaches step twoPooled st ∧
      (st.pc true, st.enlisted, st.status ()) = (.give false, [((), false)], .preparing) :=
    Runs.of_exec_map (closesAt .preparing) rfl
  simp only [Prod.mk.injEq] at hview
  obtain ⟨hpc, henlisted, hstatus⟩ := hview
  have hreturns : (st.pc true).Returns false none := by rw [hpc]; exact ⟨rfl, rfl⟩
  have hbad := h st hreach true false none () hreturns (by rw [henlisted]; exact List.mem_singleton.mpr rfl)
    (by rw [hstatus]; exact fun h => nomatch h)
  cases hbad

end DsState

end Dynamy.Services
