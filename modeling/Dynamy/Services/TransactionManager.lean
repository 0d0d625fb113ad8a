import Dynamy.Java
import Dynamy.Lib.Owner
import Dynamy.Lib.Run
import Mathlib.Data.List.Count

/-!
# Dynamy.Services.TransactionManager — who looks the transaction manager up, and who gives it back

`getTransactionManager` tests the field outside the lock and does not test it again inside, so every call that found
`null` looks the service up, one after the other; `close` gives back one use, of the reference that was found last.
Services come and go, and the framework counts the uses of each.

`uses_exact` accounts for every use, in any interleaving; `manager_settles` says that a manager that was found stays,
closed or unregistered, as soon as no lookup is under way; `uses_any` that any number of uses may be left after any
number of closes.
-/

namespace Dynamy.Services

open Dynamy.Java Dynamy.Lib

variable {Thread Service : Type}

/-- The two methods that take `transactionManagerLock`. -/
inductive LockingMethod
  | getTransactionManager | close
  deriving DecidableEq, Repr

/-- The point a thread has reached; each constructor is named after the access that comes next. -/
inductive ManagerPc (Service : Type)
  | idle
  /-- `transactionManager == null` -/
  | testManager
  /-- `transactionManagerRef != null` -/
  | testRef
  | lock (m : LockingMethod)
  | getServiceReference
  | assignRef (ref : Option Service)
  | getService
  | assignManager (service : Option Service)
  | ungetService
  | unlock (m : LockingMethod) (raised : Option Throwable)
  /-- the last read of `transactionManager` -/
  | answer
  /-- `super.close()` -/
  | superClose
  deriving DecidableEq

/-- What the framework answers, where it has a choice. -/
inductive ManagerAnswer (Service : Type)
  | go
  | reference (ref : Option Service)
  /-- the factory of the service gives none -/
  | noService
  | raises (e : Throwable)
  deriving DecidableEq

/-- A service stands for its registration: the reference and the object. -/
structure ManagerState (Thread Service : Type) where
  transactionManager : Option Service := none
  transactionManagerRef : Option Service := none
  /-- of `transactionManagerLock` -/
  owner : Option Thread := none
  registered : List Service
  useCount : Service → ℕ := fun _ => 0
  pc : Thread → ManagerPc Service := fun _ => .idle

inductive ManagerAction (Thread Service : Type)
  | getTransactionManager (th : Thread)
  | close (th : Thread)
  | step (th : Thread) (answer : ManagerAnswer Service)
  | register (s : Service)
  | unregister (s : Service)
  deriving DecidableEq

/-- Inside the lock. -/
def LockingMethod.entry : LockingMethod → ManagerPc Service
  | .getTransactionManager => .getServiceReference
  | .close => .ungetService

/-- After the lock; the `finally` lets an exception through. -/
def LockingMethod.after : LockingMethod → Option Throwable → ManagerPc Service
  | _, some _ => .idle
  | .getTransactionManager, none => .answer
  | .close, none => .superClose

namespace ManagerState

def start (registered : List Service) : ManagerState Thread Service := { registered := registered }

section Machine

variable [DecidableEq Thread] [DecidableEq Service] (st : ManagerState Thread Service)

def setPc (th : Thread) (pc : ManagerPc Service) : ManagerState Thread Service :=
  { st with pc := Function.update st.pc th pc }

/-- `getServiceReference` finds one of the services, and `null` only if there is none. -/
def mayFind : Option Service → Bool
  | some s => s ∈ st.registered
  | none => st.registered = []

/-- The service that `getService` of the reference returns, null if it is gone; it counts one use. -/
def getService (s : Service) : ManagerState Thread Service × Option Service :=
  if s ∈ st.registered then ({ st with useCount := Function.update st.useCount s (st.useCount s + 1) }, some s)
  else (st, none)

/-- One use less, if there is one. -/
def ungetService (s : Service) : ManagerState Thread Service :=
  { st with useCount := Function.update st.useCount s (st.useCount s - 1) }

/-- The next access of a thread. -/
def turn (th : Thread) (answer : ManagerAnswer Service) : Option (ManagerState Thread Service) :=
  match st.pc th, answer with
  | .testManager, .go =>
    some (st.setPc th (if st.transactionManager = none then .lock .getTransactionManager else .answer))
  | .testRef, .go => some (st.setPc th (if st.transactionManagerRef = none then .superClose else .lock .close))
  | .lock m, .go => if st.owner = none then some ({ st with owner := some th }.setPc th m.entry) else none
  | .getServiceReference, .reference ref => if st.mayFind ref then some (st.setPc th (.assignRef ref)) else none
  | .getServiceReference, .raises e => some (st.setPc th (.unlock .getTransactionManager (some e)))
  | .assignRef ref, .go => some ({ st with transactionManagerRef := ref }.setPc th .getService)
  | .getService, .go =>
    match st.transactionManagerRef with
    | some s => some ((st.getService s).1.setPc th (.assignManager (st.getService s).2))
    | none => some (st.setPc th (.unlock .getTransactionManager (some ⟨.nullPointer, none⟩)))
  | .getService, .noService =>
    if st.transactionManagerRef = none then none else some (st.setPc th (.assignManager none))
  | .getService, .raises e => some (st.setPc th (.unlock .getTransactionManager (some e)))
  | .assignManager service, .go =>
    some ({ st with transactionManager := service }.setPc th (.unlock .getTransactionManager none))
  | .ungetService, .go =>
    match st.transactionManagerRef with
    | some s => some ((st.ungetService s).setPc th (.unlock .close none))
    | none => some (st.setPc th (.unlock .close (some ⟨.nullPointer, none⟩)))
  | .ungetService, .raises e => some (st.setPc th (.unlock .close (some e)))
  | .unlock m raised, .go => some ({ st with owner := none }.setPc th (m.after raised))
  | .answer, .go => some (st.setPc th .idle)
  | .superClose, .go => some (st.setPc th .idle)
  | .superClose, .raises _ => some (st.setPc th .idle)
  | _, _ => none

def step : ManagerAction Thread Service → Option (ManagerState Thread Service)
  | .getTransactionManager th => if st.pc th = .idle then some (st.setPc th .testManager) else none
  | .close th => if st.pc th = .idle then some (st.setPc th .testRef) else none
  | .step th answer => st.turn th answer
  | .register s => if s ∈ st.registered then none else some { st with registered := s :: st.registered }
  -- the framework gives back what its bundles use of the service
  | .unregister s => if s ∈ st.registered then
      some { st with registered := st.registered.filter (· ≠ s), useCount := Function.update st.useCount s 0 } else none

end Machine

end ManagerState

/-! ### What a step does -/

/-- What is counted, of what the threads and the framework do. -/
inductive ManagerEvent (Thread Service : Type)
  /-- a call of `getTransactionManager` found `null` in the field -/
  | foundNull (th : Thread)
  | got (th : Thread) (s : Service)
  /-- its lookup ended without a service -/
  | missed (th : Thread)
  /-- a call of `close` found a reference in the field -/
  | foundRef (th : Thread)
  | gaveBack (th : Thread) (s : Service)
  /-- it gave nothing back -/
  | gaveNothing (th : Thread)
  | unregistered (s : Service)
  | answered (th : Thread) (service : Option Service)
  deriving DecidableEq

namespace ManagerEvent

variable [DecidableEq Thread] [DecidableEq Service]

def isGot (s : Service) : ManagerEvent Thread Service → Bool
  | .got _ s' => s' = s
  | _ => false

def isGivenBack (s : Service) : ManagerEvent Thread Service → Bool
  | .gaveBack _ s' => s' = s
  | _ => false

def getsFor (th : Thread) : ManagerEvent Thread Service → Bool
  | .got th' _ => th' = th
  | _ => false

def givesFor (th : Thread) : ManagerEvent Thread Service → Bool
  | .gaveBack th' _ => th' = th
  | _ => false

/-- The log since the framework took all uses of the service back, the last event first. -/
def recent (s : Service) (log : List (ManagerEvent Thread Service)) : List (ManagerEvent Thread Service) :=
  log.reverse.takeWhile (· ≠ .unregistered s)

end ManagerEvent

namespace ManagerPc

/-- The thread is between `lock()` and `unlock()`. -/
def inLock : ManagerPc Service → Bool
  | .getServiceReference | .assignRef _ | .getService | .assignManager _ | .ungetService | .unlock _ _ => true
  | _ => false

/-- The call has found `null` and not yet asked for the service. -/
def mayGet : ManagerPc Service → Bool
  | .lock .getTransactionManager | .getServiceReference | .assignRef _ | .getService => true
  | _ => false

/-- The call has found a reference and not yet given it back. -/
def mayGiveBack : ManagerPc Service → Bool
  | .lock .close | .ungetService => true
  | _ => false

/-- The call will write a field. -/
def looking : ManagerPc Service → Bool
  | .assignManager _ => true
  | pc => pc.mayGet

/-- Moving on takes and gives up no lock, and the same accesses are ahead. -/
def allows (pc pc' : ManagerPc Service) : Bool :=
  pc'.inLock == pc.inLock && pc'.mayGet == pc.mayGet && pc'.mayGiveBack == pc.mayGiveBack &&
    (!pc'.looking || pc.looking)

/-- Moving on ends the lookup, but not yet the block. -/
def abandons (pc pc' : ManagerPc Service) : Bool :=
  pc.mayGet && pc.inLock && pc'.inLock && !pc'.mayGet && !pc'.mayGiveBack

theorem allows_iff {pc pc' : ManagerPc Service} : pc.allows pc' ↔ pc'.inLock = pc.inLock ∧ pc'.mayGet = pc.mayGet ∧
    pc'.mayGiveBack = pc.mayGiveBack ∧ (pc'.looking → pc.looking) := by
  simp only [allows, Bool.and_eq_true, beq_iff_eq, Bool.or_eq_true, Bool.not_eq_true', and_assoc,
    imp_iff_not_or, Bool.not_eq_true]

theorem abandons_iff {pc pc' : ManagerPc Service} : pc.abandons pc' ↔ pc.mayGet = true ∧ pc.inLock = true ∧
    pc'.inLock = true ∧ pc'.mayGet = false ∧ pc'.mayGiveBack = false := by
  simp only [abandons, Bool.and_eq_true, Bool.not_eq_true', and_assoc]

/-- Inside the lock the call has the same accesses ahead. -/
theorem entry_ahead (m : LockingMethod) : (m.entry : ManagerPc Service).inLock = true ∧
    (m.entry : ManagerPc Service).mayGet = (ManagerPc.lock m : ManagerPc Service).mayGet ∧
    (m.entry : ManagerPc Service).mayGiveBack = (ManagerPc.lock m : ManagerPc Service).mayGiveBack ∧
    (m.entry : ManagerPc Service).looking = (ManagerPc.lock m : ManagerPc Service).looking := by
  cases m <;> exact ⟨rfl, rfl, rfl, rfl⟩

/-- After it there are none. -/
theorem after_ahead (m : LockingMethod) (raised : Option Throwable) :
    (m.after raised : ManagerPc Service).inLock = false ∧ (m.after raised : ManagerPc Service).mayGet = false ∧
      (m.after raised : ManagerPc Service).mayGiveBack = false ∧
      (m.after raised : ManagerPc Service).looking = false := by
  cases m <;> cases raised <;> exact ⟨rfl, rfl, rfl, rfl⟩

/-- A call of `close` asks for no service. -/
theorem mayGiveBack_of_mayGet {pc : ManagerPc Service} (h : pc.mayGet = true) : pc.mayGiveBack = false := by
  cases pc with
  | lock m => cases m <;> first | rfl | cases h
  | _ => first | rfl | cases h

theorem looking_of_mayGet {pc : ManagerPc Service} (h : pc.mayGet = true) : pc.looking = true := by
  cases pc with
  | assignManager => rfl
  | _ => exact h

end ManagerPc

namespace ManagerState

variable [DecidableEq Thread] [DecidableEq Service]

/-- What a turn of a thread adds to the log. -/
def noted (st : ManagerState Thread Service) (th : Thread) (answer : ManagerAnswer Service) :
    List (ManagerEvent Thread Service) :=
  match st.pc th, answer with
  | .testManager, _ => if st.transactionManager = none then [.foundNull th] else []
  | .testRef, _ => if st.transactionManagerRef = none then [] else [.foundRef th]
  | .getServiceReference, .raises _ => [.missed th]
  | .getService, .go =>
    match st.transactionManagerRef with
    | some s => if s ∈ st.registered then [.got th s] else [.missed th]
    | none => [.missed th]
  | .getService, _ => [.missed th]
  | .ungetService, .go =>
    match st.transactionManagerRef with
    | some s => if 0 < st.useCount s then [.gaveBack th s] else [.gaveNothing th]
    | none => [.gaveNothing th]
  | .ungetService, _ => [.gaveNothing th]
  | .answer, _ => [.answered th st.transactionManager]
  | _, _ => []

def events (st : ManagerState Thread Service) : ManagerAction Thread Service → List (ManagerEvent Thread Service)
  | .step th answer => st.noted th answer
  | .unregister s => [.unregistered s]
  | .getTransactionManager _ | .close _ | .register _ => []

variable {st st' : ManagerState Thread Service} {th th' : Thread} {answer : ManagerAnswer Service} {s : Service}
  {pc : ManagerPc Service}

omit [DecidableEq Service] in
@[simp] theorem setPc_self : (st.setPc th pc).pc th = pc := Function.update_self ..

omit [DecidableEq Service] in
@[simp] theorem setPc_of_ne (h : th' ≠ th) : (st.setPc th pc).pc th' = st.pc th' := Function.update_of_ne h ..

omit [DecidableEq Thread] in
theorem ungetService_of_zero (h : st.useCount s = 0) : st.ungetService s = st := by
  have hsame : Function.update st.useCount s (st.useCount s - 1) = st.useCount := by simp [h]
  rw [ungetService, hsame]

/-- What a turn of a thread can be, with what it adds to the log. -/
inductive Turn (st : ManagerState Thread Service) (th : Thread) :
    ManagerState Thread Service → List (ManagerEvent Thread Service) → Prop
  | foundNull (hpc : st.pc th = .testManager) (h : st.transactionManager = none) :
      Turn st th (st.setPc th (.lock .getTransactionManager)) [.foundNull th]
  | foundRef (hpc : st.pc th = .testRef) (h : st.transactionManagerRef ≠ none) :
      Turn st th (st.setPc th (.lock .close)) [.foundRef th]
  | locks {m : LockingMethod} (hpc : st.pc th = .lock m) (hfree : st.owner = none) :
      Turn st th ({ st with owner := some th }.setPc th m.entry) []
  | assignsRef {ref : Option Service} (hpc : st.pc th = .assignRef ref) :
      Turn st th ({ st with transactionManagerRef := ref }.setPc th .getService) []
  | gets {s : Service} (hpc : st.pc th = .getService) (href : st.transactionManagerRef = some s)
      (hs : s ∈ st.registered) :
      Turn st th ({ st with useCount := Function.update st.useCount s (st.useCount s + 1) }.setPc th
        (.assignManager (some s))) [.got th s]
  | assignsManager {service : Option Service} (hpc : st.pc th = .assignManager service) :
      Turn st th ({ st with transactionManager := service }.setPc th (.unlock .getTransactionManager none)) []
  | misses {pc : ManagerPc Service} (h : (st.pc th).abandons pc) : Turn st th (st.setPc th pc) [.missed th]
  | givesBack {s : Service} (hpc : st.pc th = .ungetService) (href : st.transactionManagerRef = some s)
      (hs : 0 < st.useCount s) :
      Turn st th ((st.ungetService s).setPc th (.unlock .close none)) [.gaveBack th s]
  | givesNothing {raised : Option Throwable} (hpc : st.pc th = .ungetService) :
      Turn st th (st.setPc th (.unlock .close raised)) [.gaveNothing th]
  | unlocks {m : LockingMethod} {raised : Option Throwable} (hpc : st.pc th = .unlock m raised) :
      Turn st th ({ st with owner := none }.setPc th (m.after raised)) []
  | answers (hpc : st.pc th = .answer) :
      Turn st th (st.setPc th .idle) [.answered th st.transactionManager]
  /-- the thread moves on, and nothing else changes -/
  | moves {pc : ManagerPc Service} (h : (st.pc th).allows pc) : Turn st th (st.setPc th pc) []

theorem turn_of_step (h : st.turn th answer = some st') : Turn st th st' (st.noted th answer) := by
  cases hpc : st.pc th <;> cases answer <;>
    simp only [turn, hpc, Option.ite_none_right_eq_some, Option.ite_none_left_eq_some, Option.some.injEq,
      reduceCtorEq] at h
  case testManager.go =>
    subst h
    by_cases hm : st.transactionManager = none
    · simp only [noted, hpc, hm, if_true]
      exact .foundNull hpc hm
    · simp only [noted, hpc, hm, if_false]
      exact .moves (by rw [hpc]; rfl)
  case testRef.go =>
    subst h
    by_cases hr : st.transactionManagerRef = none
    · simp only [noted, hpc, hr, if_true]
      exact .moves (by rw [hpc]; rfl)
    · simp only [noted, hpc, hr, if_false]
      exact .foundRef hpc hr
  case lock.go m =>
    obtain ⟨hfree, rfl⟩ := h
    simp only [noted, hpc]
    exact .locks hpc hfree
  case getServiceReference.reference ref =>
    obtain ⟨-, rfl⟩ := h
    simp only [noted, hpc]
    exact .moves (by rw [hpc]; rfl)
  case getServiceReference.raises e =>
    subst h
    simp only [noted, hpc]
    exact .misses (by rw [hpc]; rfl)
  case getService.go =>
    cases href : st.transactionManagerRef with
    | none =>
      simp only [href, Option.some.injEq] at h
      subst h
      simp only [noted, hpc, href]
      exact .misses (by rw [hpc]; rfl)
    | some s =>
      simp only [href, Option.some.injEq] at h
      subst h
      by_cases hs : s ∈ st.registered
      · have hnoted : st.noted th .go = [.got th s] := by simp only [noted, hpc, href, hs, if_true]
        rw [hnoted, getService, if_pos hs]
        exact .gets hpc href hs
      · have hnoted : st.noted th .go = [.missed th] := by simp only [noted, hpc, href, hs, if_false]
        rw [hnoted, getService, if_neg hs]
        exact .misses (by rw [hpc]; rfl)
  case getService.noService =>
    obtain ⟨-, rfl⟩ := h
    simp only [noted, hpc]
    exact .misses (by rw [hpc]; rfl)
  case getService.raises e =>
    subst h
    simp only [noted, hpc]
    exact .misses (by rw [hpc]; rfl)
  case ungetService.go =>
    cases href : st.transactionManagerRef with
    | none =>
      simp only [href, Option.some.injEq] at h
      subst h
      simp only [noted, hpc, href]
      exact .givesNothing hpc
    | some s =>
      simp only [href, Option.some.injEq] at h
      subst h
      by_cases hs : 0 < st.useCount s
      · have hnoted : st.noted th .go = [.gaveBack th s] := by simp only [noted, hpc, href, hs, if_true]
        rw [hnoted]
        exact .givesBack hpc href hs
      · have hnoted : st.noted th .go = [.gaveNothing th] := by simp only [noted, hpc, href, hs, if_false]
        rw [hnoted, ungetService_of_zero (by omega)]
        exact .givesNothing hpc
  case ungetService.raises e =>
    subst h
    simp only [noted, hpc]
    exact .givesNothing hpc
  all_goals
    subst h
    simp only [noted, hpc]
  case assignRef.go => exact .assignsRef hpc
  case assignManager.go => exact .assignsManager hpc
  case unlock.go => exact .unlocks hpc
  case answer.go => exact .answers hpc
  all_goals exact .moves (by rw [hpc]; rfl)

/-! ### The lock -/

/-- The lock is with the thread that is between `lock()` and `unlock()`. -/
def LockExact (st : ManagerState Thread Service) : Prop := Owns st.owner fun th => (st.pc th).inLock

omit [DecidableEq Service] in
theorem LockExact.setPc (h : st.LockExact) (hpc : pc.inLock = (st.pc th).inLock) : (st.setPc th pc).LockExact := by
  refine Owns.stays h fun th' => ?_
  by_cases hth : th' = th
  · subst hth
    rw [setPc_self, hpc]
  · rw [setPc_of_ne hth]

theorem LockExact.turn {es : List (ManagerEvent Thread Service)} (h : st.LockExact) (ht : Turn st th st' es) :
    st'.LockExact := by
  cases ht with
  | foundNull hpc => exact h.setPc (by rw [hpc]; rfl)
  | foundRef hpc => exact h.setPc (by rw [hpc]; rfl)
  | @locks m hpc hfree =>
    have hnobody : Owns none fun th => (st.pc th).inLock := hfree ▸ h
    refine hnobody.acquire ?_ fun th' hth => by rw [setPc_of_ne hth]
    rw [setPc_self, (ManagerPc.entry_ahead m).1]
  | @assignsRef ref hpc =>
    have hsame : LockExact { st with transactionManagerRef := ref } := h
    exact hsame.setPc (by rw [hpc]; rfl)
  | @gets s hpc =>
    have hsame : LockExact { st with useCount := Function.update st.useCount s (st.useCount s + 1) } := h
    exact hsame.setPc (by rw [hpc]; rfl)
  | @assignsManager service hpc =>
    have hsame : LockExact { st with transactionManager := service } := h
    exact hsame.setPc (by rw [hpc]; rfl)
  | misses habandons =>
    have hin := ManagerPc.abandons_iff.mp habandons
    exact h.setPc (hin.2.2.1.trans hin.2.1.symm)
  | @givesBack s hpc =>
    have hsame : (st.ungetService s).LockExact := h
    exact hsame.setPc (by show _ = (st.pc th).inLock; rw [hpc]; rfl)
  | givesNothing hpc => exact h.setPc (by rw [hpc]; rfl)
  | @unlocks m raised hpc =>
    have hin : (st.pc th).inLock := by rw [hpc]; rfl
    refine Owns.release h hin ?_ fun th' hth => by rw [setPc_of_ne hth]
    rw [setPc_self, (ManagerPc.after_ahead m raised).1]
    exact Bool.false_ne_true
  | answers hpc => exact h.setPc (by rw [hpc]; rfl)
  | moves hallows => exact h.setPc (ManagerPc.allows_iff.mp hallows).1

/-! ### The accounts -/

variable {es log : List (ManagerEvent Thread Service)}

open ManagerEvent

theorem recent_append (h : .unregistered s ∉ es) : recent s (log ++ es) = es.reverse ++ recent s log := by
  rw [recent, List.reverse_append, List.takeWhile_append_of_pos]
  · rfl
  · intro e he
    have hne : e ≠ .unregistered s := fun heq => h (heq ▸ List.mem_reverse.mp he)
    simp [hne]

theorem recent_unregistered (s : Service) : recent s (log ++ [.unregistered s]) = [] := by
  simp [recent]

theorem Turn.unregistered (ht : Turn st th st' es) (s : Service) : .unregistered s ∉ es := by
  cases ht <;> simp

theorem Turn.uses (ht : Turn st th st' es) (s : Service) :
    st'.useCount s + es.countP (isGivenBack s) = st.useCount s + es.countP (isGot s) := by
  cases ht with
  | @gets s' hpc href hs =>
    by_cases heq : s = s'
    · subst heq
      simp [setPc, isGivenBack, isGot]
    · simp [setPc, isGivenBack, isGot, Function.update_of_ne heq, Ne.symm heq]
  | @givesBack s' hpc href hs =>
    by_cases heq : s = s'
    · subst heq
      simp [setPc, ManagerState.ungetService, isGivenBack, isGot]
      omega
    · simp [setPc, ManagerState.ungetService, isGivenBack, isGot, Function.update_of_ne heq, Ne.symm heq]
  | _ => simp [setPc, isGivenBack, isGot]

/-- The events of a turn are those of its thread. -/
theorem Turn.others (ht : Turn st th st' es) (hth : th' ≠ th) : st'.pc th' = st.pc th' ∧ es.count (.foundNull th') = 0 ∧
    es.countP (getsFor th') = 0 ∧ es.count (.missed th') = 0 ∧ es.count (.foundRef th') = 0 ∧
    es.countP (givesFor th') = 0 ∧ es.count (.gaveNothing th') = 0 := by
  cases ht <;> simp [hth, Ne.symm hth, getsFor, givesFor, ManagerState.ungetService]

theorem Turn.lookups (ht : Turn st th st' es) : es.count (.foundNull th) + (st.pc th).mayGet.toNat =
    es.countP (getsFor th) + es.count (.missed th) + (st'.pc th).mayGet.toNat := by
  cases ht with
  | @locks m hpc => simp [hpc, (ManagerPc.entry_ahead m).2.1]
  | @unlocks m raised hpc =>
    rw [setPc_self, (ManagerPc.after_ahead m raised).2.1, hpc]
    rfl
  | moves h => simp [(ManagerPc.allows_iff.mp h).2.1]
  | misses h => simp [ManagerPc.abandons_iff.mp h, getsFor]
  | _ => simp [*, ManagerPc.mayGet, getsFor]

theorem Turn.closes (ht : Turn st th st' es) : es.count (.foundRef th) + (st.pc th).mayGiveBack.toNat =
    es.countP (givesFor th) + es.count (.gaveNothing th) + (st'.pc th).mayGiveBack.toNat := by
  cases ht with
  | @locks m hpc => simp [hpc, (ManagerPc.entry_ahead m).2.2.1]
  | @unlocks m raised hpc =>
    rw [setPc_self, (ManagerPc.after_ahead m raised).2.2.1, hpc]
    rfl
  | moves h => simp [(ManagerPc.allows_iff.mp h).2.2.1]
  | misses h =>
    have hgive := ManagerPc.mayGiveBack_of_mayGet (ManagerPc.abandons_iff.mp h).1
    simp [ManagerPc.abandons_iff.mp h, hgive, givesFor]
  | _ => simp [*, ManagerPc.mayGiveBack, givesFor]

/-- The accounts that the log keeps: of the uses of each service, and of the calls of each thread. -/
structure Accounts (st : ManagerState Thread Service) (log : List (ManagerEvent Thread Service)) : Prop where
  uses : ∀ s, st.useCount s + (recent s log).countP (isGivenBack s) = (recent s log).countP (isGot s)
  lookups : ∀ th, log.count (.foundNull th) =
    log.countP (getsFor th) + log.count (.missed th) + (st.pc th).mayGet.toNat
  closes : ∀ th, log.count (.foundRef th) =
    log.countP (givesFor th) + log.count (.gaveNothing th) + (st.pc th).mayGiveBack.toNat

theorem Accounts.turn (h : st.Accounts log) (ht : Turn st th st' es) : st'.Accounts (log ++ es) where
  uses s := by
    have hkept := h.uses s
    have hturn := ht.uses s
    rw [recent_append (ht.unregistered s)]
    simp only [List.countP_append, List.countP_reverse]
    omega
  lookups th' := by
    have hkept := h.lookups th'
    simp only [List.count_append, List.countP_append]
    by_cases hth : th' = th
    · subst hth
      have hturn := ht.lookups
      omega
    · obtain ⟨hpc, hfound, hgot, hmissed, -⟩ := ht.others hth
      rw [hpc, hfound, hgot, hmissed]
      omega
  closes th' := by
    have hkept := h.closes th'
    simp only [List.count_append, List.countP_append]
    by_cases hth : th' = th
    · subst hth
      have hturn := ht.closes
      omega
    · obtain ⟨hpc, -, -, -, hfound, hgave, hnothing⟩ := ht.others hth
      rw [hpc, hfound, hgave, hnothing]
      omega

/-- A call begins; nothing is ahead before its test. -/
theorem Accounts.begins (h : st.Accounts log) (hidle : st.pc th = .idle) (hget : pc.mayGet = false)
    (hgive : pc.mayGiveBack = false) : (st.setPc th pc).Accounts log where
  uses := h.uses
  lookups th' := by
    by_cases hth : th' = th
    · subst hth
      rw [setPc_self, hget, h.lookups th', hidle]
      rfl
    · rw [setPc_of_ne hth]
      exact h.lookups th'
  closes th' := by
    by_cases hth : th' = th
    · subst hth
      rw [setPc_self, hgive, h.closes th', hidle]
      rfl
    · rw [setPc_of_ne hth]
      exact h.closes th'

/-- The framework takes back all uses of one service. -/
theorem Accounts.unregister (h : st.Accounts log) (s : Service) (registered : List Service) :
    Accounts { st with registered := registered, useCount := Function.update st.useCount s 0 }
      (log ++ [.unregistered s]) where
  uses s' := by
    by_cases hs : s' = s
    · subst hs
      rw [recent_unregistered]
      simp
    · have hother : ManagerEvent.unregistered s' ∉ [(.unregistered s : ManagerEvent Thread Service)] := by simp [hs]
      rw [recent_append hother]
      simpa [Function.update_of_ne hs, isGot, isGivenBack] using h.uses s'
  lookups th' := by simpa [getsFor] using h.lookups th'
  closes th' := by simpa [givesFor] using h.closes th'

/-- **One step** keeps the lock and the accounts. -/
theorem lockExact_accounts_step {a : ManagerAction Thread Service} (hlock : st.LockExact) (h : st.Accounts log)
    (hs : st.step a = some st') : st'.LockExact ∧ st'.Accounts (log ++ st.events a) := by
  cases a with
  | getTransactionManager th =>
    simp only [step, Option.ite_none_right_eq_some, Option.some.injEq] at hs
    obtain ⟨hidle, rfl⟩ := hs
    simp only [events, List.append_nil]
    exact ⟨hlock.setPc (by rw [hidle]; rfl), h.begins hidle rfl rfl⟩
  | close th =>
    simp only [step, Option.ite_none_right_eq_some, Option.some.injEq] at hs
    obtain ⟨hidle, rfl⟩ := hs
    simp only [events, List.append_nil]
    exact ⟨hlock.setPc (by rw [hidle]; rfl), h.begins hidle rfl rfl⟩
  | step th answer =>
    have ht := turn_of_step hs
    exact ⟨hlock.turn ht, h.turn ht⟩
  | register s =>
    simp only [step, Option.ite_none_left_eq_some, Option.some.injEq] at hs
    obtain ⟨-, rfl⟩ := hs
    simp only [events, List.append_nil]
    exact ⟨hlock, ⟨h.uses, h.lookups, h.closes⟩⟩
  | unregister s =>
    simp only [step, Option.ite_none_right_eq_some, Option.some.injEq] at hs
    obtain ⟨-, rfl⟩ := hs
    exact ⟨hlock, h.unregister s _⟩

/-- **Every use is accounted for**, in any interleaving, services coming and going, whatever the framework raises: the
lock is with the thread between `lock()` and `unlock()`; the use count of a service is the number of lookups that got it
less the number of closes that gave it back, since the framework last took it away; and each call that found `null`
looked up once, each close that found a reference gave back at most once, unless it is still about to. -/
theorem uses_exact {registered : List Service} (h : Reaches (logged step events)
    ((start registered, []) : ManagerState Thread Service × _) (st, log)) :
    (∀ th, st.owner = some th ↔ (st.pc th).inLock) ∧
      (∀ s, st.useCount s + (recent s log).countP (isGivenBack s) = (recent s log).countP (isGot s)) ∧
      (∀ th, log.count (.foundNull th) =
        log.countP (getsFor th) + log.count (.missed th) + (st.pc th).mayGet.toNat) ∧
      ∀ th, log.count (.foundRef th) =
        log.countP (givesFor th) + log.count (.gaveNothing th) + (st.pc th).mayGiveBack.toNat := by
  have hinv : st.LockExact ∧ st.Accounts log := by
    refine Runs.invariant (I := fun x => x.1.LockExact ∧ x.1.Accounts x.2) ⟨fun th => ?_, ?_⟩
      (fun x a y hI _ hs => ?_) h
    · exact ⟨nofun, nofun⟩
    · exact ⟨fun _ => rfl, fun _ => rfl, fun _ => rfl⟩
    · obtain ⟨hs, hlog⟩ := logged_eq_some.mp hs
      rw [hlog]
      exact lockExact_accounts_step hI.1 hI.2 hs
  exact ⟨hinv.1, hinv.2.uses, hinv.2.lookups, hinv.2.closes⟩

/-- Two calls find `null`; the one that waits for the lock gets the service as well. -/
theorem uses_exact_twice : ∃ st : ManagerState Bool Unit, st.transactionManager = some () ∧ st.useCount () = 2 := by
  have hreach : ∃ x, Reaches (logged step events) ((start [()], []) : ManagerState Bool Unit × _) x ∧
      (x.1.transactionManager, x.2) = (some (), [.foundNull false, .foundNull true, .got false (), .got true ()]) :=
    Runs.of_exec_map ([.getTransactionManager false, .getTransactionManager true, .step false .go, .step true .go,
      .step false .go, .step false (.reference (some ())), .step false .go, .step false .go, .step false .go,
      .step false .go, .step true .go, .step true (.reference (some ())), .step true .go, .step true .go]) rfl
  obtain ⟨⟨st, log⟩, hreach, hview⟩ := hreach
  simp only [Prod.mk.injEq] at hview
  obtain ⟨hfound, rfl⟩ := hview
  have huses := (uses_exact hreach).2.1 ()
  exact ⟨st, hfound, huses⟩

/-! ### A manager that stays -/

/-- The manager is there, and no call will write a field. -/
structure Settled (s : Service) (ref : Option Service) (st : ManagerState Thread Service) : Prop where
  found : st.transactionManager = some s
  ref : st.transactionManagerRef = ref
  nobody : ∀ th, (st.pc th).looking = false

variable {ref : Option Service}

omit [DecidableEq Service] in
theorem Settled.setPc (h : Settled s ref st) (hpc : pc.looking = false) : Settled s ref (st.setPc th pc) where
  found := h.found
  ref := h.ref
  nobody th' := by
    by_cases hth : th' = th
    · subst hth
      rw [setPc_self, hpc]
    · rw [setPc_of_ne hth]
      exact h.nobody th'

/-- A turn leaves it there, adds no use, and answers with it. -/
theorem Settled.turn (h : Settled s ref st) (ht : Turn st th st' es) : Settled s ref st' ∧
    (∀ r, st'.useCount r ≤ st.useCount r) ∧ ∀ th' x, .answered th' x ∈ es → x = some s := by
  have hquiet := h.nobody th
  cases ht with
  | foundNull hpc hnull => rw [h.found] at hnull; cases hnull
  | foundRef hpc => exact ⟨h.setPc rfl, fun r => le_rfl, by simp⟩
  | @locks m hpc hfree =>
    have hsame : Settled s ref { st with owner := some th } := ⟨h.found, h.ref, h.nobody⟩
    rw [hpc] at hquiet
    exact ⟨hsame.setPc ((ManagerPc.entry_ahead m).2.2.2.trans hquiet), fun r => le_rfl, by simp⟩
  | assignsRef hpc => rw [hpc] at hquiet; cases hquiet
  | gets hpc => rw [hpc] at hquiet; cases hquiet
  | misses habandons =>
    rw [ManagerPc.looking_of_mayGet (ManagerPc.abandons_iff.mp habandons).1] at hquiet
    cases hquiet
  | assignsManager hpc => rw [hpc] at hquiet; cases hquiet
  | @givesBack s' hpc href hs =>
    have hsame : Settled s ref (st.ungetService s') := ⟨h.found, h.ref, h.nobody⟩
    refine ⟨hsame.setPc rfl, fun r => ?_, by simp⟩
    show Function.update st.useCount s' (st.useCount s' - 1) r ≤ st.useCount r
    by_cases hr : r = s'
    · subst hr
      simp
    · rw [Function.update_of_ne hr]
  | givesNothing hpc => exact ⟨h.setPc rfl, fun r => le_rfl, by simp⟩
  | @unlocks m raised hpc =>
    have hsame : Settled s ref { st with owner := none } := ⟨h.found, h.ref, h.nobody⟩
    exact ⟨hsame.setPc (ManagerPc.after_ahead m raised).2.2.2, fun r => le_rfl, by simp⟩
  | answers hpc =>
    refine ⟨h.setPc rfl, fun r => le_rfl, fun th' x hx => ?_⟩
    simp only [List.mem_singleton, ManagerEvent.answered.injEq] at hx
    exact hx.2.trans h.found
  | @moves pc hallows =>
    have hlooking := (ManagerPc.allows_iff.mp hallows).2.2.2
    rw [hquiet] at hlooking
    exact ⟨h.setPc (by simpa using hlooking), fun r => le_rfl, by simp⟩

theorem Settled.step (h : Settled s ref st) {a : ManagerAction Thread Service} (hs : st.step a = some st') :
    Settled s ref st' ∧ (∀ r, st'.useCount r ≤ st.useCount r) ∧ ∀ th x, .answered th x ∈ st.events a → x = some s := by
  cases a with
  | getTransactionManager th =>
    simp only [ManagerState.step, Option.ite_none_right_eq_some, Option.some.injEq] at hs
    obtain ⟨-, rfl⟩ := hs
    exact ⟨h.setPc rfl, fun r => le_rfl, by simp [events]⟩
  | close th =>
    simp only [ManagerState.step, Option.ite_none_right_eq_some, Option.some.injEq] at hs
    obtain ⟨-, rfl⟩ := hs
    exact ⟨h.setPc rfl, fun r => le_rfl, by simp [events]⟩
  | step th answer => exact h.turn (turn_of_step hs)
  | register s' =>
    simp only [ManagerState.step, Option.ite_none_left_eq_some, Option.some.injEq] at hs
    obtain ⟨-, rfl⟩ := hs
    exact ⟨⟨h.found, h.ref, h.nobody⟩, fun r => le_rfl, by simp [events]⟩
  | unregister s' =>
    simp only [ManagerState.step, Option.ite_none_right_eq_some, Option.some.injEq] at hs
    obtain ⟨-, rfl⟩ := hs
    refine ⟨⟨h.found, h.ref, h.nobody⟩, fun r => ?_, by simp [events]⟩
    by_cases hr : r = s'
    · subst hr
      simp
    · simp [Function.update_of_ne hr]

/-- **A manager that was found stays**: when the field is set and no lookup is under way, it is never written again,
whatever is called and whatever becomes of the service; every call answers it, and no use of any service is added, also
after `close` gave the last one back. -/
theorem manager_settles (hfound : st.transactionManager = some s) (hnobody : ∀ th, (st.pc th).looking = false)
    {u : ManagerState Thread Service} (h : Reaches (logged step events) (st, []) (u, log)) :
    u.transactionManager = some s ∧ u.transactionManagerRef = st.transactionManagerRef ∧
      (∀ r, u.useCount r ≤ st.useCount r) ∧ ∀ th x, .answered th x ∈ log → x = some s := by
  have hinv : Settled s st.transactionManagerRef u ∧ (∀ r, u.useCount r ≤ st.useCount r) ∧
      ∀ th x, .answered th x ∈ log → x = some s := by
    refine Runs.invariant (I := fun x => Settled s st.transactionManagerRef x.1 ∧
        (∀ r, x.1.useCount r ≤ st.useCount r) ∧ ∀ th y, .answered th y ∈ x.2 → y = some s)
      ⟨⟨hfound, rfl, hnobody⟩, fun r => le_rfl, by simp⟩ (fun x a y hI _ hs => ?_) h
    obtain ⟨hsettled, huses, hanswers⟩ := hI
    obtain ⟨hs, hlog⟩ := logged_eq_some.mp hs
    obtain ⟨hstays, hfewer, hanswer⟩ := hsettled.step hs
    refine ⟨hstays, fun r => (hfewer r).trans (huses r), fun th z hz => ?_⟩
    rw [hlog, List.mem_append] at hz
    rcases hz with hz | hz
    · exact hanswers th z hz
    · exact hanswer th z hz
  exact ⟨hinv.1.found, hinv.1.ref, hinv.2.1, hinv.2.2⟩

/-- The data source has its manager, by one use. -/
def found : ManagerState Bool Unit where
  transactionManager := some ()
  transactionManagerRef := some ()
  registered := [()]
  useCount := fun _ => 1

/-- Closed, and the service gone, the data source still answers it. -/
theorem manager_settles_closed : ∃ log, .answered true (some ()) ∈ log ∧ ∃ u,
    Reaches (logged step events) (found, []) (u, log) ∧ u.registered = [] ∧ u.useCount () ≤ 1 ∧
      u.transactionManager = some () := by
  have hreach : ∃ x, Reaches (logged step events) (found, []) x ∧ (x.1.registered, x.2) =
      ([], [.foundRef false, .gaveBack false (), .unregistered (), .answered true (some ())]) :=
    Runs.of_exec_map (.close false :: List.replicate 5 (.step false .go) ++
      [.unregister (), .getTransactionManager true, .step true .go, .step true .go]) rfl
  obtain ⟨⟨u, log⟩, hreach, hview⟩ := hreach
  simp only [Prod.mk.injEq] at hview
  obtain ⟨hgone, rfl⟩ := hview
  obtain ⟨hstays, -, hfewer, -⟩ := manager_settles (rfl : found.transactionManager = some ()) (fun _ => rfl) hreach
  exact ⟨_, by simp, u, hreach, hgone, hfewer (), hstays⟩

/-! ### How many uses there can be -/

/-- The calls of a method that a schedule begins. -/
def begins : LockingMethod → ManagerAction ℕ Unit → Bool
  | .getTransactionManager, .getTransactionManager _ => true
  | .close, .close _ => true
  | _, _ => false

/-- Threads `i` to `n` wait for the lock, having found `null`; the ones before have looked up. -/
def crowd (i n uses : ℕ) (manager : Option Unit) : ManagerState ℕ Unit where
  transactionManager := manager
  transactionManagerRef := manager
  registered := [()]
  useCount := fun _ => uses
  pc := fun th => if i ≤ th ∧ th < n then .lock .getTransactionManager else .idle

/-- A call up to the lock. -/
def arrives (th : ℕ) : List (ManagerAction ℕ Unit) := [.getTransactionManager th, .step th .go]

/-- The rest of a lookup, undisturbed. -/
def looksUp (th : ℕ) : List (ManagerAction ℕ Unit) :=
  [.step th .go, .step th (.reference (some ()))] ++ List.replicate 5 (.step th .go)

def closes (th : ℕ) : List (ManagerAction ℕ Unit) := .close th :: List.replicate 5 (.step th .go)

theorem exec_arrives (n : ℕ) : exec step (crowd 0 n 0 none) (arrives n) = some (crowd 0 (n + 1) 0 none) := by
  have hpc : Function.update (crowd 0 n 0 none).pc n (.lock .getTransactionManager) = (crowd 0 (n + 1) 0 none).pc := by
    funext th
    by_cases hth : th = n
    · subst hth
      simp [crowd]
    · have hlt : th < n + 1 ↔ th < n := by omega
      simp only [crowd, Function.update_of_ne hth, hlt]
  simpa [arrives, exec, step, turn, crowd, setPc] using hpc

theorem exec_looksUp {i n uses : ℕ} {manager : Option Unit} (h : i < n) :
    exec step (crowd i n uses manager) (looksUp i) = some (crowd (i + 1) n (uses + 1) (some ())) := by
  have hpc : Function.update (crowd i n uses manager).pc i .idle = (crowd (i + 1) n (uses + 1) (some ())).pc := by
    funext th
    by_cases hth : th = i
    · subst hth
      simp [crowd]
    · have hle : i + 1 ≤ th ↔ i ≤ th := by omega
      simp only [crowd, Function.update_of_ne hth, hle]
  have huses : Function.update (fun _ : Unit => uses) () (uses + 1) = fun _ => uses + 1 := by
    funext s
    simp
  simpa [looksUp, exec, step, turn, crowd, setPc, h, LockingMethod.entry, mayFind, getService, LockingMethod.after,
    List.replicate] using ⟨huses, hpc⟩

theorem exec_closes (n uses : ℕ) :
    exec step (crowd n n uses (some ())) (closes 0) = some (crowd n n (uses - 1) (some ())) := by
  have huses : Function.update (fun _ : Unit => uses) () (uses - 1) = fun _ => uses - 1 := by
    funext s
    simp
  simpa [closes, exec, step, turn, crowd, setPc, LockingMethod.entry, ungetService, LockingMethod.after,
    List.replicate] using huses

/-- What is begun adds up along a schedule that leads from one crowd to another. -/
def Leads (x : ManagerState ℕ Unit) (looks closings : ℕ) (y : ManagerState ℕ Unit) : Prop :=
  ∃ as, exec step x as = some y ∧ as.countP (begins .getTransactionManager) = looks ∧
    as.countP (begins .close) = closings

theorem Leads.trans {x y z : ManagerState ℕ Unit} {m n m' n' : ℕ} (h : Leads x m n y) (h' : Leads y m' n' z) :
    Leads x (m + m') (n + n') z := by
  obtain ⟨as, hexec, hlooks, hcloses⟩ := h
  obtain ⟨as', hexec', hlooks', hcloses'⟩ := h'
  refine ⟨as ++ as', ?_, by rw [List.countP_append, hlooks, hlooks'], by rw [List.countP_append, hcloses, hcloses']⟩
  rw [exec_append, hexec]
  exact hexec'

theorem leads_of_exec {x y : ManagerState ℕ Unit} (as : List (ManagerAction ℕ Unit)) (h : exec step x as = some y) :
    Leads x (as.countP (begins .getTransactionManager)) (as.countP (begins .close)) y := ⟨as, h, rfl, rfl⟩

theorem leads_gather : ∀ n, Leads (crowd 0 0 0 none) n 0 (crowd 0 n 0 none)
  | 0 => ⟨[], rfl, rfl, rfl⟩
  | n + 1 => (leads_gather n).trans (leads_of_exec (arrives n) (exec_arrives n))

theorem leads_lookUp (n : ℕ) : ∀ i, i + 1 ≤ n → Leads (crowd 0 n 0 none) 0 0 (crowd (i + 1) n (i + 1) (some ()))
  | 0, h => ⟨looksUp 0, exec_looksUp h, rfl, rfl⟩
  | i + 1, h => (leads_lookUp n i (by omega)).trans (leads_of_exec (looksUp (i + 1)) (exec_looksUp h))

theorem leads_close (n uses : ℕ) : ∀ k, Leads (crowd n n uses (some ())) 0 k (crowd n n (uses - k) (some ()))
  | 0 => ⟨[], rfl, rfl, rfl⟩
  | k + 1 => (leads_close n uses k).trans (leads_of_exec (closes 0) (exec_closes n (uses - k)))

/-- **Any number of uses may be left**: with one service, and nothing that raises, any number of calls of
`getTransactionManager` and of `close` can be made and return so that each of the calls added a use and each close took
one; so one `close` releases the service only where one call looked it up. -/
theorem uses_any (n k : ℕ) : ∃ (as : List (ManagerAction ℕ Unit)) (u : ManagerState ℕ Unit),
    exec step (start [()]) as = some u ∧ (∀ th, u.pc th = .idle) ∧
      as.countP (begins .getTransactionManager) = n + 1 ∧ as.countP (begins .close) = k ∧
      u.transactionManager = some () ∧ u.useCount () = n + 1 - k := by
  obtain ⟨as, hexec, hlooks, hcloses⟩ := ((leads_gather (n + 1)).trans (leads_lookUp (n + 1) n le_rfl)).trans
    (leads_close (n + 1) (n + 1) k)
  have hstart : (start [()] : ManagerState ℕ Unit) = crowd 0 0 0 none := by simp [start, crowd]
  refine ⟨as, _, hstart ▸ hexec, fun th => ?_, by omega, by omega, rfl, rfl⟩
  simp only [crowd, ite_eq_right_iff, reduceCtorEq, imp_false, not_and]
  omega

end ManagerState

end Dynamy.Services
