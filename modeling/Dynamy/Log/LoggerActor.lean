import Dynamy.Java
import Dynamy.Lib.Actor

/-!
# Dynamy.Log.LoggerActor — the actor behind all logging

The messages of `LoggerActor`, the cases of its `receive` (`react`) and what they do: SLF4J calls, replies, and the
list of registered listeners.  `RemoveListener` is a message without a case.  Listeners are any type `L`.
-/

namespace Dynamy.Log

open Dynamy.Java Dynamy.Lib

/-- An OSGi bundle, of which only the symbolic name is read. -/
structure Bundle where
  symbolicName : Option String
  deriving DecidableEq, Repr

/-- A service reference: its text, and its bundle, which is `null` once the service is unregistered. -/
structure ServiceReference where
  text : String
  bundle : Option Bundle
  deriving DecidableEq, Repr

structure LogEntryImpl where
  bundle : Option Bundle
  sr : Option ServiceReference
  level : ℤ
  message : Option String
  exception : Option Throwable
  deriving DecidableEq, Repr

/-! ### The levels of `LogService` -/

def LOG_ERROR : ℤ := 1
def LOG_WARNING : ℤ := 2
def LOG_INFO : ℤ := 3
def LOG_DEBUG : ℤ := 4

inductive Slf4jLevel
  | debug | info | warn | error
  deriving DecidableEq, Repr

/-- One call of an SLF4J logger. -/
structure Slf4jCall where
  logger : String
  level : Slf4jLevel
  message : Option String
  exception : Option Throwable
  deriving DecidableEq, Repr

variable (L : Type)

inductive Message
  | logEntry (entry : LogEntryImpl)
  | registerListener (listener : L)
  | removeListener (listener : L)
  | listListeners
  | removeAllListeners

/-- An element of a replied list: a listener, or the actor's own mutable buffer. -/
inductive LogObject
  | listener (l : L)
  | buffer
  deriving DecidableEq, Repr

/-- What the actor can do to the outside: call SLF4J, reply to a request, call a listener's `logged`. -/
inductive LogEvent
  | slf4j (call : Slf4jCall)
  | reply (objects : List (LogObject L))
  | logged (listener : L) (entry : LogEntryImpl)

variable {L}

/-- A body of a case: the state is the `ListBuffer` of listeners, the result says whether the loop goes on. -/
abbrev LoggerM (L : Type) : Type → Type := Prog (LogEvent L) (List L) Throwable

/-- `if (level == LogService.LOG_DEBUG) logger.debug(..) else ..` -/
def slf4jLevel (level : ℤ) : Slf4jLevel :=
  if level = LOG_DEBUG then .debug
  else if level = LOG_INFO then .info
  else if level = LOG_WARNING then .warn
  else .error

/-- `if (serviceReference == null) message else String.format("(%s) %s", serviceReference, message)` -/
def formatMessage (serviceReference : Option ServiceReference) (message : Option String) : Option String :=
  match serviceReference with
  | none => message
  | some sr => some ("(" ++ sr.text ++ ") " ++ message.getD "null")

/-- `classOf[LoggerActor].getName()` -/
def loggerActorName : String := "dynamy.log.impl.LoggerActor"

def reactEntry (entry : LogEntryImpl) : LoggerM L Bool := do
  let bundle ← Prog.ofExcept (deref entry.bundle)
  let name := bundle.symbolicName.getD loggerActorName
  let m := formatMessage entry.sr entry.message
  Prog.emit (.slf4j ⟨name, slf4jLevel entry.level, m, entry.exception⟩)
  return true

/-- The cases of `receive`. -/
def react : Message L → Option (LoggerM L Bool)
  | .logEntry entry => some (reactEntry entry)
  | .registerListener listener => some do
    Prog.update (· ++ [listener])
    return true
  | .listListeners => some do
    -- `List(listeners)`: one element, the buffer
    Prog.emit (.reply [.buffer])
    return true
  | .removeAllListeners => some do
    Prog.update fun _ => []
    return false
  | .removeListener _ => none

/-- The logger actor. -/
abbrev LoggerActor (L : Type) : Type := Actor (Message L) (LogEvent L) (List L)

/-- One step of the system: somebody sends, or the actor gets its turn. -/
abbrev loggerStep : LoggerActor L → ActorAction (Message L) → Option (LoggerActor L) := Actor.step react

/-- The actor when `Log` has just started it. -/
def LoggerActor.start : LoggerActor L := { state := [] }

/-- The SLF4J call that an entry stands for. -/
def LogEntryImpl.call (entry : LogEntryImpl) : Slf4jCall where
  logger := (entry.bundle.bind Bundle.symbolicName).getD loggerActorName
  level := slf4jLevel entry.level
  message := formatMessage entry.sr entry.message
  exception := entry.exception

theorem run_reactEntry {entry : LogEntryImpl} {bundle : Bundle} (h : entry.bundle = some bundle) (s : List L) :
    (reactEntry entry).run s = ⟨.ok true, s, [.slf4j entry.call]⟩ := by
  simp only [reactEntry, h, LogEntryImpl.call]
  rfl

theorem run_reactEntry_null {entry : LogEntryImpl} (h : entry.bundle = none) (s : List L) :
    (reactEntry entry).run s = ⟨.error ⟨.nullPointer, none⟩, s, []⟩ := by
  simp only [reactEntry, h]
  rfl

/-- A message that the actor survives: an entry with a bundle, a registration, a request for the list. -/
def Message.Survivable : Message L → Prop
  | .logEntry entry => entry.bundle ≠ none
  | .registerListener _ => True
  | .listListeners => True
  | .removeListener _ => False
  | .removeAllListeners => False

theorem steady_of_survivable {m : Message L} (h : m.Survivable) : Actor.Steady react m := by
  cases m with
  | logEntry entry =>
    obtain ⟨bundle, hb⟩ := Option.ne_none_iff_exists'.mp h
    exact ⟨_, rfl, fun s => by rw [run_reactEntry hb]⟩
  | registerListener l => exact ⟨_, rfl, fun s => rfl⟩
  | listListeners => exact ⟨_, rfl, fun s => rfl⟩
  | removeListener l => exact h.elim
  | removeAllListeners => exact h.elim

theorem fatal_of_not_survivable {m : Message L} (h : ¬ m.Survivable) : Actor.Fatal react m := by
  intro body hbody s
  cases m with
  | logEntry entry =>
    have hb : entry.bundle = none := by simpa [Message.Survivable] using h
    obtain rfl : reactEntry entry = body := by simpa [react] using hbody
    rw [run_reactEntry_null hb]
    simp
  | registerListener l => exact absurd trivial h
  | listListeners => exact absurd trivial h
  | removeListener l => cases hbody
  | removeAllListeners =>
    simp only [react, Option.some.injEq] at hbody
    subst hbody
    intro hres
    cases hres

end Dynamy.Log
