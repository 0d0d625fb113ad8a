import Dynamy.Log.LoggerActor

/-!
# Dynamy.Log.Log — who sends to the logger actor

`Log` (the framework, bundle and service event handlers and the senders), the four `log` overloads of
`OsgiLogService` and the listener calls of `OsgiLogReaderServiceImpl`.  Each call sends one message (`LogCall.message`).
Arguments that OSGi allows to be `null` are options; a service reference carries the bundle it has at the call.
-/

namespace Dynamy.Log

open Dynamy.Java Dynamy.Lib

variable {L : Type}

/-! ### Events -/

structure FrameworkEvent where
  type : ℤ
  bundle : Option Bundle
  throwable : Option Throwable
  deriving DecidableEq, Repr

structure BundleEvent where
  type : ℤ
  bundle : Bundle
  deriving DecidableEq, Repr

structure ServiceEvent where
  type : ℤ
  serviceReference : ServiceReference
  deriving DecidableEq, Repr

/-- `FrameworkEvent.ERROR` -/
def FrameworkEvent.ERROR : ℤ := 2

/-- `ServiceEvent.MODIFIED` -/
def ServiceEvent.MODIFIED : ℤ := 2

def FRAMEWORK_EVENT_MESSAGES : List String :=
  ["FrameworkEvent STARTED", "FrameworkEvent ERROR", "FrameworkEvent PACKAGES REFRESHED",
    "FrameworkEvent STARTLEVEL CHANGED", "FrameworkEvent WARNING", "FrameworkEvent INFO"]

def BUNDLE_EVENT_MESSAGES : List String :=
  ["BundleEvent INSTALLED", "BundleEvent STARTED", "BundleEvent STOPPED", "BundleEvent UPDATED",
    "BundleEvent UNINSTALLED", "BundleEvent RESOLVED", "BundleEvent UNRESOLVED"]

def SERVICE_EVENT_MESSAGES : List String :=
  ["ServiceEvent REGISTERED", "ServiceEvent MODIFIED", "ServiceEvent UNREGISTERING"]

/-- `for (i <- 0 until messages.size) if (eventType >> i == 1) message = messages(i)` -/
def eventMessage (messages : List String) (eventType : ℤ) : String :=
  messages.zipIdx.foldl (fun message (m, i) => if eventType >>> i = 1 then m else message) ""

/-- `Log.addEntry` -/
def addEntry (entry : LogEntryImpl) : Message L := .logEntry entry

def frameworkEvent (event : FrameworkEvent) : Message L :=
  let t := if event.type = FrameworkEvent.ERROR then LOG_ERROR else LOG_INFO
  addEntry ⟨event.bundle, none, t, some (eventMessage FRAMEWORK_EVENT_MESSAGES event.type), event.throwable⟩

def bundleChanged (event : BundleEvent) : Message L :=
  addEntry ⟨some event.bundle, none, LOG_INFO, some (eventMessage BUNDLE_EVENT_MESSAGES event.type), none⟩

def serviceChanged (event : ServiceEvent) : Message L :=
  let t := if event.type = ServiceEvent.MODIFIED then LOG_DEBUG else LOG_INFO
  addEntry ⟨event.serviceReference.bundle, some event.serviceReference, t,
    some (eventMessage SERVICE_EVENT_MESSAGES event.type), none⟩

def addServiceListener (logListener : L) : Message L := .registerListener logListener

def remoteServiceListener (logListener : L) : Message L := .removeListener logListener

def listListeners : Message L := .listListeners

/-- `Log.close` -/
def close : Message L := .removeAllListeners

/-! ### `OsgiLogService`, the service of one requesting bundle -/

namespace OsgiLogService

variable (bundle : Bundle)

/-- `log(sr, level, message, exception)` -/
def logReferenceThrowable (sr : Option ServiceReference) (level : ℤ) (message : Option String)
    (exception : Option Throwable) : Message L :=
  let b := match sr with | some r => r.bundle | none => some bundle
  addEntry ⟨b, sr, level, message, exception⟩

/-- `log(level, message)` -/
def log (level : ℤ) (message : Option String) : Message L := logReferenceThrowable bundle none level message none

/-- `log(level, message, exception)`, which passes `null` for the exception. -/
def logThrowable (level : ℤ) (message : Option String) (_exception : Option Throwable) : Message L :=
  logReferenceThrowable bundle none level message none

/-- `log(sr, level, message)` -/
def logReference (sr : Option ServiceReference) (level : ℤ) (message : Option String) : Message L :=
  logReferenceThrowable bundle sr level message none

end OsgiLogService

/-! ### Calls -/

/-- A call that reaches the actor before `Log.close`. -/
inductive LogCall (L : Type)
  | log (bundle : Bundle) (level : ℤ) (message : Option String)
  | logThrowable (bundle : Bundle) (level : ℤ) (message : Option String) (exception : Option Throwable)
  | logReference (bundle : Bundle) (sr : Option ServiceReference) (level : ℤ) (message : Option String)
  | logReferenceThrowable (bundle : Bundle) (sr : Option ServiceReference) (level : ℤ) (message : Option String)
      (exception : Option Throwable)
  | frameworkEvent (event : FrameworkEvent)
  | bundleChanged (event : BundleEvent)
  | serviceChanged (event : ServiceEvent)
  | addLogListener (listener : L)
  | removeLogListener (listener : L)
  | getLog

/-- The message that a call sends. -/
def LogCall.message : LogCall L → Message L
  | .log bundle level message => OsgiLogService.log bundle level message
  | .logThrowable bundle level message exception => OsgiLogService.logThrowable bundle level message exception
  | .logReference bundle sr level message => OsgiLogService.logReference bundle sr level message
  | .logReferenceThrowable bundle sr level message exception =>
    OsgiLogService.logReferenceThrowable bundle sr level message exception
  | .frameworkEvent event => Dynamy.Log.frameworkEvent event
  | .bundleChanged event => Dynamy.Log.bundleChanged event
  | .serviceChanged event => Dynamy.Log.serviceChanged event
  | .addLogListener listener => addServiceListener listener
  | .removeLogListener listener => remoteServiceListener listener
  | .getLog => listListeners

/-- A call is harmless when it does not remove a listener and every reference or event that decides the entry's
bundle still has one. -/
def LogCall.Harmless : LogCall L → Prop
  | .logReference _ (some sr) _ _ => sr.bundle ≠ none
  | .logReferenceThrowable _ (some sr) _ _ _ => sr.bundle ≠ none
  | .frameworkEvent event => event.bundle ≠ none
  | .serviceChanged event => event.serviceReference.bundle ≠ none
  | .removeLogListener _ => False
  | _ => True

theorem LogCall.survivable_iff (c : LogCall L) : c.message.Survivable ↔ c.Harmless := by
  rcases c with _ | _ | ⟨_, _ | sr, _, _⟩ | ⟨_, _ | sr, _, _, _⟩ | _ | _ | _ | _ | _ | _ <;>
    simp [LogCall.message, LogCall.Harmless, OsgiLogService.log, OsgiLogService.logThrowable,
      OsgiLogService.logReference, OsgiLogService.logReferenceThrowable, Dynamy.Log.frameworkEvent,
      Dynamy.Log.bundleChanged, Dynamy.Log.serviceChanged, addEntry, addServiceListener, remoteServiceListener,
      listListeners, Message.Survivable]

end Dynamy.Log
