import Dynamy.Java
import Dynamy.Lib.Bracket

/-!
# Dynamy.Shell.OSGiScriptEngineManager — one script engine manager out of many

A `ScriptEngineManager` for each line of the bundles' provider files whose class loads, with the class loader of that
class.  Every engine is asked for under the class loader of its manager; the one that the thread had before is put
back after the call, but not in a `finally`: after an exception the thread goes on with that of the manager
(`lookups_exact`).  All managers share the scope that `put` and `get` use (`scope_shared`).
-/

namespace Dynamy.Shell.OSGiScriptEngineManager

open Dynamy.Java Dynamy.Lib

/-- What may be thrown: an `IOException`, an `Error`, or another exception. -/
inductive ScriptThrowable
  | exception (e : Throwable)
  | io
  | error
  deriving DecidableEq, Repr

def nullPointer : ScriptThrowable := .exception ⟨.nullPointer, none⟩

inductive EngineQuery
  | extension (extension : Option String)
  | mimeType (mimeType : Option String)
  | name (shortName : Option String)
  deriving DecidableEq, Repr

/-- A bundle: its name, and the lines of each `META-INF/services/javax.script.ScriptEngineFactory` in it, as far as it
can be read; `null` if there is none. -/
structure ScriptBundle where
  symbolicName : Option String
  findEntries : Option (List (Except ScriptThrowable (List String)))

/-- A manager that the thread knows by its number, with the class loader that it was found by. -/
abbrev Entry (Loader : Type) : Type := ℕ × Option Loader

/-- The outside at one moment. -/
structure Platform (Loader Engine Factory : Type) where
  getBundles : Except ScriptThrowable (List ScriptBundle)
  /-- `Class.forName(name).getClassLoader()` -/
  classForName : String → Except ScriptThrowable (Option Loader)
  newScriptEngineManager : Option Loader → Option ScriptThrowable
  /-- the answer of a manager, which may depend on the context class loader -/
  getEngine : ℕ → Option Loader → EngineQuery → Except ScriptThrowable (Option Engine)
  getFactory : Engine → Except ScriptThrowable Factory
  getEngineFactories : ℕ → Except ScriptThrowable (List Factory)
  getScriptEngine : Factory → Option Loader → Except ScriptThrowable (Option Engine)
  registerEngine : ℕ → EngineQuery → Option ScriptThrowable
  /-- the order of the key set of a `HashMap` -/
  keySet : List (Entry Loader) → List (Entry Loader)
  keySet_perm : ∀ l, (keySet l).Perm l

inductive ScriptEvent (Loader Factory : Type)
  /-- a manager was asked for an engine under a context class loader -/
  | asked (entry : Entry Loader) (context : Option Loader) (query : EngineQuery) (raised : Bool)
  /-- a factory was asked for an engine, through its wrapper -/
  | created (factory : Factory) (loader context : Option Loader) (raised : Bool)
  /-- `logger.error("Cannot load factory", e)` -/
  | cannotLoad (factoryName : String)

/-- The thread and the objects that it reaches: scopes and managers are numbers. -/
structure ScriptState (Loader Value : Type) where
  clock : ℕ
  contextClassLoader : Option Loader
  bindings : Option ℕ
  classLoaders : List (Entry Loader)
  /-- the scope that a manager gives its engines -/
  globalScope : ℕ → ℕ
  contents : ℕ → String → Option Value
  next : ℕ

variable {Loader Engine Factory Value α : Type}

abbrev ScriptM (Loader Factory Value : Type) : Type → Type :=
  Prog (ScriptEvent Loader Factory) (ScriptState Loader Value) ScriptThrowable

/-- `OSGiScriptEngineFactory` -/
structure OSGiScriptEngineFactory (Loader Factory : Type) where
  factory : Factory
  contextClassLoader : Option Loader

/-- `OSGiScriptEngine` -/
structure OSGiScriptEngine (Loader Engine Factory : Type) where
  engine : Engine
  factory : OSGiScriptEngineFactory Loader Factory

section Model

variable (world : ℕ → Platform Loader Engine Factory)

def ask (question : Platform Loader Engine Factory → Except ScriptThrowable α) : ScriptM Loader Factory Value α := do
  let s ← Prog.read
  Prog.update fun s => { s with clock := s.clock + 1 }
  Prog.ofExcept (question (world s.clock))

def orRaise : Option ScriptThrowable → Except ScriptThrowable Unit
  | some e => .error e
  | none => .ok ()

def didRaise : Except ScriptThrowable α → Bool
  | .ok _ => false
  | .error _ => true

/-! ### The class loader of the thread -/

def setContextClassLoader (loader : Option Loader) : ScriptM Loader Factory Value Unit :=
  Prog.update fun s => { s with contextClassLoader := loader }

/-- The four lines around a call. -/
def underLoader (loader : Option Loader) (p : ScriptM Loader Factory Value α) : ScriptM Loader Factory Value α := do
  let s ← Prog.read
  let old := s.contextClassLoader
  setContextClassLoader loader
  let a ← p
  setContextClassLoader old
  return a

/-- `manager.getEngineBy..(..)` -/
def askManager (entry : Entry Loader) (query : EngineQuery) : ScriptM Loader Factory Value (Option Engine) := do
  let s ← Prog.read
  Prog.update fun s => { s with clock := s.clock + 1 }
  let answer := (world s.clock).getEngine entry.1 s.contextClassLoader query
  Prog.emit (.asked entry s.contextClassLoader query (didRaise answer))
  Prog.ofExcept answer

/-- `factory.getScriptEngine()`, by the wrapper with the given loader. -/
def askFactory (factory : Factory) (loader : Option Loader) : ScriptM Loader Factory Value (Option Engine) := do
  let s ← Prog.read
  Prog.update fun s => { s with clock := s.clock + 1 }
  let answer := (world s.clock).getScriptEngine factory s.contextClassLoader
  Prog.emit (.created factory loader s.contextClassLoader (didRaise answer))
  Prog.ofExcept answer

/-- The loop of the three lookups: the first manager that has an engine. -/
def findEngine (query : EngineQuery) : List (Entry Loader) → ScriptM Loader Factory Value (Option (Engine × Option Loader))
  | [] => return none
  | entry :: entries => do
    match ← underLoader entry.2 (askManager world entry query) with
    | some engine => return some (engine, entry.2)
    | none => findEngine query entries

def lookup (query : EngineQuery) : ScriptM Loader Factory Value (Option (Engine × Option Loader)) := do
  let s ← Prog.read
  findEngine world query s.classLoaders

def getEngineByExtension (extension : Option String) : ScriptM Loader Factory Value (Option Engine) := do
  let found ← lookup world (.extension extension)
  return found.map Prod.fst

def getEngineByMimeType (mimeType : Option String) : ScriptM Loader Factory Value (Option Engine) := do
  let found ← lookup world (.mimeType mimeType)
  return found.map Prod.fst

/-- The only lookup that wraps what it finds. -/
def getEngineByName (shortName : Option String) :
    ScriptM Loader Factory Value (Option (OSGiScriptEngine Loader Engine Factory)) := do
  match ← lookup world (.name shortName) with
  | some (engine, loader) =>
    let factory ← ask world (·.getFactory engine)
    return some ⟨engine, ⟨factory, loader⟩⟩
  | none => return none

/-- Here the class loader of the thread is left as it is. -/
def getEngineFactories : ScriptM Loader Factory Value (List (OSGiScriptEngineFactory Loader Factory)) := do
  let s ← Prog.read
  let factories ← s.classLoaders.mapM fun entry => do
    let factories ← ask world (·.getEngineFactories entry.1)
    return factories.map fun factory => ⟨factory, entry.2⟩
  return factories.flatten

/-- `OSGiScriptEngineFactory.getScriptEngine` -/
def OSGiScriptEngineFactory.getScriptEngine (factory : OSGiScriptEngineFactory Loader Factory) :
    ScriptM Loader Factory Value (Option Engine) :=
  match factory.contextClassLoader with
  | some loader => underLoader (some loader) (askFactory world factory.factory (some loader))
  | none => askFactory world factory.factory none

/-- `registerEngineName`, `registerEngineMimeType` and `registerEngineExtension` -/
def registerEngine (query : EngineQuery) : ScriptM Loader Factory Value Unit := do
  let s ← Prog.read
  Prog.each (fun entry => ask world fun w => orRaise (w.registerEngine entry.1 query)) s.classLoaders

end Model

/-! ### The scope -/

/-- `SimpleBindings.checkKey` -/
def checkKey (key : Option String) : Except ScriptThrowable String :=
  match key with
  | none => .error nullPointer
  | some key => if key = "" then .error (.exception ⟨.illegalArgument, none⟩) else .ok key

/-- `this.bindings`, dereferenced. -/
def theBindings : ScriptM Loader Factory Value ℕ := do
  let s ← Prog.read
  match s.bindings with
  | some scope => return scope
  | none => Prog.raise nullPointer

def get (key : Option String) : ScriptM Loader Factory Value (Option Value) := do
  let scope ← theBindings
  let key ← Prog.ofExcept (checkKey key)
  let s ← Prog.read
  return s.contents scope key

def put (key : Option String) (value : Value) : ScriptM Loader Factory Value Unit := do
  let scope ← theBindings
  let key ← Prog.ofExcept (checkKey key)
  Prog.update fun s =>
    { s with contents := Function.update s.contents scope (Function.update (s.contents scope) key (some value)) }

/-- `manager.setBindings(bindings)`, which does not take `null`. -/
def setManagerBindings (manager : ℕ) : Option ℕ → ScriptM Loader Factory Value Unit
  | none => Prog.raise (.exception ⟨.illegalArgument, none⟩)
  | some scope => Prog.update fun s => { s with globalScope := Function.update s.globalScope manager scope }

def setBindings (bindings : Option ℕ) : ScriptM Loader Factory Value Unit := do
  Prog.update fun s => { s with bindings := bindings }
  let s ← Prog.read
  Prog.each (fun entry => setManagerBindings entry.1 bindings) s.classLoaders

/-! ### The managers -/

/-- The names of one bundle: every line, trimmed, be it a comment or empty. -/
def bundleCandidates (bundle : ScriptBundle) : Except ScriptThrowable (List String) := do
  match bundle.symbolicName with
  | none => .error nullPointer
  | some name =>
    if name == "system.bundle" then return []
    else
      match bundle.findEntries with
      | none => return []
      | some urls =>
        let lines ← urls.mapM id
        return lines.flatten.map trim

section Managers

variable (world : ℕ → Platform Loader Engine Factory)

def findFactoryCandidates : ScriptM Loader Factory Value (List String) := do
  let bundles ← ask world (·.getBundles)
  let candidates ← Prog.ofExcept (bundles.mapM bundleCandidates)
  return candidates.flatten

/-- `new ScriptEngineManager(factoryLoader)`, with an empty scope of its own. -/
def newScriptEngineManager (loader : Option Loader) : ScriptM Loader Factory Value ℕ := do
  ask world fun w => orRaise (w.newScriptEngineManager loader)
  let s ← Prog.read
  Prog.update fun s =>
    { s with
        globalScope := Function.update s.globalScope s.next (s.next + 1)
        contents := Function.update s.contents (s.next + 1) fun _ => none
        next := s.next + 2 }
  return s.next

/-- The body of the loop over the names. -/
def loadManager (managers : List (Entry Loader)) (factoryName : String) :
    ScriptM Loader Factory Value (List (Entry Loader)) :=
  Prog.attempt
    (do
      let loader ← ask world (·.classForName factoryName)
      let manager ← newScriptEngineManager world loader
      let s ← Prog.read
      setManagerBindings manager s.bindings
      return managers ++ [(manager, loader)])
    fun e =>
      match e with
      | .error => Prog.raise .error
      | _ => do
        Prog.emit (.cannotLoad factoryName)
        return managers

def findManagers : ScriptM Loader Factory Value (List (Entry Loader)) :=
  Prog.attempt
    (do
      let candidates ← findFactoryCandidates world
      candidates.foldlM (loadManager world) [])
    fun e => Prog.raise (match e with | .io => .exception ⟨.runtime, none⟩ | e => e)

def reloadManagers : ScriptM Loader Factory Value Unit := do
  let managers ← findManagers world
  Prog.update fun s => { s with clock := s.clock + 1, classLoaders := (world s.clock).keySet managers }

/-- The constructor. -/
def construct : ScriptM Loader Factory Value Unit := do
  Prog.update fun s =>
    { s with
        bindings := some s.next
        contents := Function.update s.contents s.next fun _ => none
        classLoaders := []
        next := s.next + 1 }
  reloadManagers world

end Managers

/-! ### Operations -/

inductive Operation (Loader Factory Value : Type)
  | get (key : Option String)
  | put (key : Option String) (value : Value)
  | setBindings (bindings : Option ℕ)
  | getEngineByExtension (extension : Option String)
  | getEngineByMimeType (mimeType : Option String)
  | getEngineByName (shortName : Option String)
  | getEngineFactories
  | registerEngine (query : EngineQuery)
  | reloadManagers
  | getScriptEngine (factory : OSGiScriptEngineFactory Loader Factory)

section Operations

variable (world : ℕ → Platform Loader Engine Factory)

def call : Operation Loader Factory Value → ScriptM Loader Factory Value Unit
  | .get key => do
    let _ ← get key
    return
  | .put key value => put key value
  | .setBindings bindings => setBindings bindings
  | .getEngineByExtension extension => do
    let _ ← getEngineByExtension world extension
    return
  | .getEngineByMimeType mimeType => do
    let _ ← getEngineByMimeType world mimeType
    return
  | .getEngineByName shortName => do
    let _ ← getEngineByName world shortName
    return
  | .getEngineFactories => do
    let _ ← getEngineFactories world
    return
  | .registerEngine query => registerEngine world query
  | .reloadManagers => reloadManagers world
  | .getScriptEngine factory => do
    let _ ← factory.getScriptEngine world
    return

/-- One call after the other; whoever calls goes on after an exception. -/
def calls : List (Operation Loader Factory Value) → ScriptM Loader Factory Value Unit :=
  Prog.each fun op => Prog.attempt (call world op) fun _ => return

end Operations

/-! ### The class loader of the thread -/

/-- The class loader after an event: that of the call if it raised. -/
def leftBehind (loader : Option Loader) : ScriptEvent Loader Factory → Option Loader
  | .asked _ context _ true => context
  | .created _ _ context true => context
  | _ => loader

/-- An engine is asked for under the class loader of its manager or wrapper, if that has one. -/
def UnderItsLoader : ScriptEvent Loader Factory → Prop
  | .asked entry context _ _ => context = entry.2
  | .created _ loader context _ => loader = none ∨ context = loader
  | .cannotLoad _ => True

section Loader

open Prog

variable {world : ℕ → Platform Loader Engine Factory}

/-- The class loader of the thread follows the events, and every engine is asked for under its loader. -/
structure Orderly (p : ScriptM Loader Factory Value α) : Prop where
  follows : Tracks ScriptState.contextClassLoader leftBehind p
  own : Always UnderItsLoader p

namespace Orderly

variable {β : Type} {p : ScriptM Loader Factory Value α} {f : α → ScriptM Loader Factory Value β}

theorem pure (a : α) : Orderly (pure a : ScriptM Loader Factory Value α) := ⟨tracks_pure a, (silent_pure a).always⟩

theorem raise (e : ScriptThrowable) : Orderly (raise e : ScriptM Loader Factory Value α) :=
  ⟨tracks_raise e, (silent_raise e).always⟩

theorem ofExcept (x : Except ScriptThrowable α) : Orderly (ofExcept x : ScriptM Loader Factory Value α) :=
  ⟨tracks_ofExcept x, (silent_ofExcept x).always⟩

theorem read : Orderly (read : ScriptM Loader Factory Value _) := ⟨tracks_read, silent_read.always⟩

theorem update {g : ScriptState Loader Value → ScriptState Loader Value}
    (h : ∀ s, (g s).contextClassLoader = s.contextClassLoader) :
    Orderly (update g : ScriptM Loader Factory Value Unit) := ⟨tracks_update h, (silent_update g).always⟩

theorem bind (hp : Orderly p) (hf : ∀ a, Orderly (f a)) : Orderly (p >>= f) :=
  ⟨hp.follows.bind fun a => (hf a).follows, hp.own.bind fun a => (hf a).own⟩

theorem attempt {h : ScriptThrowable → ScriptM Loader Factory Value α} (hp : Orderly p) (hh : ∀ e, Orderly (h e)) :
    Orderly (Prog.attempt p h) := ⟨hp.follows.attempt fun e => (hh e).follows, hp.own.attempt fun e => (hh e).own⟩

theorem each {g : β → ScriptM Loader Factory Value Unit} (h : ∀ b, Orderly (g b)) :
    ∀ l : List β, Orderly (Prog.each g l)
  | [] => pure ()
  | b :: l => (h b).bind fun _ => each h l

theorem mapM {g : α → ScriptM Loader Factory Value β} (h : ∀ a, Orderly (g a)) : ∀ l : List α, Orderly (l.mapM g)
  | [] => pure []
  | a :: l => by
    rw [List.mapM_cons]
    exact (h a).bind fun b => (mapM h l).bind fun bs => pure (b :: bs)

theorem foldlM {g : β → α → ScriptM Loader Factory Value β} (h : ∀ b a, Orderly (g b a)) :
    ∀ (l : List α) (b : β), Orderly (l.foldlM g b)
  | [], b => pure b
  | a :: l, b => by
    rw [List.foldlM_cons]
    exact (h b a).bind fun b' => foldlM h l b'

end Orderly

theorem orderly_ask (question : Platform Loader Engine Factory → Except ScriptThrowable α) :
    Orderly (ask world question : ScriptM Loader Factory Value α) := by
  refine Orderly.read.bind fun _ => (Orderly.update ?_).bind fun _ => Orderly.ofExcept _
  exact fun _ => rfl

/-- The bracket as a whole: what was there before is back, unless the call raised. -/
theorem run_underLoader_askManager (entry : Entry Loader) (query : EngineQuery) (s : ScriptState Loader Value) :
    (underLoader entry.2 (askManager world entry query)).run s =
      match (world s.clock).getEngine entry.1 entry.2 query with
      | .ok engine => ⟨.ok engine, { s with clock := s.clock + 1 }, [.asked entry entry.2 query false]⟩
      | .error e => ⟨.error e, { s with clock := s.clock + 1, contextClassLoader := entry.2 },
          [.asked entry entry.2 query true]⟩ := by
  rw [underLoader, run_read_bind, setContextClassLoader, run_update_bind, askManager, bind_assoc, run_read_bind,
    bind_assoc, run_update_bind, bind_assoc, run_emit_bind]
  dsimp only
  cases (world s.clock).getEngine entry.1 entry.2 query <;> rfl

theorem run_underLoader_askFactory (factory : Factory) (loader : Option Loader) (s : ScriptState Loader Value) :
    (underLoader loader (askFactory world factory loader)).run s =
      match (world s.clock).getScriptEngine factory loader with
      | .ok engine => ⟨.ok engine, { s with clock := s.clock + 1 }, [.created factory loader loader false]⟩
      | .error e => ⟨.error e, { s with clock := s.clock + 1, contextClassLoader := loader },
          [.created factory loader loader true]⟩ := by
  rw [underLoader, run_read_bind, setContextClassLoader, run_update_bind, askFactory, bind_assoc, run_read_bind,
    bind_assoc, run_update_bind, bind_assoc, run_emit_bind]
  dsimp only
  cases (world s.clock).getScriptEngine factory loader <;> rfl

theorem orderly_askManager (entry : Entry Loader) (query : EngineQuery) :
    Orderly (underLoader entry.2 (askManager world entry query) : ScriptM Loader Factory Value (Option Engine)) where
  follows s := by
    rw [run_underLoader_askManager]
    cases (world s.clock).getEngine entry.1 entry.2 query <;> rfl
  own s w hw := by
    rw [run_underLoader_askManager] at hw
    cases hanswer : (world s.clock).getEngine entry.1 entry.2 query with
    | ok engine =>
      rw [hanswer] at hw
      cases List.mem_singleton.mp hw
      exact rfl
    | error e =>
      rw [hanswer] at hw
      cases List.mem_singleton.mp hw
      exact rfl

theorem orderly_findEngine (query : EngineQuery) : ∀ entries : List (Entry Loader),
    Orderly (findEngine world query entries : ScriptM Loader Factory Value _)
  | [] => .pure none
  | entry :: entries => by
    refine (orderly_askManager entry query).bind fun engine => ?_
    cases engine with
    | some engine => exact .pure _
    | none => exact orderly_findEngine query entries

theorem orderly_lookup (query : EngineQuery) : Orderly (lookup world query : ScriptM Loader Factory Value _) :=
  Orderly.read.bind fun _ => orderly_findEngine query _

theorem orderly_askFactory (factory : Factory) (loader : Option Loader) :
    Orderly (underLoader loader (askFactory world factory loader) : ScriptM Loader Factory Value (Option Engine)) where
  follows s := by
    rw [run_underLoader_askFactory]
    cases (world s.clock).getScriptEngine factory loader <;> rfl
  own s w hw := by
    rw [run_underLoader_askFactory] at hw
    cases hanswer : (world s.clock).getScriptEngine factory loader with
    | ok engine =>
      rw [hanswer] at hw
      cases List.mem_singleton.mp hw
      exact .inr rfl
    | error e =>
      rw [hanswer] at hw
      cases List.mem_singleton.mp hw
      exact .inr rfl

/-- A wrapper without a loader leaves the thread's as it is. -/
theorem orderly_askFactory_none (factory : Factory) :
    Orderly (askFactory world factory none : ScriptM Loader Factory Value (Option Engine)) where
  follows s := by
    rw [askFactory, run_read_bind, run_update_bind, run_emit_bind, run_ofExcept]
    cases (world s.clock).getScriptEngine factory s.contextClassLoader <;> rfl
  own s w hw := by
    rw [askFactory, run_read_bind, run_update_bind, run_emit_bind, run_ofExcept] at hw
    cases List.mem_singleton.mp hw
    exact .inl rfl

theorem orderly_getScriptEngine (factory : OSGiScriptEngineFactory Loader Factory) :
    Orderly (factory.getScriptEngine world : ScriptM Loader Factory Value (Option Engine)) := by
  rw [OSGiScriptEngineFactory.getScriptEngine]
  cases factory.contextClassLoader with
  | some loader => exact orderly_askFactory factory.factory (some loader)
  | none => exact orderly_askFactory_none factory.factory

theorem orderly_theBindings : Orderly (theBindings : ScriptM Loader Factory Value ℕ) := by
  refine Orderly.read.bind fun s => ?_
  cases s.bindings with
  | some scope => exact .pure scope
  | none => exact .raise _

theorem orderly_setManagerBindings (manager : ℕ) (bindings : Option ℕ) :
    Orderly (setManagerBindings manager bindings : ScriptM Loader Factory Value Unit) := by
  cases bindings with
  | some scope => exact .update fun _ => rfl
  | none => exact .raise _

theorem orderly_loadManager (managers : List (Entry Loader)) (factoryName : String) :
    Orderly (loadManager world managers factoryName : ScriptM Loader Factory Value _) := by
  refine Orderly.attempt ?_ fun e => ?_
  · refine (orderly_ask _).bind fun loader => Orderly.bind ?_ fun manager => Orderly.read.bind fun s =>
      (orderly_setManagerBindings manager s.bindings).bind fun _ => .pure _
    refine (orderly_ask _).bind fun _ => Orderly.read.bind fun s => (Orderly.update ?_).bind fun _ => .pure _
    exact fun _ => rfl
  · cases e with
    | error => exact .raise _
    | io | exception =>
      exact Orderly.bind ⟨tracks_emit fun _ => rfl, always_emit trivial⟩ fun _ => .pure managers

theorem orderly_reloadManagers : Orderly (reloadManagers world : ScriptM Loader Factory Value Unit) := by
  refine Orderly.bind ?_ fun managers => .update fun _ => rfl
  refine Orderly.attempt ?_ fun e => .raise _
  refine Orderly.bind ?_ fun candidates => .foldlM orderly_loadManager candidates []
  exact (orderly_ask _).bind fun _ => (Orderly.ofExcept _).bind fun _ => .pure _

theorem orderly_call (op : Operation Loader Factory Value) : Orderly (call world op) := by
  cases op with
  | get key =>
    refine Orderly.bind ?_ fun _ => .pure ()
    exact orderly_theBindings.bind fun _ => (Orderly.ofExcept _).bind fun _ => Orderly.read.bind fun _ => .pure _
  | put key value =>
    exact orderly_theBindings.bind fun _ => (Orderly.ofExcept _).bind fun _ => .update fun _ => rfl
  | setBindings bindings =>
    refine (Orderly.update ?_).bind fun _ => Orderly.read.bind fun s =>
      .each (fun entry => orderly_setManagerBindings entry.1 bindings) s.classLoaders
    exact fun _ => rfl
  | getEngineByExtension extension =>
    exact Orderly.bind ((orderly_lookup _).bind fun _ => .pure _) fun _ => .pure ()
  | getEngineByMimeType mimeType =>
    exact Orderly.bind ((orderly_lookup _).bind fun _ => .pure _) fun _ => .pure ()
  | getEngineByName shortName =>
    refine Orderly.bind ((orderly_lookup _).bind fun found => ?_) fun _ => .pure ()
    cases found with
    | none => exact .pure none
    | some found => exact (orderly_ask _).bind fun _ => .pure _
  | getEngineFactories =>
    refine Orderly.bind (Orderly.read.bind fun s => ?_) fun _ => .pure ()
    exact (Orderly.mapM (fun entry => (orderly_ask _).bind fun _ => .pure _) s.classLoaders).bind fun _ => .pure _
  | registerEngine query => exact Orderly.read.bind fun s => .each (fun _ => orderly_ask _) s.classLoaders
  | reloadManagers => exact orderly_reloadManagers
  | getScriptEngine factory => exact (orderly_getScriptEngine factory).bind fun _ => .pure ()

/-- **The class loader that is left behind.**  Over any calls, with exceptions at any of them: every engine is asked
for under the class loader of its manager or factory, and in the end the thread has the class loader of the last such
question that raised; only if none did, the one it had. -/
theorem lookups_exact (world : ℕ → Platform Loader Engine Factory) (ops : List (Operation Loader Factory Value))
    (s : ScriptState Loader Value) :
    (∀ w ∈ ((calls world ops).run s).events, UnderItsLoader w) ∧
      ((calls world ops).run s).state.contextClassLoader =
        ((calls world ops).run s).events.foldl leftBehind s.contextClassLoader := by
  have hcalls : Orderly (calls world ops) := .each (fun op => (orderly_call op).attempt fun _ => .pure ()) ops
  exact ⟨hcalls.own s, hcalls.follows s⟩

end Loader

/-! ### The scope of all managers -/

section Scope

open Prog

variable {world : ℕ → Platform Loader Engine Factory}

/-- The managers exist, and share the scope that `put` and `get` use, if there is one. -/
structure Shared (s : ScriptState Loader Value) : Prop where
  exist : ∀ entry ∈ s.classLoaders, entry.1 < s.next
  scope : ∀ scope, s.bindings = some scope → ∀ entry ∈ s.classLoaders, s.globalScope entry.1 = scope

/-- What happens without `setBindings` to what was there before. -/
structure Grows (s t : ScriptState Loader Value) : Prop where
  bindings : t.bindings = s.bindings
  classLoaders : t.classLoaders = s.classLoaders
  next : s.next ≤ t.next
  globalScope : ∀ manager < s.next, t.globalScope manager = s.globalScope manager

instance : Std.Refl (@Grows Loader Value) := ⟨fun _ => ⟨rfl, rfl, le_rfl, fun _ _ => rfl⟩⟩

instance : IsTrans (ScriptState Loader Value) Grows := ⟨fun _ _ _ h h' =>
  ⟨h'.bindings.trans h.bindings, h'.classLoaders.trans h.classLoaders, h.next.trans h'.next, fun m hm =>
    (h'.globalScope m (hm.trans_le h.next)).trans (h.globalScope m hm)⟩⟩

theorem Shared.grows {s t : ScriptState Loader Value} (h : Shared s) (hst : Grows s t) : Shared t where
  exist entry hentry := by
    rw [hst.classLoaders] at hentry
    exact (h.exist entry hentry).trans_le hst.next
  scope scope hscope entry hentry := by
    rw [hst.bindings] at hscope
    rw [hst.classLoaders] at hentry
    rw [hst.globalScope entry.1 (h.exist entry hentry)]
    exact h.scope scope hscope entry hentry

/-- Only what was there before is looked at. -/
abbrev Keeping (p : ScriptM Loader Factory Value α) : Prop := Within Grows (fun _ => True) p

theorem keeping_update {g : ScriptState Loader Value → ScriptState Loader Value}
    (h : ∀ s, Grows s (g s)) : Keeping (update g : ScriptM Loader Factory Value Unit) := within_update h

theorem keeping_ask (question : Platform Loader Engine Factory → Except ScriptThrowable α) :
    Keeping (ask world question : ScriptM Loader Factory Value α) := by
  refine within_read.bind fun _ => (keeping_update fun s => ?_).bind fun _ => within_ofExcept _
  exact ⟨rfl, rfl, le_rfl, fun _ _ => rfl⟩

theorem keeping_theBindings : Keeping (theBindings : ScriptM Loader Factory Value ℕ) := by
  refine within_read.bind fun s => ?_
  cases s.bindings with
  | some scope => exact within_pure scope
  | none => exact within_raise _

theorem keeping_findEngine (query : EngineQuery) : ∀ entries : List (Entry Loader),
    Keeping (findEngine world query entries : ScriptM Loader Factory Value _)
  | [] => within_pure none
  | entry :: entries => by
    refine Within.bind (fun s => ?_) fun engine => ?_
    · rw [run_underLoader_askManager]
      cases (world s.clock).getEngine entry.1 entry.2 query <;>
        exact ⟨⟨rfl, rfl, le_rfl, fun _ _ => rfl⟩, fun _ _ => trivial⟩
    · cases engine with
      | some engine => exact within_pure _
      | none => exact keeping_findEngine query entries

theorem keeping_lookup (query : EngineQuery) : Keeping (lookup world query : ScriptM Loader Factory Value _) :=
  within_read.bind fun _ => keeping_findEngine query _

theorem keeping_getScriptEngine (factory : OSGiScriptEngineFactory Loader Factory) :
    Keeping (factory.getScriptEngine world : ScriptM Loader Factory Value (Option Engine)) := by
  rw [OSGiScriptEngineFactory.getScriptEngine]
  cases factory.contextClassLoader with
  | some loader =>
    intro s
    dsimp only
    rw [run_underLoader_askFactory]
    cases (world s.clock).getScriptEngine factory.factory (some loader) <;>
      exact ⟨⟨rfl, rfl, le_rfl, fun _ _ => rfl⟩, fun _ _ => trivial⟩
  | none =>
    intro s
    dsimp only
    rw [askFactory, run_read_bind, run_update_bind, run_emit_bind, run_ofExcept]
    exact ⟨⟨rfl, rfl, le_rfl, fun _ _ => rfl⟩, fun _ _ => trivial⟩

/-- Managers that exist and have the scope that `put` and `get` use. -/
def Loaded (managers : List (Entry Loader)) (s : ScriptState Loader Value) : Prop :=
  ∀ entry ∈ managers, entry.1 < s.next ∧ ∀ scope, s.bindings = some scope → s.globalScope entry.1 = scope

theorem Loaded.grows {managers : List (Entry Loader)} {s t : ScriptState Loader Value} (h : Loaded managers s)
    (hst : Grows s t) : Loaded managers t := by
  intro entry hentry
  obtain ⟨hexist, hscope⟩ := h entry hentry
  refine ⟨hexist.trans_le hst.next, fun scope hbindings => ?_⟩
  rw [hst.globalScope entry.1 hexist]
  exact hscope scope (hst.bindings ▸ hbindings)

variable {s : ScriptState Loader Value}

theorem triple_of_keeping {p : ScriptM Loader Factory Value α} (h : Keeping p) :
    Triple (Grows s) p fun _ t _ => Grows s t := fun t ht => IsTrans.trans _ _ _ ht (h t).1

/-- A new manager is none of those that were there. -/
theorem triple_newScriptEngineManager (loader : Option Loader) :
    Triple (Grows s) (newScriptEngineManager world loader : ScriptM Loader Factory Value ℕ)
      fun r t _ => Grows s t ∧ ∀ manager, r = .ok manager → s.next ≤ manager ∧ manager < t.next := by
  refine (triple_of_keeping (keeping_ask _)).bind (fun e t _ ht => ⟨ht, fun _ h => by cases h⟩) fun _ _ => ?_
  refine triple_read_bind fun u hu t ht => ?_
  subst ht
  refine ⟨⟨hu.bindings, hu.classLoaders, hu.next.trans (Nat.le_add_right t.next 2), fun manager hmanager => ?_⟩,
    fun manager h => ?_⟩
  · rw [← hu.globalScope manager hmanager]
    exact Function.update_of_ne (hmanager.trans_le hu.next).ne _ _
  · cases h
    exact ⟨hu.next, Nat.lt_add_of_pos_right Nat.two_pos⟩

/-- It gets the scope that is used. -/
theorem triple_setManagerBindings {manager : ℕ} (hmanager : s.next ≤ manager) :
    Triple (fun t => Grows s t ∧ manager < t.next)
      (do
        let u ← read
        setManagerBindings manager u.bindings : ScriptM Loader Factory Value Unit)
      fun r t _ => Grows s t ∧ (r = .ok () → manager < t.next ∧
        ∀ scope, t.bindings = some scope → t.globalScope manager = scope) := by
  refine triple_read_bind fun u ⟨hu, hnext⟩ t ht => ?_
  subst ht
  cases hbindings : t.bindings with
  | none => exact ⟨hu, fun h => by cases h⟩
  | some scope =>
    refine ⟨⟨hu.bindings, hu.classLoaders, hu.next, fun m hm => ?_⟩, fun _ => ⟨hnext, fun scope' hscope' => ?_⟩⟩
    · rw [← hu.globalScope m hm]
      exact Function.update_of_ne (hm.trans_le hmanager).ne _ _
    · have hsame : scope = scope' := Option.some.inj (hbindings.symm.trans hscope')
      rw [← hsame]
      exact Function.update_self _ _ _

/-- One name: there is one manager more, with the scope that is used, or none. -/
theorem triple_loadManager (managers : List (Entry Loader)) (factoryName : String) :
    Triple (fun t => Grows s t ∧ Loaded managers t)
      (loadManager world managers factoryName : ScriptM Loader Factory Value (List (Entry Loader)))
      fun r t _ => Grows s t ∧ ∀ managers', r = .ok managers' → Loaded managers' t := by
  intro u ⟨hsu, hloaded⟩
  have hbody : Triple (Grows u)
      (do
        let loader ← ask world (·.classForName factoryName)
        let manager ← newScriptEngineManager world loader
        let s ← Prog.read
        setManagerBindings manager s.bindings
        return managers ++ [(manager, loader)] : ScriptM Loader Factory Value (List (Entry Loader)))
      fun r t _ => Grows u t ∧ ∀ managers', r = .ok managers' → Loaded managers' t := by
    refine (triple_of_keeping (keeping_ask _)).bind (fun e t _ ht => ⟨ht, fun _ h => by cases h⟩) fun loader _ => ?_
    refine (triple_newScriptEngineManager loader).bind (fun e t _ h => ⟨h.1, fun _ h => by cases h⟩) fun manager _ => ?_
    intro t ⟨ht, hmanager⟩
    obtain ⟨hfresh, hnext⟩ := hmanager manager rfl
    have hset : Triple (fun t => Grows u t ∧ manager < t.next)
        ((do
          let s ← Prog.read
          setManagerBindings manager s.bindings) >>= fun _ => (return managers ++ [(manager, loader)] :
            ScriptM Loader Factory Value (List (Entry Loader))))
        fun r t _ => Grows u t ∧ ∀ managers', r = .ok managers' → Loaded managers' t := by
      refine (triple_setManagerBindings hfresh).bind (fun e t _ h => ⟨h.1, fun _ h => by cases h⟩) fun _ _ => ?_
      refine triple_pure fun t ⟨ht, hscope⟩ => ⟨ht, fun managers' hmanagers => ?_⟩
      cases hmanagers
      intro entry hentry
      rcases List.mem_append.mp hentry with hentry | hentry
      · exact hloaded.grows ht entry hentry
      · cases List.mem_singleton.mp hentry
        exact hscope rfl
    rw [bind_assoc] at hset
    exact hset t ⟨ht, hnext⟩
  have hall := hbody.attempt (h := fun e =>
      match e with
      | .error => Prog.raise .error
      | _ => do
        Prog.emit (.cannotLoad factoryName)
        return managers)
    (R := fun r t _ => Grows u t ∧ ∀ managers', r = .ok managers' → Loaded managers' t)
    (fun a t _ h => h) (fun e _ => ?_)
  · obtain ⟨hgrows, hmanagers⟩ := hall u (Std.Refl.refl u)
    exact ⟨IsTrans.trans _ _ _ hsu hgrows, hmanagers⟩
  · cases e with
    | error => exact fun t ht => ⟨ht.1, fun _ h => by cases h⟩
    | io | exception =>
      intro t ht
      refine ⟨ht.1, fun managers' h => ?_⟩
      cases h
      exact hloaded.grows ht.1

theorem triple_loadManagers : ∀ (candidates : List String) (managers : List (Entry Loader)),
    Triple (fun t => Grows s t ∧ Loaded managers t)
      (candidates.foldlM (loadManager world) managers : ScriptM Loader Factory Value (List (Entry Loader)))
      fun r t _ => Grows s t ∧ ∀ managers', r = .ok managers' → Loaded managers' t
  | [], managers => triple_pure fun t ⟨ht, hloaded⟩ => ⟨ht, fun _ h => by
      cases h
      exact hloaded⟩
  | candidate :: candidates, managers => by
    rw [List.foldlM_cons]
    refine (triple_loadManager managers candidate).bind (fun e t _ h => ⟨h.1, fun _ h => by cases h⟩) fun managers' _ => ?_
    exact fun t ⟨ht, hloaded⟩ => triple_loadManagers candidates managers' t ⟨ht, hloaded managers' rfl⟩

theorem triple_findManagers :
    Triple (Grows s) (findManagers world : ScriptM Loader Factory Value (List (Entry Loader)))
      fun r t _ => Grows s t ∧ ∀ managers, r = .ok managers → Loaded managers t := by
  refine Triple.attempt (S := fun r t _ => Grows s t ∧ ∀ managers, r = .ok managers → Loaded managers t) ?_
    (fun _ _ _ h => h) fun e _ t h => ⟨h.1, fun _ h => by cases h⟩
  have hcandidates : Keeping (findFactoryCandidates world : ScriptM Loader Factory Value (List String)) :=
    (keeping_ask _).bind fun _ => (within_ofExcept _).bind fun _ => within_pure _
  refine (triple_of_keeping hcandidates).bind (fun e t _ h => ⟨h, fun _ h => by cases h⟩) fun candidates _ t ht => ?_
  exact triple_loadManagers candidates [] t ⟨ht, fun _ h => (List.not_mem_nil h).elim⟩

/-- The new managers take the place of the old ones, all at once or not at all. -/
theorem shared_reloadManagers (h : Shared s) :
    Shared ((reloadManagers world : ScriptM Loader Factory Value Unit).run s).state ∧
      ((reloadManagers world : ScriptM Loader Factory Value Unit).run s).state.bindings = s.bindings := by
  have hreload : Triple (Grows s) (reloadManagers world : ScriptM Loader Factory Value Unit)
      fun _ t _ => Shared t ∧ t.bindings = s.bindings := by
    refine triple_findManagers.bind (fun e t _ ht => ⟨h.grows ht.1, ht.1.bindings⟩) fun managers _ t ⟨ht, hloaded⟩ => ?_
    have hmem : ∀ entry, entry ∈ (world t.clock).keySet managers → entry ∈ managers :=
      fun entry => ((world t.clock).keySet_perm managers).mem_iff.mp
    exact ⟨⟨fun entry hentry => (hloaded managers rfl entry (hmem entry hentry)).1,
      fun scope hscope entry hentry => (hloaded managers rfl entry (hmem entry hentry)).2 scope hscope⟩, ht.bindings⟩
  exact hreload s (Std.Refl.refl s)

/-- All of them get the scope. -/
theorem run_setManagerBindings (scope : ℕ) : ∀ (entries : List (Entry Loader)) (s : ScriptState Loader Value),
    (Prog.each (fun entry => setManagerBindings entry.1 (some scope)) entries : ScriptM Loader Factory Value Unit).run s =
      ⟨.ok (), { s with globalScope := fun manager =>
        if manager ∈ entries.map Prod.fst then scope else s.globalScope manager }, []⟩
  | [], s => by simp [Prog.each]
  | entry :: entries, s => by
    rw [Prog.each, setManagerBindings, run_update_bind, run_setManagerBindings scope entries]
    have hscope : (fun manager => if manager ∈ entries.map Prod.fst then scope
        else Function.update s.globalScope entry.1 scope manager) =
        fun manager => if manager ∈ (entry :: entries).map Prod.fst then scope else s.globalScope manager := by
      funext manager
      by_cases hmanager : manager = entry.1
      · subst hmanager
        simp
      · have hmem : manager ∈ (entry :: entries).map Prod.fst ↔ manager ∈ entries.map Prod.fst := by
          rw [List.map_cons, List.mem_cons, or_iff_right hmanager]
        simp only [hmem, Function.update_of_ne hmanager]
    dsimp only
    rw [hscope]

theorem shared_setBindings (h : Shared s) (bindings : Option ℕ) :
    Shared ((setBindings bindings : ScriptM Loader Factory Value Unit).run s).state ∧
      ((setBindings bindings : ScriptM Loader Factory Value Unit).run s).state.bindings = bindings := by
  rw [setBindings, run_update_bind, run_read_bind]
  dsimp only
  cases bindings with
  | none =>
    -- the first manager refuses `null`
    cases hentries : s.classLoaders with
    | nil => exact ⟨⟨fun _ hentry => (List.not_mem_nil hentry).elim, fun _ hscope => (nomatch hscope)⟩, rfl⟩
    | cons entry entries =>
      refine ⟨⟨fun entry' hentry => h.exist entry' ?_, fun _ hscope => (nomatch hscope)⟩, rfl⟩
      rw [hentries]
      exact hentry
  | some scope =>
    rw [run_setManagerBindings]
    refine ⟨⟨h.exist, fun scope' hscope' entry hentry => ?_⟩, rfl⟩
    cases hscope'
    exact if_pos (List.mem_map_of_mem hentry)

/-- What a call makes of the scope that `put` and `get` use. -/
def Operation.scopeAfter (bindings : Option ℕ) : Operation Loader Factory Value → Option ℕ
  | .setBindings bindings => bindings
  | _ => bindings

variable (world) in
theorem shared_call (op : Operation Loader Factory Value) (h : Shared s) :
    Shared ((call world op).run s).state ∧ ((call world op).run s).state.bindings = op.scopeAfter s.bindings := by
  have hkeep : ∀ p : ScriptM Loader Factory Value Unit, Keeping p →
      Shared (p.run s).state ∧ (p.run s).state.bindings = s.bindings :=
    fun p hp => ⟨h.grows (hp s).1, (hp s).1.bindings⟩
  cases op with
  | get key =>
    refine hkeep _ (Within.bind ?_ fun _ => within_pure ())
    exact keeping_theBindings.bind fun _ => (within_ofExcept _).bind fun _ => within_read.bind fun _ => within_pure _
  | put key value =>
    refine hkeep _ (keeping_theBindings.bind fun _ => (within_ofExcept _).bind fun _ => keeping_update fun t => ?_)
    exact ⟨rfl, rfl, le_rfl, fun _ _ => rfl⟩
  | setBindings bindings => exact shared_setBindings h bindings
  | getEngineByExtension extension =>
    exact hkeep _ (Within.bind ((keeping_lookup _).bind fun _ => within_pure _) fun _ => within_pure ())
  | getEngineByMimeType mimeType =>
    exact hkeep _ (Within.bind ((keeping_lookup _).bind fun _ => within_pure _) fun _ => within_pure ())
  | getEngineByName shortName =>
    refine hkeep _ (Within.bind ((keeping_lookup _).bind fun found => ?_) fun _ => within_pure ())
    cases found with
    | none => exact within_pure none
    | some found => exact (keeping_ask _).bind fun _ => within_pure _
  | getEngineFactories =>
    refine hkeep _ (Within.bind (within_read.bind fun t => ?_) fun _ => within_pure ())
    exact (Within.mapM (fun entry => (keeping_ask _).bind fun _ => within_pure _) t.classLoaders).bind
      fun _ => within_pure _
  | registerEngine query => exact hkeep _ (within_read.bind fun t => .each (fun _ => keeping_ask _) t.classLoaders)
  | reloadManagers => exact shared_reloadManagers h
  | getScriptEngine factory => exact hkeep _ ((keeping_getScriptEngine factory).bind fun _ => within_pure ())

theorem run_attempt_call (op : Operation Loader Factory Value) :
    (Prog.attempt (call world op) fun _ => return).run s =
      ⟨.ok (), ((call world op).run s).state, ((call world op).run s).events⟩ := by
  rw [run_attempt]
  rcases (call world op).run s with ⟨r, t, es⟩
  cases r with
  | ok _ => rfl
  | error e => simp

variable (world) in
theorem shared_calls (ops : List (Operation Loader Factory Value)) (h : Shared s) :
    Shared ((calls world ops).run s).state ∧
      ((calls world ops).run s).state.bindings = ops.foldl Operation.scopeAfter s.bindings := by
  induction ops generalizing s with
  | nil => exact ⟨h, rfl⟩
  | cons op ops ih =>
    obtain ⟨hshared, hbindings⟩ := shared_call world op h
    obtain ⟨hall, hafter⟩ := ih hshared
    rw [calls, Prog.each, run_bind, run_attempt_call]
    exact ⟨hall, by rw [List.foldl_cons, ← hbindings]; exact hafter⟩

variable (world) in
theorem shared_construct (s : ScriptState Loader Value) :
    Shared ((construct world : ScriptM Loader Factory Value Unit).run s).state ∧
      ((construct world : ScriptM Loader Factory Value Unit).run s).state.bindings = some s.next := by
  rw [construct, run_update_bind]
  exact shared_reloadManagers ⟨fun _ hentry => (List.not_mem_nil hentry).elim,
    fun _ _ _ hentry => (List.not_mem_nil hentry).elim⟩

theorem run_theBindings {scope : ℕ} (h : s.bindings = some scope) :
    (theBindings : ScriptM Loader Factory Value ℕ).run s = ⟨.ok scope, s, []⟩ := by
  rw [theBindings, run_read_bind, h]
  rfl

theorem checkKey_eq_ok {key : Option String} {text : String} (h : checkKey key = .ok text) : key = some text := by
  cases key with
  | none => cases h
  | some key =>
    rw [checkKey] at h
    split at h
    · cases h
    · cases h
      rfl

theorem run_put {scope : ℕ} (h : s.bindings = some scope) {key : Option String} {text : String}
    (hkey : checkKey key = .ok text) (value : Value) :
    (put key value : ScriptM Loader Factory Value Unit).run s = ⟨.ok (), { s with
      contents := Function.update s.contents scope (Function.update (s.contents scope) text (some value)) }, []⟩ := by
  rw [put, run_bind_of_ok (run_theBindings h), hkey]
  rfl

theorem run_get {scope : ℕ} (h : s.bindings = some scope) {key : Option String} {text : String}
    (hkey : checkKey key = .ok text) :
    (get key : ScriptM Loader Factory Value (Option Value)).run s = ⟨.ok (s.contents scope text), s, []⟩ := by
  rw [get, run_bind_of_ok (run_theBindings h), hkey]
  rfl

/-- `put` returns only with a scope and a key. -/
theorem of_put_eq_ok {key : Option String} {value : Value}
    (h : ((put key value : ScriptM Loader Factory Value Unit).run s).result = .ok ()) :
    ∃ scope text, s.bindings = some scope ∧ checkKey key = .ok text := by
  cases hbindings : s.bindings with
  | none =>
    rw [put, theBindings, bind_assoc, run_read_bind, hbindings] at h
    cases h
  | some scope =>
    rw [put, run_bind_of_ok (run_theBindings hbindings)] at h
    cases hkey : checkKey key with
    | error e =>
      rw [hkey] at h
      cases h
    | ok text => exact ⟨scope, text, rfl, rfl⟩

/-- What `put` has put under a key is what `get` returns for it, and it is in the scope of every manager. -/
def Seen (s : ScriptState Loader Value) : Prop := ∀ (key : Option String) (value : Value),
  let o := (put key value : ScriptM Loader Unit Value Unit).run s
  o.result = .ok () → ((get key : ScriptM Loader Unit Value (Option Value)).run o.state).result = .ok (some value) ∧
    ∃ text, key = some text ∧ ∀ entry ∈ o.state.classLoaders,
      o.state.contents (o.state.globalScope entry.1) text = some value

theorem Shared.seen (h : Shared s) : Seen s := by
  intro key value o hput
  obtain ⟨scope, text, hbindings, hkey⟩ := of_put_eq_ok hput
  have hrun : o = _ := run_put hbindings hkey value
  have hcontents : o.state.contents scope text = some value := by
    rw [hrun]
    show Function.update s.contents scope (Function.update (s.contents scope) text (some value)) scope text = some value
    rw [Function.update_self, Function.update_self]
  have hget : (get key : ScriptM Loader Unit Value (Option Value)).run o.state =
      ⟨.ok (o.state.contents scope text), o.state, []⟩ := run_get (by rw [hrun]; exact hbindings) hkey
  refine ⟨by rw [hget, hcontents], text, checkKey_eq_ok hkey, fun entry hentry => ?_⟩
  have hscope : o.state.globalScope entry.1 = scope := by
    rw [hrun] at hentry ⊢
    exact h.scope scope hbindings entry hentry
  rw [hscope, hcontents]

/-- **One scope.**  From the constructor on, through any calls, with exceptions at any of them: all managers, also those
found by a reload, give their engines the scope that `put` and `get` use, and this is the one that was set last; only
after `setBindings(null)` there is none that `put` and `get` use, until the next `setBindings`. -/
theorem scope_shared (world : ℕ → Platform Loader Engine Factory) (ops : List (Operation Loader Factory Value))
    (s : ScriptState Loader Value) :
    let o := (construct world >>= fun _ => calls world ops : ScriptM Loader Factory Value Unit).run s
    Shared o.state ∧ Seen o.state ∧
      (o.result = .ok () → o.state.bindings = ops.foldl Operation.scopeAfter (some s.next)) := by
  intro o
  have ho : o = _ := run_bind (construct world) (fun _ => calls world ops) s
  obtain ⟨hshared, hbindings⟩ := shared_construct world s
  rcases hrun : (construct world : ScriptM Loader Factory Value Unit).run s with ⟨r, t, es⟩
  rw [hrun] at ho hshared hbindings
  cases r with
  | ok _ =>
    obtain ⟨hall, hafter⟩ := shared_calls world ops hshared
    rw [ho]
    exact ⟨hall, hall.seen, fun _ => by rw [← hbindings]; exact hafter⟩
  | error e =>
    rw [ho]
    exact ⟨hshared, hshared.seen, fun h => by cases h⟩

end Scope

end Dynamy.Shell.OSGiScriptEngineManager
