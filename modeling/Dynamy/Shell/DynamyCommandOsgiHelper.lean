import Dynamy.Java
import Dynamy.Lib.Prog

/-!
# Dynamy.Shell.DynamyCommandOsgiHelper — finding commands in the service registry

`DynamyCommandHelper` and the lookups of `DynamyCommandOsgiHelper`.  Commands are objects of any type `Cmd`, each with
the annotation of its class; service references are of any type `Ref`.  Other bundles, the security manager and the
server act at any time: every question put to the outside (`ask`) is answered by the world of its own moment, and
nothing ties the worlds of two moments to each other.
-/

namespace Dynamy.Shell

open Dynamy.Java Dynamy.Lib

structure DynamyCommandMeta where
  nameSpace : String
  name : String
  aliases : List String := []
  roles : List String := []
  perms : List String := []
  description : String := ""
  deriving DecidableEq, Repr

/-- The outside at one moment: the bundle context, the thread's subject, what a command would do, and whether the
session has been destroyed. -/
structure World (Ref Cmd : Type) where
  /-- `bc.getServiceReferences(classOf[DynamyCommand], filter)` -/
  getServiceReferences : Option String → Except Throwable (List Ref)
  getService : Ref → Option Cmd
  isPermitted : String → Except Throwable Bool
  hasAllRoles : List String → Except Throwable Bool
  /-- `command.execute(args)`: the text of the returned object, if that is not `null`. -/
  execute : Cmd → List String → Except Throwable (Option String)
  destroyed : Bool
  /-- `env.getEnv().get(Environment.ENV_COLUMNS)` -/
  columns : Option String

/-- The outside over time, and what does not change: the annotations of the command classes and the banner. -/
structure Env (Ref Cmd : Type) where
  annotationOf : Cmd → Option DynamyCommandMeta
  banner : String
  world : ℕ → World Ref Cmd

/-- What a shell does that can be seen: the requests it reads, what its lookups find, the checks and their answers,
the executions, and its output. -/
inductive ShellEvent (Cmd : Type)
  | line (text : Option String)
  | found (fullName : String) (command : Option Cmd)
  | isPermitted (perm : String) (answer : Bool)
  | hasAllRoles (roles : List String) (answer : Bool)
  | execute (command : Cmd) (args : List String)
  | print (text : String)
  | println (text : Option String)
  | printStackTrace (e : Throwable)
  | drawLine
  | clearScreen
  | onExit (exitValue : ℤ) (exitMessage : Option String)
  deriving DecidableEq

/-- The shell's own state: how often it asked, the input not read yet, and its `running` flag. -/
structure ShellState where
  clock : ℕ := 0
  input : List String := []
  running : Bool := true
  deriving DecidableEq, Repr

variable {Ref Cmd : Type}

abbrev ShellM (Cmd : Type) : Type → Type := Prog (ShellEvent Cmd) ShellState Throwable

/-- Put one question to the outside. -/
def ask {α : Type} (env : Env Ref Cmd) (question : World Ref Cmd → Except Throwable α) : ShellM Cmd α := do
  let s ← Prog.read
  Prog.update fun s => { s with clock := s.clock + 1 }
  Prog.ofExcept (question (env.world s.clock))

/-! ### `DynamyCommandHelper` -/

/-- `new DynamyCommandHelper(command)`, where `command` may be `null`. -/
structure DynamyCommandHelper (Cmd : Type) where
  command : Option Cmd

namespace DynamyCommandHelper

variable (env : Env Ref Cmd) (c : DynamyCommandHelper Cmd)

/-- `meta`, dereferenced as at every use of it: a `null` command or a class without annotation raises. -/
def getMeta : Except Throwable DynamyCommandMeta := do
  let command ← deref c.command
  deref (env.annotationOf command)

def fullName : Except Throwable String := do
  let m ← c.getMeta env
  return m.nameSpace ++ ":" ++ m.name

def fullAliases : Except Throwable (List String) := do
  let m ← c.getMeta env
  return m.aliases.map (m.nameSpace ++ ":" ++ ·)

def execute (args : List String) : ShellM Cmd (Option String) := do
  let command ← Prog.ofExcept (deref c.command)
  Prog.emit (.execute command args)
  ask env (·.execute command args)

theorem getMeta_eq_ok {m : DynamyCommandMeta} :
    c.getMeta env = .ok m ↔ ∃ command, c.command = some command ∧ env.annotationOf command = some m := by
  unfold getMeta
  cases c.command with
  | none => simp [bind, Except.bind]
  | some command => cases h : env.annotationOf command <;> simp [bind, Except.bind, h]

end DynamyCommandHelper

/-! ### `DynamyCommandOsgiHelper` -/

section Lookup

variable (env : Env Ref Cmd)

/-- `for (ref <- refs) yield new DynamyCommandHelper(bc.getService(ref))` -/
def getServices : List Ref → ShellM Cmd (List (DynamyCommandHelper Cmd))
  | [] => return []
  | ref :: refs => do
    let command ← ask env fun w => .ok (w.getService ref)
    let rest ← getServices refs
    return ⟨command⟩ :: rest

def getCommands : ShellM Cmd (List (DynamyCommandHelper Cmd)) := do
  let refs ← ask env (·.getServiceReferences none)
  getServices env refs

/-- The first command with the namespace and the alias; the search ends there, or at a command without `meta`. -/
def findAlias (nameSpace aliasName : String) :
    List (DynamyCommandHelper Cmd) → Except Throwable (Option (DynamyCommandHelper Cmd))
  | [] => return none
  | c :: cs => do
    let m ← c.getMeta env
    if m.nameSpace == nameSpace && m.aliases.contains aliasName then return some c else findAlias nameSpace aliasName cs

def isAlias (fullAlias : String) : ShellM Cmd Bool :=
  match splitChar ':' fullAlias with
  | [nameSpace, aliasName] => do
    let cs ← getCommands env
    let c ← Prog.ofExcept (findAlias env nameSpace aliasName cs)
    return c.isSome
  | _ => return false

def getCommandForAlias (fullAlias : String) : ShellM Cmd (Option String) :=
  match splitChar ':' fullAlias with
  | [nameSpace, aliasName] => do
    let cs ← getCommands env
    let c ← Prog.ofExcept (findAlias env nameSpace aliasName cs)
    match c with
    | some c => do
      let fullName ← Prog.ofExcept (c.fullName env)
      return some fullName
    | none => return none
  | _ => return none

/-- `String.format("(&(dynamy.command.namespace=%s)(dynamy.command.name=%s))", namespace, name)` -/
def commandFilter (nameSpace name : String) : String :=
  "(&(dynamy.command.namespace=" ++ nameSpace ++ ")(dynamy.command.name=" ++ name ++ "))"

/-- The body of `getCommand`. -/
def lookupCommand (fullName : String) : ShellM Cmd (Option Cmd) :=
  match splitChar ':' fullName with
  | [nameSpace, name] => do
    let filter := commandFilter nameSpace name
    let refs ← ask env (·.getServiceReferences (some filter))
    match refs with
    | [] => return none
    | [ref] => ask env fun w => .ok (w.getService ref)
    | _ => Prog.raise ⟨.runtime, some ("Found more than 1 command for " ++ filter)⟩
  | _ => return none

/-- `getCommand`, with what it found on record. -/
def getCommand (fullName : String) : ShellM Cmd (Option Cmd) := do
  let command ← lookupCommand env fullName
  Prog.emit (.found fullName command)
  return command

def isCommand (command : String) : ShellM Cmd Bool := do
  let c ← getCommand env command
  return c.isSome

def findCommandStrings : ShellM Cmd (List String) := do
  let cs ← getCommands env
  Prog.ofExcept (cs.mapM (·.fullName env))

def findAliasStrings : ShellM Cmd (List String) := do
  let cs ← getCommands env
  let aliases ← Prog.ofExcept (cs.mapM (·.fullAliases env))
  return aliases.flatten

/-- `if (isAlias(commandString)) commandString = getCommandForAlias(commandString)`, as both dispatchers begin. -/
def resolveAlias (commandString : String) : ShellM Cmd (Option String) := do
  if ← isAlias env commandString then getCommandForAlias env commandString else return some commandString

/-! ### The permission check of both dispatchers -/

/-- `for (p <- perms) yield SecurityUtils.getSubject().isPermitted(p)`: every entry is asked for. -/
def permittedCollection : List String → ShellM Cmd (List Bool)
  | [] => return []
  | p :: ps => do
    let answer ← ask env (·.isPermitted p)
    Prog.emit (.isPermitted p answer)
    let rest ← permittedCollection ps
    return answer :: rest

/-- `permittedCollection.forall(_ == true) && SecurityUtils.getSubject().hasAllRoles(roles)` -/
def permitted (c : DynamyCommandHelper Cmd) : ShellM Cmd Bool := do
  let m ← Prog.ofExcept (c.getMeta env)
  let answers ← permittedCollection env m.perms
  if answers.all (· == true) then
    let answer ← ask env (·.hasAllRoles m.roles)
    Prog.emit (.hasAllRoles m.roles answer)
    return answer
  else return false

end Lookup

end Dynamy.Shell
