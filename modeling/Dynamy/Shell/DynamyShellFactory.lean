import Dynamy.Shell.DynamyCommandOsgiHelper

/-!
# Dynamy.Shell.DynamyShellFactory — the interactive shell

The `run` of the shell's worker: banner, read loop, exit callback.  The loop reads lines until `exit`, until the
session is destroyed, or as long as its fuel lasts; at the end of the input `readLine` returns `null` again and again.
Whatever a line raises is printed and the loop goes on.
-/

namespace Dynamy.Shell

open Dynamy.Java Dynamy.Lib

variable {Ref Cmd : Type} (env : Env Ref Cmd)

/-- `SshTerminal.getWidth` -/
def getWidth : ShellM Cmd ℤ := do
  let columns ← ask env fun w => .ok w.columns
  match columns with
  | none => return 0
  | some text =>
    match parseInt text with
    | .ok width => return width
    | .error _ => return 0

/-- `xs.max` on a list of lengths -/
def maxLength : List ℕ → Except Throwable ℕ
  | [] => .error ⟨.unsupportedOperation, some "empty.max"⟩
  | x :: xs => .ok (xs.foldl max x)

/-- `String.format("%-" + commandWidth + "s|%-" + descriptionWidth + "s", fullName, description)` -/
def helpLine (commandWidth descriptionWidth : ℤ) (fullName description : String) : Except Throwable String := do
  let left ← leftJustify commandWidth fullName
  let right ← leftJustify descriptionWidth description
  return left ++ "|" ++ right

/-- `for (c <- commands) yield c.fullName.length()` -/
def fullNameLengths (commands : List (DynamyCommandHelper Cmd)) : Except Throwable (List ℕ) :=
  commands.mapM fun c => do
    let fullName ← c.fullName env
    return fullName.length

def printHelpLines (commandWidth descriptionWidth : ℤ) : List (DynamyCommandHelper Cmd) → ShellM Cmd Unit
  | [] => return
  | command :: commands => do
    let fullName ← Prog.ofExcept (command.fullName env)
    let m ← Prog.ofExcept (command.getMeta env)
    let text ← Prog.ofExcept (helpLine commandWidth descriptionWidth fullName m.description)
    Prog.emit (.println (some text))
    printHelpLines commandWidth descriptionWidth commands

def printHelp : ShellM Cmd Unit := do
  Prog.emit (.print "Dynamy Help:")
  Prog.emit (.println (some ""))
  let fullWidth ← getWidth env
  let measured ← getCommands env
  let commandWidths ← Prog.ofExcept (fullNameLengths env measured)
  let commandWidth ← Prog.ofExcept (maxLength commandWidths)
  let commands ← getCommands env
  printHelpLines env commandWidth (wrapInt (fullWidth - commandWidth)) commands

def printBanner : ShellM Cmd Unit := do
  Prog.emit (.println (some "Welcome to Dynamy OSGi Console"))
  Prog.emit (.println (some env.banner))

/-- `reader.readLine()`: `null` once the input has ended. -/
def readLine : ShellM Cmd (Option String) := do
  let s ← Prog.read
  Prog.update fun s => { s with input := s.input.tail }
  Prog.emit (.line s.input.head?)
  return s.input.head?

/-- `running.get()`, which `destroy` clears from outside. -/
def isRunning : ShellM Cmd Bool := do
  let destroyed ← ask env fun w => .ok w.destroyed
  let s ← Prog.read
  return s.running && !destroyed

/-- `if (permitted) { .. command.execute(args) .. } else ..` -/
def executePermitted (command : DynamyCommandHelper Cmd) (args : List String) : ShellM Cmd Unit := do
  if ← permitted env command then
    let data ← command.execute env args
    match data with
    | some text => Prog.emit (.println (some text))
    | none => return
  else
    Prog.emit (.println (some "No permission to execute command"))

/-- What the loop does with a word that is no builtin. -/
def dispatch (args : List String) (word : String) : ShellM Cmd Unit := do
  let commandString ← resolveAlias env word
  match commandString with
  | none => Prog.emit (.println (some "Unknown command: null"))
  | some commandString =>
    if ← isCommand env commandString then
      let command ← getCommand env commandString
      executePermitted env ⟨command⟩ args
    else
      Prog.emit (.println (some ("Unknown command: " ++ commandString)))

/-- What the loop does with a line that is not blank. -/
def processLine (commandString : String) : ShellM Cmd Unit := do
  let args := splitSpaces commandString
  let word ← Prog.ofExcept (arrayAt args 0)
  if word == "exit" then
    Prog.update fun s => { s with running := false }
  else if word == "clear" then
    Prog.emit .drawLine
    Prog.emit .clearScreen
  else if word == "help" then
    printHelp env
  else
    dispatch env args word

/-- The body of the loop. -/
def loopBody : ShellM Cmd Unit :=
  Prog.attempt
    (do
      let line ← readLine
      let line ← Prog.ofExcept (deref line)
      let commandString := trim line
      if commandString.length > 0 then processLine env commandString else return)
    fun e => Prog.emit (.printStackTrace e)

/-- `while (running.get()) ..`; the result says whether the loop has ended within the fuel. -/
def loop : ℕ → ShellM Cmd Bool
  | 0 => return false
  | fuel + 1 => do
    if ← isRunning env then
      loopBody env
      loop fuel
    else
      return true

/-- The `run` of the worker. -/
def DynamyShellFactory.run (fuel : ℕ) : ShellM Cmd Bool := do
  printBanner env
  if ← loop env fuel then
    Prog.update fun s => { s with running := false }
    Prog.emit (.onExit 0 none)
    return true
  else
    return false

end Dynamy.Shell
