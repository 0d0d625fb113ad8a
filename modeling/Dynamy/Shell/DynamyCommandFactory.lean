import Dynamy.Shell.DynamyCommandOsgiHelper

/-!
# Dynamy.Shell.DynamyCommandFactory — commands given with the connection

`createCommand` resolves, checks and prepares; the server then starts what it got, once.  An `UnknownCommand` is
the server's own: it prints that the command is unknown.
-/

namespace Dynamy.Shell

open Dynamy.Java Dynamy.Lib

variable {Ref Cmd : Type} (env : Env Ref Cmd)

/-- What `createCommand` returns: the anonymous `Command` around a checked helper, or `UnknownCommand`. -/
inductive ExecCommand (Cmd : Type)
  | executing (command : DynamyCommandHelper Cmd) (args : List String)
  | unknownCommand (completeCommand : String)

/-- `createCommand`, with the request on record. -/
def createCommand (command : String) : ShellM Cmd (ExecCommand Cmd) := do
  Prog.emit (.line (some command))
  let completeCommand := command
  let args := splitSpaces command
  let word ← Prog.ofExcept (arrayAt args 0)
  let commandString ← resolveAlias env word
  match commandString with
  | none => return .unknownCommand completeCommand
  | some commandString =>
    if ← isCommand env commandString then
      let command ← getCommand env commandString
      if ← permitted env ⟨command⟩ then
        return .executing ⟨command⟩ args
      else
        return .unknownCommand completeCommand
    else
      return .unknownCommand completeCommand

/-- `start`, with an exit callback set or not. -/
def ExecCommand.start (exitCallback : Bool) : ExecCommand Cmd → ShellM Cmd Unit
  | .executing command args =>
    Prog.attempt
      (do
        let data ← command.execute env args
        Prog.emit (.println data)
        if exitCallback then Prog.emit (.onExit 0 none))
      fun e => do
        Prog.emit (.printStackTrace e)
        if exitCallback then Prog.emit (.onExit (-1) e.message)
  | .unknownCommand completeCommand => do
    Prog.emit (.println (some ("Unknown command: " ++ completeCommand)))
    if exitCallback then Prog.emit (.onExit 1 (some ("Unknown command: " ++ completeCommand)))

/-- One request: `createCommand`, then `start`. -/
def execRequest (exitCallback : Bool) (command : String) : ShellM Cmd Unit := do
  let created ← createCommand env command
  created.start env exitCallback

/-- Requests one after the other; what escapes from one ends in the server. -/
def execRequests (exitCallback : Bool) : List String → ShellM Cmd Unit
  | [] => return
  | command :: commands => do
    Prog.attempt (execRequest env exitCallback command) fun _ => return
    execRequests exitCallback commands

end Dynamy.Shell
