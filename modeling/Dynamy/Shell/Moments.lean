import Dynamy.Lib.Timeline
import Dynamy.Shell.Authorisation
import Dynamy.Shell.Help

/-!
# Dynamy.Shell.Moments — when the checks of a session were answered

The outside changes while a shell runs.  The events of a session have moments, in order, such that each check of
permissions or roles has the answer that the Subject of its own moment gives (`timed_run`, `timed_execRequests`).  With
what licenses an execution that makes `executions_licensed`: no execution without its check, by the Subject itself.
-/

namespace Dynamy.Shell

open Dynamy.Java Dynamy.Lib

variable {Ref Cmd : Type}

/-- A check has the answer of the Subject of this moment. -/
def AnsweredAt (env : Env Ref Cmd) : ShellEvent Cmd → ℕ → Prop
  | .isPermitted perm answer, n => (env.world n).isPermitted perm = .ok answer
  | .hasAllRoles roles answer, n => (env.world n).hasAllRoles roles = .ok answer
  | _, _ => True

/-- The checks of the program have moments. -/
abbrev TimedProg (env : Env Ref Cmd) {α : Type} (p : ShellM Cmd α) : Prop :=
  Prog.Timed ShellState.clock (AnsweredAt env) p

variable {env : Env Ref Cmd} {α β : Type}

theorem timed_ask (question : World Ref Cmd → Except Throwable α) : TimedProg env (ask env question) := by
  intro s
  rw [run_ask]
  exact ⟨Nat.le_succ _, [], timeline_nil⟩

/-- An answer is put on record right after it was given. -/
theorem timed_check {question : World Ref Cmd → Except Throwable Bool} {w : Bool → ShellEvent Cmd}
    (hw : ∀ answer n, question (env.world n) = .ok answer → AnsweredAt env (w answer) n) {f : Bool → ShellM Cmd β}
    (hf : ∀ answer, TimedProg env (f answer)) :
    TimedProg env (ask env question >>= fun answer => Prog.emit (w answer) >>= fun _ => f answer) := by
  intro s
  rw [Prog.run_bind, run_ask]
  cases hanswer : question (env.world s.clock) with
  | error e => exact ⟨Nat.le_succ _, [], timeline_nil⟩
  | ok answer =>
    obtain ⟨hle, ts, hts⟩ := hf answer { s with clock := s.clock + 1 }
    have hcheck : Timeline (AnsweredAt env) s.clock (s.clock + 1) [w answer] [s.clock] :=
      timeline_singleton (hw answer s.clock hanswer) (Nat.le_refl _) (Nat.le_succ _)
    exact ⟨Nat.le_trans (Nat.le_succ _) hle, s.clock :: ts, hcheck.append hts (Nat.le_succ _) hle⟩

/-- What is said of every moment. -/
theorem timed_say {w : ShellEvent Cmd} (h : ∀ n, AnsweredAt env w n) : TimedProg env (Prog.emit w : ShellM Cmd Unit) :=
  Prog.timed_emit h

theorem timed_println (text : Option String) : TimedProg env (Prog.emit (.println text) : ShellM Cmd Unit) :=
  timed_say (by exact fun _ => trivial)

/-! ### Lookups and checks -/

theorem timed_getServices (refs : List Ref) : TimedProg env (getServices env refs) := by
  induction refs with
  | nil => exact Prog.timed_pure []
  | cons ref refs ih => exact (timed_ask _).bind fun _ => ih.bind fun _ => Prog.timed_pure _

theorem timed_getCommands : TimedProg env (getCommands env) := (timed_ask _).bind fun refs => timed_getServices refs

theorem timed_isAlias (fullAlias : String) : TimedProg env (isAlias env fullAlias) := by
  unfold isAlias
  split
  · exact timed_getCommands.bind fun _ => (Prog.timed_ofExcept _).bind fun _ => Prog.timed_pure _
  · exact Prog.timed_pure _

theorem timed_getCommandForAlias (fullAlias : String) : TimedProg env (getCommandForAlias env fullAlias) := by
  unfold getCommandForAlias
  split
  · refine timed_getCommands.bind fun _ => (Prog.timed_ofExcept _).bind fun c => ?_
    cases c with
    | none => exact Prog.timed_pure _
    | some c => exact (Prog.timed_ofExcept _).bind fun _ => Prog.timed_pure _
  · exact Prog.timed_pure _

theorem timed_resolveAlias (word : String) : TimedProg env (resolveAlias env word) := by
  refine (timed_isAlias word).bind fun b => ?_
  cases b with
  | false => exact Prog.timed_pure _
  | true => exact timed_getCommandForAlias word

theorem timed_lookupCommand (fullName : String) : TimedProg env (lookupCommand env fullName) := by
  unfold lookupCommand
  split
  · refine (timed_ask _).bind fun refs => ?_
    split
    · exact Prog.timed_pure _
    · exact timed_ask _
    · exact Prog.timed_raise _
  · exact Prog.timed_pure _

theorem timed_getCommand (fullName : String) : TimedProg env (getCommand env fullName) :=
  (timed_lookupCommand fullName).bind fun _ => (timed_say (by exact fun _ => trivial)).bind fun _ => Prog.timed_pure _

theorem timed_isCommand (word : String) : TimedProg env (isCommand env word) :=
  (timed_getCommand word).bind fun _ => Prog.timed_pure _

theorem timed_permittedCollection (perms : List String) : TimedProg env (permittedCollection env perms) := by
  induction perms with
  | nil => exact Prog.timed_pure []
  | cons perm perms ih => exact timed_check (fun _ _ => id) fun _ => ih.bind fun _ => Prog.timed_pure _

theorem timed_permitted (c : DynamyCommandHelper Cmd) : TimedProg env (permitted env c) := by
  refine (Prog.timed_ofExcept _).bind fun m => (timed_permittedCollection m.perms).bind fun answers => ?_
  split
  · exact timed_check (fun _ _ => id) fun _ => Prog.timed_pure _
  · exact Prog.timed_pure _

theorem timed_execute (c : DynamyCommandHelper Cmd) (args : List String) : TimedProg env (c.execute env args) :=
  (Prog.timed_ofExcept _).bind fun _ => (timed_say (by exact fun _ => trivial)).bind fun _ => timed_ask _

/-! ### The interactive shell -/

theorem timed_executePermitted (c : DynamyCommandHelper Cmd) (args : List String) :
    TimedProg env (executePermitted env c args) := by
  refine (timed_permitted c).bind fun b => ?_
  cases b with
  | false => exact timed_println _
  | true =>
    refine (timed_execute c args).bind fun data => ?_
    cases data with
    | none => exact Prog.timed_pure _
    | some text => exact timed_println _

theorem timed_dispatch (args : List String) (word : String) : TimedProg env (dispatch env args word) := by
  refine (timed_resolveAlias word).bind fun commandString => ?_
  cases commandString with
  | none => exact timed_println _
  | some commandString =>
    refine (timed_isCommand commandString).bind fun b => ?_
    cases b with
    | false => exact timed_println _
    | true => exact (timed_getCommand commandString).bind fun c => timed_executePermitted ⟨c⟩ args

theorem timed_printHelpLines (w w' : ℤ) (cs : List (DynamyCommandHelper Cmd)) :
    TimedProg env (printHelpLines env w w' cs) := by
  induction cs with
  | nil => exact Prog.timed_pure _
  | cons c cs ih =>
    exact (Prog.timed_ofExcept _).bind fun _ => (Prog.timed_ofExcept _).bind fun _ =>
      (Prog.timed_ofExcept _).bind fun _ => (timed_println _).bind fun _ => ih

theorem timed_getWidth : TimedProg env (getWidth env) := by
  refine (timed_ask _).bind fun columns => ?_
  split
  · exact Prog.timed_pure _
  · split <;> exact Prog.timed_pure _

theorem timed_printHelp : TimedProg env (printHelp env) :=
  (timed_say (by exact fun _ => trivial)).bind fun _ => (timed_println _).bind fun _ =>
    timed_getWidth.bind fun _ => timed_getCommands.bind fun _ => (Prog.timed_ofExcept _).bind fun _ =>
      (Prog.timed_ofExcept _).bind fun _ => timed_getCommands.bind fun _ => timed_printHelpLines _ _ _

theorem timed_processLine (commandString : String) : TimedProg env (processLine env commandString) := by
  refine (Prog.timed_ofExcept _).bind fun word => ?_
  split_ifs
  · exact Prog.timed_update (by exact fun _ => Nat.le_refl _)
  · exact (timed_say (by exact fun _ => trivial)).bind fun _ => timed_say fun _ => trivial
  · exact timed_printHelp
  · exact timed_dispatch _ word

theorem timed_readLine : TimedProg env (readLine : ShellM Cmd (Option String)) :=
  Prog.timed_read.bind fun _ => (Prog.timed_update (by exact fun _ => Nat.le_refl _)).bind fun _ =>
    (timed_say (by exact fun _ => trivial)).bind fun _ => Prog.timed_pure _

theorem timed_loopBody : TimedProg env (loopBody env) := by
  refine Prog.Timed.attempt (timed_readLine.bind fun _ => (Prog.timed_ofExcept _).bind fun line => ?_)
    fun e => timed_say (by exact fun _ => trivial)
  dsimp only
  split_ifs
  · exact timed_processLine _
  · exact Prog.timed_pure _

theorem timed_isRunning : TimedProg env (isRunning env) :=
  (timed_ask _).bind fun _ => Prog.timed_read.bind fun _ => Prog.timed_pure _

theorem timed_loop (fuel : ℕ) : TimedProg env (loop env fuel) := by
  induction fuel with
  | zero => exact Prog.timed_pure _
  | succ fuel ih =>
    refine timed_isRunning.bind fun b => ?_
    cases b with
    | false => exact Prog.timed_pure _
    | true => exact timed_loopBody.bind fun _ => ih

theorem timed_run (fuel : ℕ) : TimedProg env (DynamyShellFactory.run env fuel) := by
  refine ((timed_println _).bind fun _ => timed_println _).bind fun _ => (timed_loop fuel).bind fun b => ?_
  cases b with
  | false => exact Prog.timed_pure _
  | true =>
    exact (Prog.timed_update (by exact fun _ => Nat.le_refl _)).bind fun _ =>
      (timed_say (by exact fun _ => trivial)).bind fun _ =>
      Prog.timed_pure _

/-! ### Requests given with the connection -/

theorem timed_createCommand (text : String) : TimedProg env (createCommand env text) := by
  refine (timed_say (by exact fun _ => trivial)).bind fun _ => (Prog.timed_ofExcept _).bind fun word =>
    (timed_resolveAlias word).bind fun commandString => ?_
  cases commandString with
  | none => exact Prog.timed_pure _
  | some commandString =>
    refine (timed_isCommand commandString).bind fun b => ?_
    cases b with
    | false => exact Prog.timed_pure _
    | true =>
      refine (timed_getCommand commandString).bind fun c => (timed_permitted ⟨c⟩).bind fun b => ?_
      cases b <;> exact Prog.timed_pure _

theorem timed_onExit (exitCallback : Bool) (exitValue : ℤ) (exitMessage : Option String) :
    TimedProg env (if exitCallback then Prog.emit (.onExit exitValue exitMessage) else pure () : ShellM Cmd Unit) := by
  split_ifs
  · exact timed_say (by exact fun _ => trivial)
  · exact Prog.timed_pure _

theorem timed_start (exitCallback : Bool) (created : ExecCommand Cmd) : TimedProg env (created.start env exitCallback) := by
  cases created with
  | unknownCommand text => exact (timed_println _).bind fun _ => timed_onExit exitCallback _ _
  | executing command args =>
    exact Prog.Timed.attempt
      ((timed_execute command args).bind fun _ => (timed_println _).bind fun _ => timed_onExit exitCallback _ _)
      fun e => (timed_say (by exact fun _ => trivial)).bind fun _ => timed_onExit exitCallback _ _

theorem timed_execRequests (exitCallback : Bool) (texts : List String) :
    TimedProg env (execRequests env exitCallback texts) := by
  induction texts with
  | nil => exact Prog.timed_pure _
  | cons text texts ih =>
    have hone : TimedProg env (execRequest env exitCallback text) :=
      (timed_createCommand text).bind fun created => timed_start exitCallback created
    exact (hone.attempt fun _ => Prog.timed_pure _).bind fun _ => ih

/-! ### Both paths -/

/-- What a session is to be like, from this moment on: every execution is licensed, nothing is executed between a refusal
and the next request, and every check was answered by the Subject, at a moment between those around it. -/
structure Checked (env : Env Ref Cmd) (start : ℕ) (es : List (ShellEvent Cmd)) : Prop where
  licensed : AllLicensed env.annotationOf es
  refusals : RefusalsHold es
  answered : ∃ finish ts, Timeline (AnsweredAt env) start finish es ts

/-- **No execution without its check.**  In the interactive shell, for every input and however long it runs, and in
any sequence of requests given with a connection: every execution is licensed, after a refusal nothing is executed
before a new request begins, and what the checks say is what the Subject answered to them. -/
theorem executions_licensed (env : Env Ref Cmd) (s : ShellState) :
    (∀ fuel, Checked env s.clock ((DynamyShellFactory.run env fuel).run s).events) ∧
      ∀ exitCallback texts, Checked env s.clock ((execRequests env exitCallback texts).run s).events := by
  refine ⟨fun fuel => ?_, fun exitCallback texts => ?_⟩
  · have hlicensed := licensed_run env fuel s
    have htimed : TimedProg env (DynamyShellFactory.run env fuel) := timed_run fuel
    obtain ⟨-, ts, hts⟩ := htimed s
    exact ⟨hlicensed, hlicensed.refusalsHold, _, ts, hts⟩
  · have hlicensed := licensed_execRequests env exitCallback texts s
    have htimed : TimedProg env (execRequests env exitCallback texts) := timed_execRequests exitCallback texts
    obtain ⟨-, ts, hts⟩ := htimed s
    exact ⟨hlicensed, hlicensed.refusalsHold, _, ts, hts⟩

end Dynamy.Shell
