import Dynamy.Commands.OsgiListCommand
import Dynamy.Commands.OsgiInstallCommand
import Dynamy.Shell.Authorisation
import Dynamy.Shell.Registry

/-!
# Dynamy.Commands.Activator — the commands of the console, and what they may do

The ten commands that the activator registers, with the annotations of their classes.  What an execution can do to the
framework is read off the commands' own models (`Performed`); the shell lets an execution happen only after the check
of the annotation.  Together: whatever is done to a bundle within a session was permitted in the request that did it
(`operations_permitted`), with the permission of the command that is for it.  Only what `osgi:install` does beside the
installation is not asked for: `osgi:install url>start` starts a bundle without `dynamy:osgi:start`
(`operations_permitted_install`).
-/

namespace Dynamy.Commands

open Dynamy.Java Dynamy.Lib Dynamy.Osgi Dynamy.Shell

/-- `commands`, in the order of the array. -/
inductive ConsoleCommand
  | list | update | start | stop | refresh | resolve | install | uninstall | restart | who
  deriving DecidableEq, Repr

namespace ConsoleCommand

/-- `command.getClass().getAnnotation(classOf[DynamyCommandMeta])` -/
def annotation : ConsoleCommand → DynamyCommandMeta
  | .list =>
    { nameSpace := "osgi", name := "list", aliases := ["ll", "lb"], perms := ["dynamy:osgi:list"],
      description := "Print the list of bundles" }
  | .update =>
    { nameSpace := "osgi", name := "update", perms := ["dynamy:osgi:update", "dynamy:osgi:install"],
      description := "Update asked bundles" }
  | .start =>
    { nameSpace := "osgi", name := "start", perms := ["dynamy:osgi:start"], description := "Start asked bundles" }
  | .stop => { nameSpace := "osgi", name := "stop", perms := ["dynamy:osgi:stop"], description := "Stop asked bundles" }
  | .refresh =>
    { nameSpace := "osgi", name := "refresh", perms := ["dynamy:osgi:refresh"], description := "Refresh asked bundles" }
  | .resolve =>
    { nameSpace := "osgi", name := "resolve", perms := ["dynamy:osgi:resolve"], description := "Resolve asked bundles" }
  | .install =>
    { nameSpace := "osgi", name := "install", perms := ["dynamy:osgi:install"], description := "Install bundles" }
  | .uninstall =>
    { nameSpace := "osgi", name := "uninstall", perms := ["dynamy:osgi:uninstall"],
      description := "Uninstall asked bundles" }
  | .restart =>
    { nameSpace := "osgi", name := "restart", perms := ["dynamy:osgi:start", "dynamy:osgi:stop"],
      description := "Restart asked bundles" }
  | .who =>
    { nameSpace := "dynamy", name := "who", perms := ["dynamy:who"], description := "Prints the logged user" }

def all : List ConsoleCommand :=
  [.list, .update, .start, .stop, .refresh, .resolve, .install, .uninstall, .restart, .who]

end ConsoleCommand

/-- `start` registers each command under the namespace and the name of its annotation. -/
def Activator.registry : Registry ConsoleCommand where
  commands := ConsoleCommand.all
  annotationOf := ConsoleCommand.annotation
  frameworkProperty _ _ := none
  distinct := by decide

def BundleCommand.toConsole : BundleCommand → ConsoleCommand
  | .start => .start
  | .stop => .stop
  | .restart => .restart
  | .update => .update
  | .uninstall => .uninstall
  | .refresh => .refresh
  | .resolve => .resolve

/-! ### What an execution does to the framework -/

inductive Operation
  | onBundle (op : BundleOp)
  /-- by `osgi:install`, which may also start what it installs and set its level -/
  | install (op : FrameworkOp)
  deriving DecidableEq, Repr

/-- The permission of the command that is for this operation; no command is for start levels. -/
def Operation.permission : Operation → Option String
  | .onBundle .start | .install (.start _) => some "dynamy:osgi:start"
  | .onBundle .stop => some "dynamy:osgi:stop"
  | .onBundle .update => some "dynamy:osgi:update"
  | .onBundle .uninstall => some "dynamy:osgi:uninstall"
  | .onBundle .refreshPackages => some "dynamy:osgi:refresh"
  | .onBundle .resolveBundles => some "dynamy:osgi:resolve"
  | .install (.installBundle _) => some "dynamy:osgi:install"
  | .install (.setStartLevel _ _) => none

/-- What `osgi:install` does beside the installation. -/
inductive Operation.Beside : Operation → Prop
  | start (location : String) : Beside (.install (.start location))
  | setStartLevel (location : String) (level : ℤ) : Beside (.install (.setStartLevel location level))

/-- This permission is for the operation, or it is the one for an installation that the operation is beside. -/
def Operation.CoveredBy (op : Operation) (perm : String) : Prop :=
  op.permission = some perm ∨ op.Beside ∧ perm = "dynamy:osgi:install"

def BundleEvent.operation {Bundle : Type} : BundleEvent Bundle → Option Operation
  | .call op _ _ => some (.onBundle op)
  | .error _ _ => none

def installOperation : InstallEvent → Option Operation
  | .call op => some (.install op)
  | .log _ _ _ => none

/-- What `command.execute(args)` may do, whatever the framework answers.  The list of bundles and the name of the user
are only read. -/
inductive Performed : ConsoleCommand → List String → List Operation → Prop
  | onBundles {Bundle : Type} (k : Console Bundle) (command : BundleCommand) (args : List String) (s : ℕ) :
      Performed command.toConsole args
        ((((command.command k).execute k args).run s).events.filterMap BundleEvent.operation)
  | install (framework : OsgiFramework) (bundleText : String → String) (selfText : String)
      (raises : ℕ → FrameworkOp → Option Throwable) (args : List String) (b : Bundles) : Performed .install args
        (((OsgiInstallCommand.execute framework bundleText selfText raises args).run b).events.filterMap
          installOperation)
  | list (args : List String) : Performed .list args []
  | who (args : List String) : Performed .who args []

theorem permission_of_operation (command : BundleCommand) {op : BundleOp} (h : op ∈ command.operations) :
    ∃ perm ∈ command.toConsole.annotation.perms, (Operation.onBundle op).permission = some perm := by
  cases command <;> simp only [BundleCommand.operations, List.mem_cons, List.not_mem_nil, or_false] at h
  case restart => rcases h with rfl | rfl <;> exact ⟨_, by decide, rfl⟩
  all_goals
    subst h
    exact ⟨_, by decide, rfl⟩

theorem coveredBy_install (op : FrameworkOp) : (Operation.install op).CoveredBy "dynamy:osgi:install" := by
  cases op with
  | installBundle location => exact .inl rfl
  | start location => exact .inr ⟨.start location, rfl⟩
  | setStartLevel location level => exact .inr ⟨.setStartLevel location level, rfl⟩

/-- What a command on bundles does is its own operation. -/
theorem mem_operations_of_event {Bundle : Type} {k : Console Bundle} {command : BundleCommand} {args : List String}
    {s : ℕ} {op : BundleOp} {b : Bundle} {raised : Option Throwable}
    (h : .call op b raised ∈ (((command.command k).execute k args).run s).events) : op ∈ command.operations := by
  cases args with
  | nil => cases h
  | cons word args =>
    obtain ⟨reports, hreports, -, hevents⟩ := emits_execute (k := k) command word args s
    rw [hevents, List.mem_flatMap] at h
    obtain ⟨p, hp, hop⟩ := h
    have hnamed : ∀ p ∈ reports, ∃ arg, Reported k command arg p := by
      clear hevents hp
      induction hreports with
      | nil =>
        intro p hp
        cases hp
      | cons hreported _ ih =>
        rintro p (_ | ⟨_, hp⟩)
        · exact ⟨_, hreported⟩
        · exact ih p hp
    obtain ⟨arg, hreported⟩ := hnamed p hp
    exact (hreported.truthful.named op b raised hop).2.2.1

/-- The annotation of a command asks for the permissions of its operations, but for those beside an installation. -/
theorem Performed.permissions {c : ConsoleCommand} {args : List String} {ops : List Operation}
    (h : Performed c args ops) {op : Operation} (hop : op ∈ ops) :
    ∃ perm ∈ c.annotation.perms, op.CoveredBy perm := by
  cases h with
  | onBundles k command args s =>
    obtain ⟨w, hw, hop⟩ := List.mem_filterMap.mp hop
    cases w with
    | call op' b raised =>
      cases hop
      obtain ⟨perm, hperm, hop⟩ := permission_of_operation command (mem_operations_of_event hw)
      exact ⟨perm, hperm, .inl hop⟩
    | error message e => cases hop
  | install =>
    obtain ⟨w, -, hop⟩ := List.mem_filterMap.mp hop
    cases w with
    | call op' =>
      cases hop
      exact ⟨_, List.mem_singleton_self _, coveredBy_install op'⟩
    | log level message e => cases hop
  | list => cases hop
  | who => cases hop

/-! ### In a session -/

variable {Ref Cmd : Type}

/-- The trace of a session: the interactive shell, for as long as it runs, or requests given with the connection. -/
inductive SessionTrace (env : Env Ref Cmd) (s : ShellState) : List (ShellEvent Cmd) → Prop
  | interactive (fuel : ℕ) : SessionTrace env s ((DynamyShellFactory.run env fuel).run s).events
  | requests (exitCallback : Bool) (texts : List String) :
      SessionTrace env s ((execRequests env exitCallback texts).run s).events

/-- An execution of a console command comes right after the licence for it. -/
theorem licence_of_execute {env : Env Ref Cmd} {console : ConsoleCommand → Cmd}
    (hconsole : ∀ c, env.annotationOf (console c) = some c.annotation) {s : ShellState} {es : List (ShellEvent Cmd)}
    (hes : SessionTrace env s es) {pre post : List (ShellEvent Cmd)} {c : ConsoleCommand} {args : List String}
    (hexecute : es = pre ++ .execute (console c) args :: post) :
    ∃ before text word c', pre = before ++ licence text word c' (console c) c.annotation := by
  have hall : AllLicensed env.annotationOf es := by
    cases hes with
    | interactive fuel => exact licensed_run env fuel s
    | requests exitCallback texts => exact licensed_execRequests env exitCallback texts s
  obtain ⟨before, text, word, c', m, hm, hpre⟩ := hall pre (console c) args post hexecute
  obtain rfl : c.annotation = m := Option.some.inj ((hconsole c).symm.trans hm)
  exact ⟨before, text, word, c', hpre⟩

/-- The checks of a licence, with the lookups before them. -/
def lookupsAndChecks (word : String) (c' c : Cmd) (m : DynamyCommandMeta) : List (ShellEvent Cmd) :=
  .found word (some c') :: .found word (some c) :: checks m

theorem not_line_mem_lookupsAndChecks {word : String} {c' c : Cmd} {m : DynamyCommandMeta} (text : Option String) :
    .line text ∉ lookupsAndChecks word c' c m := by
  simp [lookupsAndChecks, checks]

theorem isPermitted_mem_lookupsAndChecks {word : String} {c' c : Cmd} {m : DynamyCommandMeta} {perm : String}
    (h : perm ∈ m.perms) : .isPermitted perm true ∈ lookupsAndChecks word c' c m :=
  List.mem_cons_of_mem _ (List.mem_cons_of_mem _ (List.mem_append_left _ (List.mem_map.mpr ⟨perm, h, rfl⟩)))

/-- **Every operation is permitted.**  In a session with any registered commands, those of the console among them:
whatever the execution of a console command does to the framework, the permission for it (for a start or a start level
beside an installation, the one for the installation) was asked for and granted within the same request. -/
theorem operations_permitted {env : Env Ref Cmd} {console : ConsoleCommand → Cmd}
    (hconsole : ∀ c, env.annotationOf (console c) = some c.annotation) {s : ShellState} {es : List (ShellEvent Cmd)}
    (hes : SessionTrace env s es) {pre post : List (ShellEvent Cmd)} {c : ConsoleCommand} {args : List String}
    (hexecute : es = pre ++ .execute (console c) args :: post) {ops : List Operation} (hops : Performed c args ops)
    {op : Operation} (hop : op ∈ ops) : ∃ before text request perm, pre = before ++ .line text :: request ∧
      op.CoveredBy perm ∧ .isPermitted perm true ∈ request ∧ ∀ text', .line text' ∉ request := by
  obtain ⟨before, text, word, c', hpre⟩ := licence_of_execute hconsole hes hexecute
  obtain ⟨perm, hperm, hcovered⟩ := hops.permissions hop
  exact ⟨before, text, lookupsAndChecks word c' (console c) c.annotation, perm, hpre, hcovered,
    isPermitted_mem_lookupsAndChecks hperm, not_line_mem_lookupsAndChecks⟩

/-! ### One request -/

/-- `c` is the only command. -/
def only (c : ConsoleCommand) (isPermitted : ℕ → String → Except Throwable Bool) : Env Unit ConsoleCommand where
  annotationOf c := some c.annotation
  banner := ""
  world n :=
    { getServiceReferences := fun filter => .ok (if filter.isSome then [()] else [])
      getService := fun _ => some c
      isPermitted := isPermitted n
      hasAllRoles := fun _ => .ok true
      execute := fun _ _ => .ok none
      destroyed := false
      columns := none }

section Only

variable {c : ConsoleCommand} {isPermitted : ℕ → String → Except Throwable Bool} {word nameSpace name perm : String}

theorem run_resolveAlias_only (hname : splitChar ':' word = [nameSpace, name]) :
    (resolveAlias (only c isPermitted) word).run {} = ⟨.ok (some word), { clock := 1 }, []⟩ := by
  rw [resolveAlias, isAlias, hname]
  rfl

theorem run_getCommand_only (hname : splitChar ':' word = [nameSpace, name]) (s : ShellState) :
    (getCommand (only c isPermitted) word).run s =
    ⟨.ok (some c), { s with clock := s.clock + 2 }, [.found word (some c)]⟩ := by
  rw [getCommand, lookupCommand, hname]
  rfl

theorem run_permitted_only (hperms : c.annotation.perms = [perm]) (hroles : c.annotation.roles = [])
    (h : ∀ n, isPermitted n perm = .ok true) (s : ShellState) :
    (permitted (only c isPermitted) ⟨some c⟩).run s =
    ⟨.ok true, { s with clock := s.clock + 2 }, [.isPermitted perm true, .hasAllRoles [] true]⟩ := by
  have hmeta : (⟨some c⟩ : DynamyCommandHelper ConsoleCommand).getMeta (only c isPermitted) = .ok c.annotation := rfl
  have hcheck : ((only c isPermitted).world s.clock).isPermitted perm = .ok true := h s.clock
  have hcollection : (permittedCollection (only c isPermitted) [perm]).run s =
      ⟨.ok [true], { s with clock := s.clock + 1 }, [.isPermitted perm true]⟩ := by
    rw [permittedCollection, Prog.run_bind, ask, Prog.run_read_bind, Prog.run_update_bind, hcheck]
    rfl
  rw [permitted, hmeta, Prog.ofExcept_ok_bind, Prog.run_bind]
  simp only [hperms, hroles, hcollection]
  rfl

theorem run_createCommand_only {text arg : String} (hwords : splitSpaces text = [word, arg])
    (hname : splitChar ':' word = [nameSpace, name]) (hperms : c.annotation.perms = [perm])
    (hroles : c.annotation.roles = []) (h : ∀ n, isPermitted n perm = .ok true) :
    (createCommand (only c isPermitted) text).run {} =
    ⟨.ok (.executing ⟨some c⟩ [word, arg]), { clock := 7 }, [.line (some text), .found word (some c),
      .found word (some c), .isPermitted perm true, .hasAllRoles [] true]⟩ := by
  have hword : arrayAt [word, arg] 0 = .ok word := rfl
  have hline : (Prog.emit (.line (some text)) : ShellM ConsoleCommand Unit).run {} =
      ⟨.ok (), {}, [.line (some text)]⟩ := rfl
  simp [createCommand, hwords, hword, hline, Prog.run_bind, run_resolveAlias_only hname, run_getCommand_only hname,
    isCommand, run_permitted_only hperms hroles h]

/-- A request for the only command, whose permission is granted. -/
theorem events_only {text arg : String} (hwords : splitSpaces text = [word, arg])
    (hname : splitChar ':' word = [nameSpace, name]) (hperms : c.annotation.perms = [perm])
    (hroles : c.annotation.roles = []) (h : ∀ n, isPermitted n perm = .ok true) :
    ((execRequests (only c isPermitted) false [text]).run {}).events =
    [.line (some text), .found word (some c), .found word (some c), .isPermitted perm true, .hasAllRoles [] true] ++
      .execute c [word, arg] :: [.println none] := by
  rw [execRequests, Prog.run_bind, Prog.run_attempt, execRequest, Prog.run_bind,
    run_createCommand_only hwords hname hperms hroles h]
  rfl

end Only

/-- The user may install bundles and nothing else. -/
def installer : Env Unit ConsoleCommand := only .install fun _ perm => .ok (perm == "dynamy:osgi:install")

/-- What happens before a bundle is installed and started for him. -/
def asksToInstall : List (ShellEvent ConsoleCommand) :=
  [.line (some "osgi:install mvn:a>start"), .found "osgi:install" (some .install), .found "osgi:install" (some .install),
    .isPermitted "dynamy:osgi:install" true, .hasAllRoles [] true]

/-- **Who may install may start.**  The bundle is started although nobody was asked for `dynamy:osgi:start`. -/
theorem operations_permitted_install :
    ((execRequests installer false ["osgi:install mvn:a>start"]).run {}).events =
        asksToInstall ++ .execute .install ["osgi:install", "mvn:a>start"] :: [.println none] ∧
      (∃ before text request perm, asksToInstall = before ++ .line text :: request ∧
        (Operation.install (.start "mvn:a")).CoveredBy perm ∧ .isPermitted perm true ∈ request ∧
          ∀ text', .line text' ∉ request) ∧
      (Operation.install (.start "mvn:a")).permission = some "dynamy:osgi:start" ∧
        ∀ granted, .isPermitted "dynamy:osgi:start" granted ∉ asksToInstall := by
  have hconsole : ∀ c : ConsoleCommand, installer.annotationOf (id c) = some c.annotation := fun _ => rfl
  have hwords : splitSpaces "osgi:install mvn:a>start" = ["osgi:install", "mvn:a>start"] := by decide
  have hname : splitChar ':' "osgi:install" = ["osgi", "install"] := by decide
  have hevents : ((execRequests installer false ["osgi:install mvn:a>start"]).run {}).events =
      asksToInstall ++ .execute .install ["osgi:install", "mvn:a>start"] :: [.println none] :=
    events_only hwords hname rfl rfl fun _ => rfl
  have hd : unapplyBundle OsgiInstallCommand.Bundle "mvn:a>start" = some ⟨"mvn:a", some "start", none⟩ := by decide
  have hstarts : .call (.start "mvn:a") ∈ ((OsgiInstallCommand.execute .plain id "" (fun _ _ => none)
      ["osgi:install", "mvn:a>start"]).run fun _ => none).events := by
    rw [OsgiInstallCommand.execute, OsgiInstallCommand.installArgs, OsgiInstallCommand.installArg,
      OsgiInstallCommand.installMatched, hd]
    exact .tail _ (.head _)
  refine ⟨hevents, ?_, rfl, fun granted hmem => ?_⟩
  · exact operations_permitted hconsole (.requests false ["osgi:install mvn:a>start"]) hevents
      (.install .plain id "" (fun _ _ => none) ["osgi:install", "mvn:a>start"] fun _ => none)
      (List.mem_filterMap.mpr ⟨_, hstarts, rfl⟩)
  · simp [asksToInstall] at hmem

end Dynamy.Commands
