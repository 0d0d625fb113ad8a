import Dynamy.Shell.ReadLoop

/-!
# Dynamy.Shell.Dispatchers — the two dispatchers execute the same

The interactive loop trims a line before it cuts it into words, `createCommand` does not; after that the two do the
same.  In an outside that stays as it is, the executions of both are compared step by step (`Prog.Alike`), and they
are equal for every registry and subject exactly where the two ways of cutting give the same words, or no first word
could be the name of a command.
-/

namespace Dynamy.Shell

open Dynamy.Java Dynamy.Lib

variable {Ref Cmd : Type}

/-! ### Executions -/

def ShellEvent.asExecution : ShellEvent Cmd → Option (Cmd × List String)
  | .execute command args => some (command, args)
  | _ => none

/-- The executions in a run, each with its arguments. -/
abbrev executions {α : Type} (p : ShellM Cmd α) (s : ShellState) : List (Cmd × List String) :=
  Prog.observed ShellEvent.asExecution p s

theorem asExecution_eq_none {w : ShellEvent Cmd} (h : ¬ w.isExecute) : w.asExecution = none := by
  cases w with
  | execute command args => exact absurd trivial h
  | _ => rfl

theorem QuietProg.unseen {α : Type} {p : ShellM Cmd α} (h : QuietProg p) :
    Prog.Always (fun w => w.asExecution = none) p :=
  Prog.Always.mono h fun _ => asExecution_eq_none

theorem QuietProg.executions_eq {α : Type} {p : ShellM Cmd α} (h : QuietProg p) (s : ShellState) :
    executions p s = [] :=
  Prog.observed_of_always (QuietProg.unseen h) s

/-! ### An outside that stays as it is -/

/-- The same world at every moment. -/
def Env.still (annotationOf : Cmd → Option DynamyCommandMeta) (banner : String) (w : World Ref Cmd) : Env Ref Cmd where
  annotationOf := annotationOf
  banner := banner
  world _ := w

section Still

variable (annotationOf : Cmd → Option DynamyCommandMeta) (banner : String) (w : World Ref Cmd)

theorem uniform_ask {α : Type} (question : World Ref Cmd → Except Throwable α) :
    Prog.Uniform (ask (.still annotationOf banner w) question) := by
  intro s s'
  have hrun : ∀ s : ShellState, (ask (.still annotationOf banner w) question).run s =
      ⟨question w, { s with clock := s.clock + 1 }, []⟩ := by
    intro s
    rw [ask, Prog.run_read_bind, Prog.run_update_bind, Prog.run_ofExcept]
    rfl
  rw [hrun, hrun]
  exact ⟨rfl, rfl⟩

theorem uniform_getServices (refs : List Ref) : Prog.Uniform (getServices (.still annotationOf banner w) refs) := by
  induction refs with
  | nil => exact Prog.uniform_pure _
  | cons ref refs ih =>
    exact (uniform_ask annotationOf banner w _).bind fun _ => ih.bind fun _ => Prog.uniform_pure _

theorem uniform_getCommands : Prog.Uniform (getCommands (.still annotationOf banner w)) :=
  (uniform_ask annotationOf banner w _).bind fun _ => uniform_getServices annotationOf banner w _

theorem uniform_resolveAlias (word : String) : Prog.Uniform (resolveAlias (.still annotationOf banner w) word) := by
  have halias : Prog.Uniform (isAlias (.still annotationOf banner w) word) := by
    unfold isAlias
    split
    · exact (uniform_getCommands annotationOf banner w).bind fun _ => (Prog.uniform_ofExcept _).bind fun _ =>
        Prog.uniform_pure _
    · exact Prog.uniform_pure _
  refine halias.bind fun b => ?_
  cases b with
  | false => exact Prog.uniform_pure _
  | true =>
    rw [if_pos rfl, getCommandForAlias]
    split
    · refine (uniform_getCommands annotationOf banner w).bind fun _ => (Prog.uniform_ofExcept _).bind fun c => ?_
      cases c with
      | none => exact Prog.uniform_pure _
      | some c => exact (Prog.uniform_ofExcept _).bind fun _ => Prog.uniform_pure _
    · exact Prog.uniform_pure _

theorem uniform_getCommand (fullName : String) :
    Prog.Uniform (getCommand (.still annotationOf banner w) fullName) := by
  have hlookup : Prog.Uniform (lookupCommand (.still annotationOf banner w) fullName) := by
    unfold lookupCommand
    split
    · refine (uniform_ask annotationOf banner w _).bind fun refs => ?_
      split
      · exact Prog.uniform_pure _
      · exact uniform_ask annotationOf banner w _
      · exact Prog.uniform_raise _
    · exact Prog.uniform_pure _
  exact hlookup.bind fun _ => (Prog.uniform_emit _).bind fun _ => Prog.uniform_pure _

theorem uniform_isCommand (word : String) : Prog.Uniform (isCommand (.still annotationOf banner w) word) :=
  (uniform_getCommand annotationOf banner w word).bind fun _ => Prog.uniform_pure _

theorem uniform_permitted (c : DynamyCommandHelper Cmd) :
    Prog.Uniform (permitted (.still annotationOf banner w) c) := by
  have hperms : ∀ ps, Prog.Uniform (permittedCollection (.still annotationOf banner w) ps) := by
    intro ps
    induction ps with
    | nil => exact Prog.uniform_pure _
    | cons p ps ih =>
      exact (uniform_ask annotationOf banner w _).bind fun _ => (Prog.uniform_emit _).bind fun _ =>
        ih.bind fun _ => Prog.uniform_pure _
  refine (Prog.uniform_ofExcept _).bind fun m => (hperms _).bind fun answers => ?_
  split
  · exact (uniform_ask annotationOf banner w _).bind fun _ => (Prog.uniform_emit _).bind fun _ => Prog.uniform_pure _
  · exact Prog.uniform_pure _

/-! ### Both dispatchers on the same words -/

/-- What `createCommand` and `start` do with a word. -/
def startWord (env : Env Ref Cmd) (exitCallback : Bool) (line : String) (args : List String) (word : String) :
    ShellM Cmd Unit := do
  let commandString ← resolveAlias env word
  match commandString with
  | none => (ExecCommand.unknownCommand line).start env exitCallback
  | some commandString =>
    if ← isCommand env commandString then
      let command ← getCommand env commandString
      if ← permitted env ⟨command⟩ then
        (ExecCommand.executing ⟨command⟩ args).start env exitCallback
      else
        (ExecCommand.unknownCommand line).start env exitCallback
    else
      (ExecCommand.unknownCommand line).start env exitCallback

theorem execRequest_eq (env : Env Ref Cmd) (exitCallback : Bool) (line : String) :
    execRequest env exitCallback line = (do
      Prog.emit (.line (some line))
      let word ← Prog.ofExcept (arrayAt (splitSpaces line) 0)
      startWord env exitCallback line (splitSpaces line) word) := by
  simp only [execRequest, createCommand, startWord, bind_assoc]
  refine bind_congr fun _ => bind_congr fun word => bind_congr fun commandString => ?_
  cases commandString with
  | none => rfl
  | some commandString =>
    dsimp only
    rw [bind_assoc]
    refine bind_congr fun found => ?_
    cases found with
    | false => rfl
    | true =>
      simp only [if_true, bind_assoc]
      refine bind_congr fun command => bind_congr fun answer => ?_
      cases answer <;> rfl

/-- Once the check has succeeded, both execute the command, and what they do around it is not an execution. -/
theorem alike_execute (c : DynamyCommandHelper Cmd) (exitCallback : Bool) (args : List String) :
    Prog.Alike ShellEvent.asExecution
      (do
        let data ← c.execute (.still annotationOf banner w) args
        match data with
        | some text => Prog.emit (.println (some text))
        | none => return)
      ((ExecCommand.executing c args).start (.still annotationOf banner w) exitCallback) := by
  have hexecute : Prog.Uniform (c.execute (.still annotationOf banner w) args) :=
    (Prog.uniform_ofExcept _).bind fun _ => (Prog.uniform_emit _).bind fun _ => uniform_ask annotationOf banner w _
  have hprint : ∀ data : Option String, QuietProg (match data with
      | some text => Prog.emit (.println (some text))
      | none => pure () : ShellM Cmd Unit) := by
    intro data
    cases data with
    | none => exact (Prog.silent_pure _).always
    | some text => exact quiet_println _
  intro s s'
  rw [ExecCommand.start, Prog.observed_attempt_of_always fun e => ?_,
    Prog.observed_bind_of_always fun data => (hprint data).unseen, Prog.observed_bind_of_always fun data => ?_]
  · rw [Prog.observed, Prog.observed, (hexecute s s').2]
  · exact QuietProg.unseen ((quiet_println data).bind fun _ => quiet_onExit exitCallback _ _)
  · exact QuietProg.unseen ((Prog.always_emit (by exact id)).bind fun _ => quiet_onExit exitCallback _ _)

/-- **The same words, the same executions.** -/
theorem alike_dispatch (exitCallback : Bool) (line : String) (args : List String) (word : String) :
    Prog.Alike ShellEvent.asExecution (dispatch (.still annotationOf banner w) args word)
      (startWord (.still annotationOf banner w) exitCallback line args word) := by
  have hunknown : ∀ text : Option String, Prog.Alike ShellEvent.asExecution (Prog.emit (.println text) : ShellM Cmd _)
      ((ExecCommand.unknownCommand line).start (.still annotationOf banner w) exitCallback) := by
    intro text s s'
    exact (QuietProg.executions_eq (quiet_println text) s).trans
      (QuietProg.executions_eq (emits_start_unknown _ exitCallback line) s').symm
  refine Prog.Alike.bind (uniform_resolveAlias annotationOf banner w word) fun commandString => ?_
  cases commandString with
  | none => exact hunknown _
  | some commandString =>
    refine Prog.Alike.bind (uniform_isCommand annotationOf banner w commandString) fun found => ?_
    cases found with
    | false => exact hunknown _
    | true =>
      refine Prog.Alike.bind (uniform_getCommand annotationOf banner w commandString) fun command => ?_
      refine Prog.Alike.bind (uniform_permitted annotationOf banner w ⟨command⟩) fun answer => ?_
      cases answer with
      | false => exact hunknown _
      | true => exact alike_execute annotationOf banner w ⟨command⟩ exitCallback args

end Still

/-! ### Words that name no command -/

/-- The word splits at colons into exactly two parts, as the full name of a command does. -/
def IsPair (word : String) : Prop := ∃ nameSpace name, splitChar ':' word = [nameSpace, name]

/-- The first word could name a command. -/
def NamesCommand (args : List String) : Prop := ∃ word, args[0]? = some word ∧ IsPair word

section NoPair

variable (env : Env Ref Cmd)

theorem isAlias_of_not_isPair {word : String} (h : ¬ IsPair word) : isAlias env word = pure false := by
  unfold isAlias
  split
  · rename_i nameSpace aliasName hsplit
    exact absurd ⟨nameSpace, aliasName, hsplit⟩ h
  · rfl

theorem lookupCommand_of_not_isPair {word : String} (h : ¬ IsPair word) : lookupCommand env word = pure none := by
  unfold lookupCommand
  split
  · rename_i nameSpace name hsplit
    exact absurd ⟨nameSpace, name, hsplit⟩ h
  · rfl

theorem resolveAlias_of_not_isPair {word : String} (h : ¬ IsPair word) :
    resolveAlias env word = pure (some word) := by
  rw [resolveAlias, isAlias_of_not_isPair env h, pure_bind]
  rfl

theorem isCommand_of_not_isPair {word : String} (h : ¬ IsPair word) :
    isCommand env word = (do Prog.emit (.found word none); return false) := by
  rw [isCommand, getCommand, lookupCommand_of_not_isPair env h, pure_bind, bind_assoc]
  rfl

theorem quiet_dispatch_of_not_isPair {word : String} (h : ¬ IsPair word) (args : List String) :
    QuietProg (dispatch env args word) := by
  rw [dispatch, resolveAlias_of_not_isPair env h, pure_bind]
  dsimp only
  rw [isCommand_of_not_isPair env h, bind_assoc]
  exact (Prog.always_emit (by exact id)).bind fun _ => quiet_println _

theorem quiet_startWord_of_not_isPair {word : String} (h : ¬ IsPair word) (exitCallback : Bool) (line : String)
    (args : List String) : QuietProg (startWord env exitCallback line args word) := by
  rw [startWord, resolveAlias_of_not_isPair env h, pure_bind]
  dsimp only
  rw [isCommand_of_not_isPair env h, bind_assoc]
  exact (Prog.always_emit (by exact id)).bind fun _ => emits_start_unknown env exitCallback line

theorem not_isPair_builtin : ¬ IsPair "exit" ∧ ¬ IsPair "clear" ∧ ¬ IsPair "help" := by
  have hexit : splitChar ':' "exit" = ["exit"] := by decide
  have hclear : splitChar ':' "clear" = ["clear"] := by decide
  have hhelp : splitChar ':' "help" = ["help"] := by decide
  simp [IsPair, hexit, hclear, hhelp]

/-- Without the name of a command in front the loop executes nothing. -/
theorem quiet_processLine_of_not_namesCommand {commandString : String}
    (h : ¬ NamesCommand (splitSpaces commandString)) : QuietProg (processLine env commandString) := by
  rw [processLine]
  cases hword : (splitSpaces commandString)[0]? with
  | none =>
    rw [arrayAt_of_none hword, Prog.ofExcept_error_bind]
    exact (Prog.silent_raise _).always
  | some word =>
    have hnot : ¬ IsPair word := fun hp => h ⟨word, hword, hp⟩
    rw [arrayAt_of_some hword, Prog.ofExcept_ok_bind]
    split_ifs
    · exact (Prog.silent_update _).always
    · exact (Prog.always_emit (by exact id)).bind fun _ => Prog.always_emit (by exact id)
    · exact quiet_printHelp env
    · exact quiet_dispatch_of_not_isPair env hnot _

theorem processLine_of_isPair {commandString word : String} (hword : (splitSpaces commandString)[0]? = some word)
    (h : IsPair word) : processLine env commandString = dispatch env (splitSpaces commandString) word := by
  obtain ⟨hexit, hclear, hhelp⟩ := not_isPair_builtin
  have hne : ∀ builtin : String, ¬ IsPair builtin → ¬ (word == builtin) = true := by
    intro builtin hnot heq
    exact hnot (beq_iff_eq.mp heq ▸ h)
  rw [processLine, arrayAt_of_some hword, Prog.ofExcept_ok_bind, if_neg (hne _ hexit), if_neg (hne _ hclear),
    if_neg (hne _ hhelp)]

/-! ### Both dispatchers on a line -/

/-- The loop, given a line, executes what the processing of the trimmed line executes. -/
theorem executions_loopBody {s : ShellState} {line : String} (hline : s.input.head? = some line) :
    executions (loopBody env) s = executions (processLine env (trim line)) { s with input := s.input.tail } := by
  have hquiet : ∀ e : Throwable, QuietProg (Prog.emit (.printStackTrace e) : ShellM Cmd Unit) :=
    fun _ => Prog.always_emit (by exact id)
  rw [loopBody_eq, executions, Prog.observed_attempt_of_always fun e => QuietProg.unseen (hquiet e), Prog.observed,
    run_lineBody, hline, deref_some, Prog.run_ok_bind]
  dsimp only
  rw [List.filterMap_cons]
  dsimp only [ShellEvent.asExecution]
  split_ifs with hlength
  · rfl
  · -- a blank line: nothing is done, and an empty word would name nothing
    have hempty : trim line = "" := by
      rw [← String.length_eq_zero_iff]
      omega
    have hnot : ¬ NamesCommand (splitSpaces "") := by
      rintro ⟨word, hword, hpair⟩
      have hblank : (splitSpaces "")[0]? = some "" := by decide
      have hsplit : splitChar ':' "" = [""] := by decide
      obtain rfl : "" = word := Option.some.inj (hblank.symm.trans hword)
      simp [IsPair, hsplit] at hpair
    rw [hempty, QuietProg.executions_eq (quiet_processLine_of_not_namesCommand env hnot)]
    rfl

/-- `createCommand` and `start`, given a line, execute what comes after its first word. -/
theorem executions_execRequest (exitCallback : Bool) (line : String) (s : ShellState) :
    executions (execRequest env exitCallback line) s =
      match (splitSpaces line)[0]? with
      | some word => executions (startWord env exitCallback line (splitSpaces line) word) s
      | none => [] := by
  rw [execRequest_eq, executions, Prog.observed, Prog.run_emit_bind]
  dsimp only
  rw [List.filterMap_cons]
  dsimp only [ShellEvent.asExecution]
  cases hword : (splitSpaces line)[0]? with
  | none =>
    rw [arrayAt_of_none hword, Prog.ofExcept_error_bind]
    rfl
  | some word =>
    rw [arrayAt_of_some hword, Prog.ofExcept_ok_bind]
    rfl

theorem executions_loopBody_nil {s : ShellState} {line : String} (hline : s.input.head? = some line)
    (h : ¬ NamesCommand (splitSpaces (trim line))) : executions (loopBody env) s = [] := by
  rw [executions_loopBody env hline]
  exact QuietProg.executions_eq (quiet_processLine_of_not_namesCommand env h) _

theorem executions_execRequest_nil {line : String} (h : ¬ NamesCommand (splitSpaces line)) (exitCallback : Bool)
    (s : ShellState) : executions (execRequest env exitCallback line) s = [] := by
  rw [executions_execRequest]
  cases hword : (splitSpaces line)[0]? with
  | none => rfl
  | some word =>
    have hnot : ¬ IsPair word := fun hp => h ⟨word, hword, hp⟩
    exact QuietProg.executions_eq (quiet_startWord_of_not_isPair env hnot exitCallback line _) s

theorem executions_loopBody_dispatch {s : ShellState} {line word : String} (hline : s.input.head? = some line)
    (hword : (splitSpaces (trim line))[0]? = some word) (h : IsPair word) : executions (loopBody env) s =
      executions (dispatch env (splitSpaces (trim line)) word) { s with input := s.input.tail } := by
  rw [executions_loopBody env hline, processLine_of_isPair env hword h]

end NoPair

/-- Trimming does not change the words of the line, or neither way of cutting it puts the name of a command first. -/
def SameWords (line : String) : Prop :=
  splitSpaces (trim line) = splitSpaces line ∨
    ¬ NamesCommand (splitSpaces (trim line)) ∧ ¬ NamesCommand (splitSpaces line)

/-- The executions of the loop on the next line of its input, and of a request with the same line, in an outside that
stays as it is. -/
def SameExecutions (line : String) : Prop :=
  ∀ (Ref Cmd : Type) (annotationOf : Cmd → Option DynamyCommandMeta) (banner : String) (w : World Ref Cmd)
    (exitCallback : Bool) (s s' : ShellState), s.input.head? = some line →
      executions (loopBody (.still annotationOf banner w)) s =
        executions (execRequest (.still annotationOf banner w) exitCallback line) s'

/-! ### A registry that finds a command for every name -/

/-- Every name finds the one command, which anyone may execute. -/
def obligingEnv : Env Unit Unit :=
  .still (fun _ => some { nameSpace := "", name := "" }) ""
    { getServiceReferences := fun filter => .ok (if filter.isSome then [()] else [])
      getService := fun _ => some ()
      isPermitted := fun _ => .ok true
      hasAllRoles := fun _ => .ok true
      execute := fun _ _ => .ok none
      destroyed := false
      columns := none }

theorem executions_dispatch_oblige {word : String} (h : IsPair word) (args : List String) (s : ShellState) :
    executions (dispatch obligingEnv args word) s = [((), args)] := by
  obtain ⟨nameSpace, name, hsplit⟩ := h
  have halias : ∀ s, (isAlias obligingEnv word).run s = ⟨.ok false, { s with clock := s.clock + 1 }, []⟩ := by
    intro s
    rw [isAlias, hsplit]
    rfl
  have hget : ∀ s, (getCommand obligingEnv word).run s =
      ⟨.ok (some ()), { s with clock := s.clock + 2 }, [.found word (some ())]⟩ := by
    intro s
    rw [getCommand, lookupCommand, hsplit]
    rfl
  have hresolve : ∀ s, (resolveAlias obligingEnv word).run s =
      ⟨.ok (some word), { s with clock := s.clock + 1 }, []⟩ := by
    intro s
    rw [resolveAlias, Prog.run_bind_of_ok (halias s)]
    rfl
  have hisCommand : ∀ s, (isCommand obligingEnv word).run s =
      ⟨.ok true, { s with clock := s.clock + 2 }, [.found word (some ())]⟩ := by
    intro s
    rw [isCommand, Prog.run_bind, hget]
    rfl
  rw [executions, Prog.observed, dispatch, Prog.run_bind_of_ok (hresolve s)]
  dsimp only
  rw [Prog.run_bind, hisCommand]
  dsimp only
  rw [if_pos rfl, Prog.run_bind, hget]
  rfl

theorem executions_loopBody_oblige {s : ShellState} {line : String} (hline : s.input.head? = some line)
    (h : NamesCommand (splitSpaces (trim line))) :
    executions (loopBody obligingEnv) s = [((), splitSpaces (trim line))] := by
  obtain ⟨word, hword, hpair⟩ := h
  rw [executions_loopBody_dispatch obligingEnv hline hword hpair]
  exact executions_dispatch_oblige hpair _ _

theorem executions_execRequest_oblige {line : String} (h : NamesCommand (splitSpaces line)) (exitCallback : Bool)
    (s : ShellState) : executions (execRequest obligingEnv exitCallback line) s = [((), splitSpaces line)] := by
  obtain ⟨word, hword, hpair⟩ := h
  have halike : executions (dispatch obligingEnv (splitSpaces line) word) s =
      executions (startWord obligingEnv exitCallback line (splitSpaces line) word) s :=
    alike_dispatch _ _ _ exitCallback line _ word s s
  rw [executions_execRequest, hword]
  dsimp only
  rw [← halike]
  exact executions_dispatch_oblige hpair _ _

/-- **The two dispatchers execute the same**, for every registry and every subject, exactly where a line has the same
words with and without its surrounding white space, or names no command either way. -/
theorem sameExecutions_iff (line : String) : SameExecutions line ↔ SameWords line := by
  constructor
  · intro h
    have hsame : executions (loopBody obligingEnv) { input := [line] } =
        executions (execRequest obligingEnv false line) {} :=
      h Unit Unit _ _ _ false { input := [line] } {} rfl
    by_cases hloop : NamesCommand (splitSpaces (trim line))
    · rw [executions_loopBody_oblige rfl hloop] at hsame
      by_cases hrequest : NamesCommand (splitSpaces line)
      · rw [executions_execRequest_oblige hrequest] at hsame
        exact .inl (by simpa using hsame)
      · rw [executions_execRequest_nil obligingEnv hrequest] at hsame
        cases hsame
    · refine .inr ⟨hloop, fun hrequest => ?_⟩
      rw [executions_loopBody_nil obligingEnv rfl hloop, executions_execRequest_oblige hrequest] at hsame
      cases hsame
  · rintro h Ref Cmd annotationOf banner w exitCallback s s' hline
    by_cases hnames : NamesCommand (splitSpaces (trim line))
    · have hwords : splitSpaces (trim line) = splitSpaces line := h.resolve_right fun hno => hno.1 hnames
      obtain ⟨word, hword, hpair⟩ := hnames
      rw [executions_loopBody_dispatch _ hline hword hpair, executions_execRequest, ← hwords, hword]
      exact alike_dispatch annotationOf banner w exitCallback line _ word _ s'
    · have hnames' : ¬ NamesCommand (splitSpaces line) := by
        rcases h with h | h
        · rwa [← h]
        · exact h.2
      rw [executions_loopBody_nil _ hline hnames, executions_execRequest_nil _ hnames']

/-- With a blank in front of it the loop finds a command and the request does not. -/
theorem not_sameExecutions :
    ¬ ∀ line : String, trim line ≠ "" →
      (∀ word ∈ ["exit", "clear", "help"], (splitSpaces (trim line))[0]? ≠ some word) →
      SameExecutions line := by
  intro h
  rcases (sameExecutions_iff " osgi:list").mp (h " osgi:list" (by decide) (by decide)) with hwords | ⟨hno, -⟩
  · exact absurd hwords (by decide)
  · exact hno ⟨"osgi:list", by decide, "osgi", "list", by decide⟩

end Dynamy.Shell
