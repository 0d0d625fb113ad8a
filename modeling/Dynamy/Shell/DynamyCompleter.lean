import Dynamy.Shell.ExactLookup

/-!
# Dynamy.Shell.DynamyCompleter — completion, and what the loop would execute

`DynamyCompleter` takes the first word for the name of a command, and for an alias only if no command is called so; the
loop does it the other way round.  `choose` is what the loop decides on a word before it checks permissions
(`processLine_eq`).  `completer_agrees_iff` says for which words the two come to the same command.
-/

namespace Dynamy.Shell

open Dynamy.Java Dynamy.Lib

variable {Ref Cmd : Type}

/-- `ArgumentDelimiter.ArgumentList` -/
structure ArgumentList where
  cursorArgumentIndex : ℤ
  arguments : List String
  deriving DecidableEq, Repr

/-- `Completer.complete(buffer, cursor, candidates)`: its result, and the candidates after it. -/
abbrev Completer := String → ℤ → List String → Except Throwable (ℤ × List String)

/-- What the console and the commands bring along. -/
structure Completion (Cmd : Type) where
  /-- `WhitespaceArgumentDelimiter.delimit(buffer, cursor)` -/
  delimit : String → ℤ → ArgumentList
  /-- `new AggregateCompleter(new StringsCompleter(..), ..)` -/
  aggregate : List (List String) → Completer
  /-- `command.getCompleter` -/
  getCompleter : Cmd → Option Completer

section Completer

variable (env : Env Ref Cmd)

/-- `getCommand(fullCommand)` in `getParamCompleter`, which asks what it gets for its completer. -/
def getParamCommand (fullCommand : Option String) : ShellM Cmd Cmd := do
  let fullCommand ← Prog.ofExcept (deref fullCommand)
  let c ← getCommand env fullCommand
  Prog.ofExcept (deref c)

/-- The command whose completer is consulted for an argument after the first one. -/
def paramCommand (arguments : List String) : ShellM Cmd (Option Cmd) :=
  match arguments with
  | [] => return none
  | command :: _ => do
    if ← isCommand env command then
      let c ← getParamCommand env (some command)
      return some c
    else if ← isAlias env command then
      let fullName ← getCommandForAlias env command
      let c ← getParamCommand env fullName
      return some c
    else
      return none

/-- `complete`, with the candidates after it. -/
def complete (completion : Completion Cmd) (buffer : String) (cursor : ℤ) (candidates : List String) :
    ShellM Cmd (ℤ × List String) := do
  let list := completion.delimit buffer cursor
  if list.cursorArgumentIndex < 0 then
    return (-1, candidates)
  else if list.cursorArgumentIndex = 0 then
    let commandStrings ← findCommandStrings env
    if buffer = "" then
      return (0, candidates ++ commandStrings)
    else
      let aliasStrings ← findAliasStrings env
      Prog.ofExcept (completion.aggregate [commandStrings, aliasStrings, ["exit", "help", "clear"], [""]] buffer cursor
        candidates)
  else
    let command ← paramCommand env list.arguments
    -- neither a command nor its completer need be there
    match command.bind completion.getCompleter with
    | some paramCompleter => Prog.ofExcept (paramCompleter buffer cursor candidates)
    | none => return (-1, candidates)

/-! ### The loop's choice -/

/-- What the loop decides on a word. -/
inductive Choice (Cmd : Type)
  | exit | clear | help
  | unknown (commandString : Option String)
  | command (c : DynamyCommandHelper Cmd)

/-- The decision, up to the permission check. -/
def choose (word : String) : ShellM Cmd (Choice Cmd) :=
  if word == "exit" then return .exit
  else if word == "clear" then return .clear
  else if word == "help" then return .help
  else do
    let commandString ← resolveAlias env word
    match commandString with
    | none => return .unknown none
    | some commandString =>
      if ← isCommand env commandString then
        let command ← getCommand env commandString
        return .command ⟨command⟩
      else
        return .unknown (some commandString)

/-- What the loop does then. -/
def Choice.act (args : List String) : Choice Cmd → ShellM Cmd Unit
  | .exit => Prog.update fun s => { s with running := false }
  | .clear => do
    Prog.emit .drawLine
    Prog.emit .clearScreen
  | .help => printHelp env
  | .unknown commandString =>
    Prog.emit (.println (some ("Unknown command: " ++ commandString.getD "null")))
  | .command c => executePermitted env c args

/-- The loop decides on the first word and acts. -/
theorem processLine_eq (commandString : String) : processLine env commandString = (do
    let args := splitSpaces commandString
    let word ← Prog.ofExcept (arrayAt args 0)
    let choice ← choose env word
    choice.act env args) := by
  rw [processLine]
  refine bind_congr fun word => ?_
  simp only [choose]
  split
  · rfl
  split
  · rfl
  split
  · rfl
  rw [dispatch, bind_assoc]
  refine bind_congr fun commandString => ?_
  cases commandString with
  | none => rfl
  | some commandString =>
    dsimp only
    rw [bind_assoc]
    refine bind_congr fun found => ?_
    cases found with
    | false => rfl
    | true =>
      simp only [if_true, bind_assoc]
      rfl

end Completer

/-! ### In a registry that stays as it is -/

/-- The completer consults the command that the loop selects, and none exactly when the loop reports an unknown
command, whenever each of the two looks. -/
def Agrees (env : Env Ref Cmd) (w : String) (rest : List String) : Prop :=
  ∀ s s', (∀ c, ((paramCommand env (w :: rest)).run s).result = .ok (some c) ↔
      ((choose env w).run s').result = .ok (.command ⟨some c⟩)) ∧
    ((∀ c, ((paramCommand env (w :: rest)).run s).result ≠ .ok (some c)) ↔
      ∃ name, ((choose env w).run s').result = .ok (.unknown name))

/-- The parts of a literal word are literal. -/
theorem literal_of_split {w nameSpace name : String} (hw : Literal w) (hsplit : splitChar ':' w = [nameSpace, name]) :
    Literal nameSpace ∧ Literal name := by
  have hpart : ∀ v ∈ splitChar ':' w, Literal v := fun v hv c hc => hw c (mem_of_mem_split hv c hc)
  rw [hsplit] at hpart
  exact ⟨hpart nameSpace List.mem_cons_self, hpart name (List.mem_cons_of_mem _ List.mem_cons_self)⟩

namespace Registry

variable (R : Registry Cmd) (filters : FilterService)

/-- If `w` is an alias, then the name of the command that has it finds the same command as `w` itself does, or is
looked up without an exception where `w` finds none. -/
def NamesAgree (w : String) : Prop :=
  ∀ aliased, R.aliased w = some aliased →
    (∀ named, R.lookup filters w = .ok (some named) → R.lookup filters (R.fullName aliased) = .ok (some named)) ∧
      (R.lookup filters w = .ok none → ∃ c, R.lookup filters (R.fullName aliased) = .ok c)

/-- What the completer's search comes to. -/
def consulted (w : String) : Except Throwable (Option Cmd) := do
  match ← R.lookup filters w with
  | some c => return some c
  | none =>
    match R.aliased w with
    | some aliased => do
      let c ← R.lookup filters (R.fullName aliased)
      let c ← deref c
      return some c
    | none => return none

/-- What the loop's search comes to. -/
def chosen (w : String) : Except Throwable (Choice Cmd) := do
  match ← R.lookup filters (R.resolved w) with
  | some c => return .command ⟨some c⟩
  | none => return .unknown (some (R.resolved w))

variable (outside : World Cmd Cmd) (banner : String)

theorem returns_getParamCommand (w : String) :
    Prog.Returns (getParamCommand (R.env filters outside banner) (some w)) (R.lookup filters w >>= deref) :=
  (Prog.returns_ofExcept (deref (some w))).bind
    ((R.returns_getCommand filters outside banner w).seq fun c _ => Prog.returns_ofExcept (deref c))

theorem returns_paramCommand (w : String) (rest : List String) :
    Prog.Returns (paramCommand (R.env filters outside banner) (w :: rest)) (R.consulted filters w) := by
  refine R.returns_isCommand_bind filters outside banner fun c hc => ?_
  have hparam := R.returns_getParamCommand filters outside banner
  cases c with
  | some c =>
    have hfound := hparam w
    rw [hc] at hfound
    exact hfound.bind (Prog.returns_pure (some c))
  | none =>
    refine (R.returns_isAlias filters outside banner w).bind ?_
    have hname := R.returns_getCommandForAlias filters outside banner w
    dsimp only
    cases ha : R.aliased w with
    | none => exact Prog.returns_pure none
    | some aliased =>
      rw [ha] at hname
      refine hname.bind ?_
      dsimp only
      rw [← bind_assoc]
      exact (hparam (R.fullName aliased)).seq fun c _ => Prog.returns_pure (some c)

theorem returns_choose {w : String} (hw : w ∉ ["exit", "help", "clear"]) :
    Prog.Returns (choose (R.env filters outside banner) w) (R.chosen filters w) := by
  have hword : (w == "exit") = false ∧ (w == "clear") = false ∧ (w == "help") = false := by
    simp only [List.mem_cons, List.not_mem_nil, or_false, not_or] at hw
    exact ⟨beq_eq_false_iff_ne.mpr hw.1, beq_eq_false_iff_ne.mpr hw.2.2, beq_eq_false_iff_ne.mpr hw.2.1⟩
  rw [choose, hword.1, hword.2.1, hword.2.2]
  refine (R.returns_resolveAlias filters outside banner w).bind
    (R.returns_isCommand_bind filters outside banner fun c hc => ?_)
  cases c with
  | none => exact Prog.returns_pure _
  | some c => exact (R.returns_getCommand_of_lookup filters outside banner hc).bind (Prog.returns_pure _)

/-- A literal word is looked up without an exception. -/
theorem lookup_of_literal (hfilters : filters.Documented) {w : String} (hw : Literal w) :
    ∃ c, R.lookup filters w = .ok c := by
  by_cases hpair : IsPair w
  · obtain ⟨nameSpace, name, hsplit⟩ := hpair
    obtain ⟨hns, hname⟩ := literal_of_split hw hsplit
    exact ⟨_, R.lookup_literal filters hfilters hsplit hns hname⟩
  · exact ⟨none, R.lookup_of_not_isPair filters hpair⟩

/-- The two searches compared. -/
theorem consulted_chosen_iff {w : String} {named : Option Cmd} (hnamed : R.lookup filters w = .ok named) :
    ((∀ c, R.consulted filters w = .ok (some c) ↔ R.chosen filters w = .ok (.command ⟨some c⟩)) ∧
      ((∀ c, R.consulted filters w ≠ .ok (some c)) ↔ ∃ name, R.chosen filters w = .ok (.unknown name))) ↔
      R.NamesAgree filters w := by
  cases ha : R.aliased w with
  | none =>
    have hagree : R.NamesAgree filters w := fun aliased haliased => nomatch ha.symm.trans haliased
    cases named with
    | none => simp [consulted, chosen, resolved, hnamed, ha, hagree, bind, Except.bind, pure, Except.pure]
    | some c => simp [consulted, chosen, resolved, hnamed, ha, hagree, bind, Except.bind, pure, Except.pure]
  | some aliased =>
    have hagree : R.NamesAgree filters w ↔
        (∀ c, named = some c → R.lookup filters (R.fullName aliased) = .ok (some c)) ∧
          (named = none → ∃ c, R.lookup filters (R.fullName aliased) = .ok c) := by
      simp [NamesAgree, ha, hnamed]
    rw [hagree]
    cases hl : R.lookup filters (R.fullName aliased) with
    | error e => cases named <;> simp [consulted, chosen, resolved, hnamed, ha, hl, bind, Except.bind, pure, Except.pure]
    | ok found =>
      cases named with
      | none =>
        cases found <;> simp [consulted, chosen, resolved, hnamed, ha, hl, bind, Except.bind, pure, Except.pure, deref]
      | some c =>
        cases found with
        | none => simp [consulted, chosen, resolved, hnamed, ha, hl, bind, Except.bind, pure, Except.pure]
        | some d =>
          simpa [consulted, chosen, resolved, hnamed, ha, hl, bind, Except.bind, pure, Except.pure] using eq_comm

end Registry

/-- **Completion and execution.**  In a fixed registry, whatever its names and aliases are, and for every literal word
that is none of the builtins: an argument after the word is completed by the command that the loop selects for the
word, and by none exactly when the loop reports an unknown command, if and only if `NamesAgree`. -/
theorem completer_agrees_iff (R : Registry Cmd) {filters : FilterService} (outside : World Cmd Cmd) (banner : String)
    (hfilters : filters.Documented) {w : String} (hw : Literal w) (hbuiltin : w ∉ ["exit", "help", "clear"])
    (rest : List String) : Agrees (R.env filters outside banner) w rest ↔ R.NamesAgree filters w := by
  obtain ⟨named, hnamed⟩ := R.lookup_of_literal filters hfilters hw
  have hconsulted := R.returns_paramCommand filters outside banner w rest
  have hchosen := R.returns_choose filters outside banner hbuiltin
  rw [← R.consulted_chosen_iff filters hnamed]
  constructor
  · intro h
    have hresults := h {} {}
    rwa [hconsulted {}, hchosen {}] at hresults
  · intro h s s'
    rw [hconsulted s, hchosen s']
    exact h

theorem completer_agrees_iff_list :
    Agrees (twoCommands.env ldapFilters permitting "") "osgi:list" ["-l"] := by
  refine (completer_agrees_iff twoCommands permitting "" ldapFilters_documented (by decide) (by decide) _).mpr ?_
  intro aliased haliased
  have hnone : twoCommands.aliased "osgi:list" = none := rfl
  cases hnone.symm.trans haliased

/-- `osgi:who` is the name of one command and an alias of the other: the completer consults the first, the loop selects
the second. -/
theorem completer_not_agrees : ¬ ∀ (w : String) (rest : List String), Literal w → w ∉ ["exit", "help", "clear"] →
    Agrees (twoCommands.env ldapFilters permitting "") w rest := by
  intro h
  have hconsulted : twoCommands.consulted ldapFilters "osgi:who" = .ok (some true) := rfl
  have hchosen : twoCommands.chosen ldapFilters "osgi:who" = .ok (.command ⟨some false⟩) := rfl
  have hagree := (h "osgi:who" ["-l"] (by decide) (by decide) {} {}).1 true
  rw [Registry.returns_paramCommand twoCommands ldapFilters permitting "" "osgi:who" ["-l"] {},
    Registry.returns_choose twoCommands ldapFilters permitting "" (by decide) {}, hconsulted, hchosen] at hagree
  cases hagree.mp rfl

end Dynamy.Shell
