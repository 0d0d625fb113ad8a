import Dynamy.Shell.Dispatchers

/-!
# Dynamy.Shell.Registry — lookups in a registry that stays as it is

A list of commands with their annotations, registered as `Activator` registers them, and the framework's filters as a
parameter: of these only what `Literal` values mean is used (`FilterService.Documented`).  Each lookup of the helper
then returns the same from every state (`Prog.Returns`), and its result is a function of the registry.
-/

namespace Dynamy.Shell

open Dynamy.Java Dynamy.Lib

/-- `FrameworkUtil.createFilter`: whether the properties of a service match the filter, or `none` where the filter is
malformed and an `InvalidSyntaxException` is raised. -/
abbrev FilterService := String → Option ((String → Option String) → Bool)

/-- Without the characters that mean something in the value of a filter. -/
def Literal (s : String) : Prop := ∀ c ∈ s.toList, c ∉ ['*', '(', ')', '\\']

instance : DecidablePred Literal := fun s =>
  decidable_of_iff (s.toList.all (· ∉ ['*', '(', ')', '\\']) = true) (by simp [Literal])

/-- A filter on two literal values is well formed, and selects the services that have these values. -/
def FilterService.Documented (filters : FilterService) : Prop :=
  ∀ nameSpace name, Literal nameSpace → Literal name → ∃ p, filters (commandFilter nameSpace name) = some p ∧
    ∀ property, p property = true ↔
      property "dynamy.command.namespace" = some nameSpace ∧ property "dynamy.command.name" = some name

def DynamyCommandMeta.fullName (m : DynamyCommandMeta) : String := m.nameSpace ++ ":" ++ m.name

/-- The registered commands, in the order in which the framework lists them. -/
structure Registry (Cmd : Type) where
  commands : List Cmd
  annotationOf : Cmd → DynamyCommandMeta
  /-- what the framework itself adds to the properties of a service -/
  frameworkProperty : Cmd → String → Option String
  distinct : (commands.map fun c => (annotationOf c).fullName).Nodup

namespace Registry

variable {Cmd : Type} (R : Registry Cmd) (filters : FilterService)

def fullName (c : Cmd) : String := (R.annotationOf c).fullName

/-- The properties of a service, with the dictionary of `registerCommand`. -/
def property (c : Cmd) (key : String) : Option String :=
  if key = "dynamy.command.namespace" then some (R.annotationOf c).nameSpace
  else if key = "dynamy.command.name" then some (R.annotationOf c).name
  else R.frameworkProperty c key

/-- `bc.getServiceReferences(classOf[DynamyCommand], filter)` -/
def getServiceReferences : Option String → Except Throwable (List Cmd)
  | none => .ok R.commands
  | some filter =>
    match filters filter with
    | none => .error ⟨.invalidSyntax, none⟩
    | some p => .ok (R.commands.filter fun c => p (R.property c))

/-- The outside with this registry. -/
def world (outside : World Cmd Cmd) : World Cmd Cmd :=
  { outside with
    getServiceReferences := R.getServiceReferences filters
    getService := some }

def env (outside : World Cmd Cmd) (banner : String) : Env Cmd Cmd :=
  .still (fun c => some (R.annotationOf c)) banner (R.world filters outside)

/-- The command whose full name is `w`. -/
def find (w : String) : Option Cmd := R.commands.find? fun c => R.fullName c == w

/-- The first command that `w` is an alias of. -/
def aliased (w : String) : Option Cmd :=
  match splitChar ':' w with
  | [nameSpace, aliasName] => R.commands.find? fun c =>
    (R.annotationOf c).nameSpace == nameSpace && (R.annotationOf c).aliases.contains aliasName
  | _ => none

/-- What the lookup of `w` comes to. -/
def lookup (w : String) : Except Throwable (Option Cmd) :=
  match splitChar ':' w with
  | [nameSpace, name] => do
    let refs ← R.getServiceReferences filters (some (commandFilter nameSpace name))
    match refs with
    | [] => return none
    | [c] => return some c
    | _ => .error ⟨.runtime, some ("Found more than 1 command for " ++ commandFilter nameSpace name)⟩
  | _ => return none

/-- The name that a word is taken for. -/
def resolved (w : String) : String :=
  match R.aliased w with
  | some c => R.fullName c
  | none => w

/-! ### The helper's lookups return these -/

variable (outside : World Cmd Cmd) (banner : String)

theorem returns_ask {α : Type} (question : World Cmd Cmd → Except Throwable α) :
    Prog.Returns (ask (R.env filters outside banner) question) (question (R.world filters outside)) := fun s => by
  rw [ask, Prog.run_read_bind, Prog.run_update_bind, Prog.run_ofExcept]
  rfl

theorem returns_getServices (cs : List Cmd) :
    Prog.Returns (getServices (R.env filters outside banner) cs) (.ok (cs.map fun c => ⟨some c⟩)) := by
  induction cs with
  | nil => exact Prog.returns_pure []
  | cons c cs ih =>
    exact (R.returns_ask filters outside banner fun w => .ok (w.getService c)).bind (ih.bind (Prog.returns_pure _))

theorem returns_getCommands :
    Prog.Returns (getCommands (R.env filters outside banner)) (.ok (R.commands.map fun c => ⟨some c⟩)) :=
  (R.returns_ask filters outside banner (·.getServiceReferences none)).bind
    (R.returns_getServices filters outside banner R.commands)

theorem findAlias_eq (nameSpace aliasName : String) (cs : List Cmd) :
    findAlias (R.env filters outside banner) nameSpace aliasName (cs.map fun c => ⟨some c⟩) =
      .ok ((cs.find? fun c => (R.annotationOf c).nameSpace == nameSpace &&
        (R.annotationOf c).aliases.contains aliasName).map fun c => ⟨some c⟩) := by
  induction cs with
  | nil => rfl
  | cons c cs ih =>
    rw [List.map_cons, findAlias, List.find?_cons]
    show (if _ then _ else _) = _
    cases h : (R.annotationOf c).nameSpace == nameSpace && (R.annotationOf c).aliases.contains aliasName with
    | true => rfl
    | false => simpa using ih

theorem aliased_of_not_isPair {w : String} (h : ¬ IsPair w) : R.aliased w = none := by
  unfold aliased
  split
  · rename_i nameSpace aliasName hsplit
    exact absurd ⟨nameSpace, aliasName, hsplit⟩ h
  · rfl

theorem lookup_of_not_isPair {w : String} (h : ¬ IsPair w) : R.lookup filters w = .ok none := by
  unfold lookup
  split
  · rename_i nameSpace name hsplit
    exact absurd ⟨nameSpace, name, hsplit⟩ h
  · rfl

/-- A word has one pair of parts at most. -/
theorem forall_split_iff {w nameSpace name : String} (hsplit : splitChar ':' w = [nameSpace, name])
    {P : String → String → Prop} :
    (∀ nameSpace' name', splitChar ':' w = [nameSpace', name'] → P nameSpace' name') ↔ P nameSpace name := by
  constructor
  · intro h
    exact h nameSpace name hsplit
  · intro h nameSpace' name' hsplit'
    cases hsplit.symm.trans hsplit'
    exact h

/-- The lookup returns if the filter is well formed and selects one command or none. -/
theorem lookup_eq_ok_iff {w nameSpace name : String} (hsplit : splitChar ':' w = [nameSpace, name]) {c : Option Cmd} :
    R.lookup filters w = .ok c ↔
      ∃ p, filters (commandFilter nameSpace name) = some p ∧ (R.commands.filter fun c => p (R.property c)) = c.toList := by
  simp only [lookup, hsplit, getServiceReferences]
  cases filters (commandFilter nameSpace name) with
  | none => simp [bind, Except.bind]
  | some p =>
    simp only [Option.some.injEq, exists_eq_left']
    show (match R.commands.filter fun c => p (R.property c) with
      | [] => .ok none
      | [c] => .ok (some c)
      | _ => .error _) = Except.ok c ↔ _
    generalize (R.commands.filter fun c => p (R.property c)) = refs
    rcases refs with _ | ⟨d, _ | ⟨d', ds⟩⟩ <;> rcases c with _ | c <;> simp

theorem returns_isAlias (w : String) :
    Prog.Returns (isAlias (R.env filters outside banner) w) (.ok (R.aliased w).isSome) := by
  by_cases hw : IsPair w
  · obtain ⟨nameSpace, aliasName, hsplit⟩ := hw
    simp only [isAlias, aliased, hsplit]
    refine (R.returns_getCommands filters outside banner).bind ?_
    rw [findAlias_eq]
    refine (Prog.returns_ofExcept _).bind ?_
    rw [Option.isSome_map]
    exact Prog.returns_pure _
  · rw [isAlias_of_not_isPair _ hw, aliased_of_not_isPair R hw]
    exact Prog.returns_pure false

theorem returns_getCommandForAlias (w : String) :
    Prog.Returns (getCommandForAlias (R.env filters outside banner) w) (.ok ((R.aliased w).map R.fullName)) := by
  by_cases hw : IsPair w
  · obtain ⟨nameSpace, aliasName, hsplit⟩ := hw
    simp only [getCommandForAlias, aliased, hsplit]
    refine (R.returns_getCommands filters outside banner).bind ?_
    rw [findAlias_eq]
    refine (Prog.returns_ofExcept _).bind ?_
    cases R.commands.find? _ with
    | none => exact Prog.returns_pure none
    | some c => exact (Prog.returns_ofExcept (.ok (R.fullName c))).bind (Prog.returns_pure _)
  · have hnone : getCommandForAlias (R.env filters outside banner) w = pure none := by
      unfold getCommandForAlias
      split
      · rename_i nameSpace aliasName hsplit
        exact absurd ⟨nameSpace, aliasName, hsplit⟩ hw
      · rfl
    rw [hnone, aliased_of_not_isPair R hw]
    exact Prog.returns_pure none

theorem returns_resolveAlias (w : String) :
    Prog.Returns (resolveAlias (R.env filters outside banner) w) (.ok (some (R.resolved w))) := by
  refine (R.returns_isAlias filters outside banner w).bind ?_
  have halias := R.returns_getCommandForAlias filters outside banner w
  unfold resolved
  cases hc : R.aliased w with
  | none => exact Prog.returns_pure (some w)
  | some c =>
    rw [hc] at halias
    exact halias

theorem returns_lookupCommand (w : String) :
    Prog.Returns (lookupCommand (R.env filters outside banner) w) (R.lookup filters w) := by
  by_cases hw : IsPair w
  · obtain ⟨nameSpace, name, hsplit⟩ := hw
    simp only [lookupCommand, lookup, hsplit]
    refine (R.returns_ask filters outside banner
      (·.getServiceReferences (some (commandFilter nameSpace name)))).seq fun refs _ => ?_
    match refs with
    | [] => exact Prog.returns_pure none
    | [c] => exact R.returns_ask filters outside banner fun w => .ok (w.getService c)
    | _ :: _ :: _ => exact Prog.returns_raise _
  · rw [lookup_of_not_isPair R filters hw, lookupCommand_of_not_isPair _ hw]
    exact Prog.returns_pure none

theorem returns_getCommand (w : String) :
    Prog.Returns (getCommand (R.env filters outside banner) w) (R.lookup filters w) := by
  rw [← bind_pure (R.lookup filters w)]
  exact (R.returns_lookupCommand filters outside banner w).seq fun c _ =>
    (Prog.returns_emit _).bind (Prog.returns_pure c)

theorem returns_isCommand (w : String) :
    Prog.Returns (isCommand (R.env filters outside banner) w) (R.lookup filters w >>= fun c => .ok c.isSome) :=
  (R.returns_getCommand filters outside banner w).seq fun _ _ => Prog.returns_pure _

/-- What a dispatcher does with a name: it asks whether there is such a command, then for the command. -/
theorem returns_isCommand_bind {β : Type} {w : String} {f : Bool → ShellM Cmd β} {g : Option Cmd → Except Throwable β}
    (hf : ∀ c, R.lookup filters w = .ok c → Prog.Returns (f c.isSome) (g c)) :
    Prog.Returns (isCommand (R.env filters outside banner) w >>= f) (R.lookup filters w >>= g) := by
  have hisCommand := R.returns_isCommand filters outside banner w
  cases h : R.lookup filters w with
  | error e =>
    rw [h] at hisCommand
    exact hisCommand.bind_error
  | ok c =>
    rw [h] at hisCommand
    exact hisCommand.bind (hf c h)

theorem returns_getCommand_of_lookup {w : String} {c : Option Cmd} (h : R.lookup filters w = .ok c) :
    Prog.Returns (getCommand (R.env filters outside banner) w) (.ok c) :=
  h ▸ R.returns_getCommand filters outside banner w

/-! ### Literal values -/

/-- At most one command has the two values. -/
theorem filter_parts_eq (nameSpace name : String) :
    (R.commands.filter fun c => (R.annotationOf c).nameSpace == nameSpace && (R.annotationOf c).name == name) =
      (R.commands.find? fun c => (R.annotationOf c).nameSpace == nameSpace && (R.annotationOf c).name == name).toList := by
  have hsame : ∀ fullName ∈ (R.commands.filter fun c => (R.annotationOf c).nameSpace == nameSpace &&
      (R.annotationOf c).name == name).map R.fullName, fullName = nameSpace ++ ":" ++ name := by
    intro fullName hmem
    obtain ⟨c, hc, rfl⟩ := List.mem_map.mp hmem
    have hparts := (List.mem_filter.mp hc).2
    simp only [Bool.and_eq_true, beq_iff_eq] at hparts
    rw [fullName, DynamyCommandMeta.fullName, hparts.1, hparts.2]
  have hnodup : ((R.commands.filter fun c => (R.annotationOf c).nameSpace == nameSpace &&
      (R.annotationOf c).name == name).map R.fullName).Nodup := R.distinct.sublist (List.filter_sublist.map R.fullName)
  rw [List.eq_replicate_of_mem hsame, List.nodup_replicate, List.length_map] at hnodup
  rw [← List.head?_filter]
  match h : R.commands.filter fun c => (R.annotationOf c).nameSpace == nameSpace && (R.annotationOf c).name == name with
  | [] => rfl
  | [c] => rfl
  | c :: d :: cs =>
    rw [h] at hnodup
    exact absurd hnodup (by simp)

/-- The filter on two literal values selects the command that has them. -/
theorem getServiceReferences_literal (hfilters : filters.Documented) {nameSpace name : String} (hns : Literal nameSpace)
    (hname : Literal name) : R.getServiceReferences filters (some (commandFilter nameSpace name)) =
      .ok (R.commands.find? fun c =>
        (R.annotationOf c).nameSpace == nameSpace && (R.annotationOf c).name == name).toList := by
  obtain ⟨p, hp, hmatches⟩ := hfilters nameSpace name hns hname
  have hparts : ∀ c, p (R.property c) = ((R.annotationOf c).nameSpace == nameSpace && (R.annotationOf c).name == name) := by
    intro c
    rw [Bool.eq_iff_iff, hmatches, Bool.and_eq_true, beq_iff_eq, beq_iff_eq]
    simp [property]
  simp only [getServiceReferences, hp, hparts, filter_parts_eq]

theorem lookup_literal (hfilters : filters.Documented) {w nameSpace name : String}
    (hsplit : splitChar ':' w = [nameSpace, name]) (hns : Literal nameSpace) (hname : Literal name) :
    R.lookup filters w = .ok (R.commands.find? fun c =>
      (R.annotationOf c).nameSpace == nameSpace && (R.annotationOf c).name == name) := by
  simp only [lookup, hsplit, R.getServiceReferences_literal filters hfilters hns hname]
  cases R.commands.find? fun c => (R.annotationOf c).nameSpace == nameSpace && (R.annotationOf c).name == name <;> rfl

end Registry

end Dynamy.Shell
