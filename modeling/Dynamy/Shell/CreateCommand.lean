import Dynamy.Shell.ExactLookup

/-!
# Dynamy.Shell.CreateCommand — what a request for one command can come to

`createCommand` has no handler: what its steps raise, the server gets.  In a fixed registry its result is a function of
the request, the registry and the subject (`created`), and `createCommand_answers_iff` says for which requests it
always is a `Command`.
-/

namespace Dynamy.Shell

open Dynamy.Java Dynamy.Lib

variable {Cmd : Type}

namespace Registry

variable (R : Registry Cmd) (filters : FilterService) (outside : World Cmd Cmd) (banner : String)

/-- What the permission check of a command comes to. -/
def permits (c : Cmd) : Except Throwable Bool := do
  let answers ← (R.annotationOf c).perms.mapM outside.isPermitted
  if answers.all (· == true) then outside.hasAllRoles (R.annotationOf c).roles else return false

/-- What a request comes to. -/
def created (command : String) : Except Throwable (ExecCommand Cmd) := do
  let word ← arrayAt (splitSpaces command) 0
  match ← R.lookup filters (R.resolved word) with
  | none => return .unknownCommand command
  | some c =>
    if ← R.permits outside c then return .executing ⟨some c⟩ (splitSpaces command) else return .unknownCommand command

theorem returns_permittedCollection (perms : List String) :
    Prog.Returns (permittedCollection (R.env filters outside banner) perms) (perms.mapM outside.isPermitted) := by
  induction perms with
  | nil => exact Prog.returns_pure []
  | cons p perms ih =>
    rw [List.mapM_cons]
    exact (R.returns_ask filters outside banner (·.isPermitted p)).seq fun answer _ =>
      (Prog.returns_emit _).bind (ih.seq fun rest _ => Prog.returns_pure _)

theorem returns_permitted (c : Cmd) :
    Prog.Returns (permitted (R.env filters outside banner) ⟨some c⟩) (R.permits outside c) := by
  refine (Prog.returns_ofExcept (.ok (R.annotationOf c))).bind
    ((R.returns_permittedCollection filters outside banner (R.annotationOf c).perms).seq fun answers _ => ?_)
  cases answers.all (· == true) with
  | false => exact Prog.returns_pure false
  | true =>
    rw [if_pos rfl, if_pos rfl, ← bind_pure (outside.hasAllRoles (R.annotationOf c).roles)]
    exact (R.returns_ask filters outside banner (·.hasAllRoles (R.annotationOf c).roles)).seq fun answer _ =>
      (Prog.returns_emit _).bind (Prog.returns_pure answer)

theorem returns_createCommand (command : String) :
    Prog.Returns (createCommand (R.env filters outside banner) command) (R.created filters outside command) := by
  refine (Prog.returns_emit _).bind ((Prog.returns_ofExcept (arrayAt (splitSpaces command) 0)).seq fun word _ =>
    (R.returns_resolveAlias filters outside banner word).bind
      (R.returns_isCommand_bind filters outside banner fun found hfound => ?_))
  cases found with
  | none => exact Prog.returns_pure _
  | some c =>
    refine (R.returns_getCommand_of_lookup filters outside banner hfound).bind
      ((R.returns_permitted filters outside banner c).seq fun answer _ => ?_)
    cases answer <;> exact Prog.returns_pure _

/-! ### When nothing is raised -/

theorem exists_toList_iff {l : List Cmd} : (∃ c : Option Cmd, l = c.toList) ↔ l.length ≤ 1 := by
  constructor
  · rintro ⟨c, rfl⟩
    exact Option.length_toList_le
  · intro h
    rcases l with _ | ⟨c, _ | ⟨d, l⟩⟩
    · exact ⟨none, rfl⟩
    · exact ⟨some c, rfl⟩
    · exact absurd h (by simp)

/-- A name is looked up without an exception if its filter is well formed and selects at most one command. -/
theorem lookup_ok_iff (w : String) : (∃ c, R.lookup filters w = .ok c) ↔
    ∀ nameSpace name, splitChar ':' w = [nameSpace, name] → ∃ p, filters (commandFilter nameSpace name) = some p ∧
      (R.commands.filter fun c => p (R.property c)).length ≤ 1 := by
  by_cases hw : IsPair w
  · obtain ⟨nameSpace, name, hsplit⟩ := hw
    rw [forall_split_iff hsplit]
    simp only [R.lookup_eq_ok_iff filters hsplit]
    rw [exists_comm]
    refine exists_congr fun p => ?_
    rw [exists_and_left]
    exact and_congr_right fun _ => exists_toList_iff
  · refine iff_of_true ⟨none, R.lookup_of_not_isPair filters hw⟩ fun nameSpace name hsplit => ?_
    exact absurd ⟨nameSpace, name, hsplit⟩ hw

/-- The requests that are answered. -/
structure Answerable (command : String) : Prop where
  /-- the request is empty, or not all of it is white space -/
  words : command = "" ∨ ∃ c ∈ command.toList, isRegexSpace c = false
  /-- the filter on the two parts of the name is well formed and selects at most one command -/
  filter : ∀ word nameSpace name, (splitSpaces command)[0]? = some word →
    splitChar ':' (R.resolved word) = [nameSpace, name] → ∃ p, filters (commandFilter nameSpace name) = some p ∧
      (R.commands.filter fun c => p (R.property c)).length ≤ 1
  /-- the subject's checks for the command raise nothing -/
  checks : ∀ word c, (splitSpaces command)[0]? = some word → R.lookup filters (R.resolved word) = .ok (some c) →
    ∃ answer, R.permits outside c = .ok answer

/-- The executing command for the resolved and permitted command, or an `UnknownCommand`. -/
def IsAnswer (command : String) (r : ExecCommand Cmd) : Prop :=
  r = .unknownCommand command ∨ ∃ word c, (splitSpaces command)[0]? = some word ∧
    R.lookup filters (R.resolved word) = .ok (some c) ∧ R.permits outside c = .ok true ∧
      r = .executing ⟨some c⟩ (splitSpaces command)

/-- There is a first word. -/
theorem words_iff (command : String) : (command = "" ∨ ∃ c ∈ command.toList, isRegexSpace c = false) ↔
    splitSpaces command ≠ [] := by
  rw [Ne, splitSpaces, split_eq_nil_iff, not_and_or, not_not]
  simp

theorem created_iff (command : String) :
    (∃ r, R.created filters outside command = .ok r ∧ R.IsAnswer filters outside command r) ↔
      R.Answerable filters outside command := by
  cases hword : (splitSpaces command)[0]? with
  | none =>
    -- the array has no first element
    have hnil : splitSpaces command = [] := by simpa using hword
    refine iff_of_false ?_ fun h => (words_iff command).mp h.words hnil
    rintro ⟨r, hr, -⟩
    rw [created, arrayAt_of_none hword] at hr
    cases hr
  | some word =>
    have hwords : command = "" ∨ ∃ c ∈ command.toList, isRegexSpace c = false := by
      rw [words_iff]
      intro hnil
      rw [hnil] at hword
      cases hword
    have hanswerable : R.Answerable filters outside command ↔
        (∃ c, R.lookup filters (R.resolved word) = .ok c) ∧ ∀ c, R.lookup filters (R.resolved word) = .ok (some c) →
          ∃ answer, R.permits outside c = .ok answer := by
      rw [lookup_ok_iff]
      refine ⟨fun h => ⟨fun _ _ => h.filter word _ _ hword, fun c => h.checks word c hword⟩, fun h => ⟨hwords, ?_, ?_⟩⟩
      · intro word' nameSpace name hword'
        cases hword.symm.trans hword'
        exact h.1 nameSpace name
      · intro word' c hword'
        cases hword.symm.trans hword'
        exact h.2 c
    rw [hanswerable, created, arrayAt_of_some hword]
    show (∃ r, (R.lookup filters (R.resolved word) >>= _) = .ok r ∧ _) ↔ _
    cases hlookup : R.lookup filters (R.resolved word) with
    | error e => exact iff_of_false (fun ⟨_, hr, _⟩ => nomatch hr) fun ⟨⟨_, hc⟩, _⟩ => nomatch hc
    | ok found =>
      cases found with
      | none => exact iff_of_true ⟨_, rfl, .inl rfl⟩ ⟨⟨none, rfl⟩, nofun⟩
      | some c =>
        show (∃ r, (R.permits outside c >>= _) = .ok r ∧ _) ↔ _
        cases hpermits : R.permits outside c with
        | error e =>
          refine iff_of_false (fun ⟨_, hr, _⟩ => nomatch hr) fun ⟨_, hchecks⟩ => ?_
          obtain ⟨answer, hanswer⟩ := hchecks c rfl
          cases hpermits.symm.trans hanswer
        | ok answer =>
          refine iff_of_true ?_ ⟨⟨some c, rfl⟩, fun c' hc' => ?_⟩
          · cases answer with
            | false => exact ⟨_, rfl, .inl rfl⟩
            | true => exact ⟨_, rfl, .inr ⟨word, c, hword, hlookup, hpermits, rfl⟩⟩
          · cases hc'
            exact ⟨answer, hpermits⟩

end Registry

/-- **A request for one command.**  For every string, every fixed registry, every subject and every behaviour of the
filters, and from every state: `createCommand` raises nothing and returns the `Command` that it should, if and only if
the request is `Answerable`. -/
theorem createCommand_answers_iff (R : Registry Cmd) (filters : FilterService) (outside : World Cmd Cmd)
    (banner command : String) (s : ShellState) :
    (∃ r, ((createCommand (R.env filters outside banner) command).run s).result = .ok r ∧
      R.IsAnswer filters outside command r) ↔ R.Answerable filters outside command := by
  rw [R.returns_createCommand filters outside banner command s]
  exact R.created_iff filters outside command

/-- A blank has no first word. -/
theorem createCommand_not_answers : ¬ ∀ (command : String) (s : ShellState),
    ∃ r, ((createCommand (twoCommands.env ldapFilters permitting "") command).run s).result = .ok r ∧
      twoCommands.IsAnswer ldapFilters permitting command r := by
  intro h
  obtain ⟨r, hr, -⟩ := h " " {}
  rw [Registry.returns_createCommand twoCommands ldapFilters permitting "" " " {},
    show twoCommands.created ldapFilters permitting " " = .error ⟨.arrayIndexOutOfBounds, none⟩ from rfl] at hr
  cases hr

end Dynamy.Shell
