import Dynamy.Lib.LdapFilter
import Dynamy.Shell.Registry
import Mathlib.Data.List.Find

/-!
# Dynamy.Shell.ExactLookup — a typed word and the command with that name

`getCommand` cuts the word at its colons and puts the two parts into a filter as they are.  `getCommand_exact_iff` says
for which words the lookup is the exact one; `ldapFilters` is an implementation of the filters, which has the
behaviour that the results assume.
-/

namespace Dynamy.Shell

open Dynamy.Java Dynamy.Lib

/-- A namespace or name without colons and without the characters that mean something in a filter. -/
structure PlainName (s : String) : Prop where
  nonempty : s ≠ ""
  noColon : ':' ∉ s.toList
  literal : Literal s

theorem fullName_toList (m : DynamyCommandMeta) : m.fullName.toList = m.nameSpace.toList ++ ':' :: m.name.toList := by
  simp [DynamyCommandMeta.fullName]

/-- A full name splits into its parts. -/
theorem splitChar_fullName {m : DynamyCommandMeta} (hns : ':' ∉ m.nameSpace.toList) (hname : PlainName m.name) :
    splitChar ':' m.fullName = [m.nameSpace, m.name] := by
  have hnone : ∀ s : String, ':' ∉ s.toList → ∀ c ∈ s.toList, (c == ':') = false := fun s hs c hc =>
    beq_eq_false_iff_ne.mpr fun heq => hs (heq ▸ hc)
  have hlast : m.name.toList ≠ [] := fun h => hname.nonempty (String.toList_eq_nil_iff.mp h)
  have hany : (m.nameSpace.toList ++ ':' :: m.name.toList).any (· == ':') = true := by simp
  have hkeep : ([m.nameSpace.toList, m.name.toList] : List (List Char)).rdropWhile (·.isEmpty) =
      [m.nameSpace.toList, m.name.toList] :=
    List.rdropWhile_concat_neg (·.isEmpty) [m.nameSpace.toList] m.name.toList (by simpa using hlast)
  rw [splitChar, split, fullName_toList, if_pos hany, pieces_word (hnone _ hns) rfl, pieces_single (hnone _ hname.noColon),
    hkeep]
  simp

namespace Registry

variable {Cmd : Type} (R : Registry Cmd) (filters : FilterService)

/-- The lookup of `w` can only be the exact one: `w` is the two parts with one colon between them and both are literal,
or the filter on them is well formed and selects no command. -/
def LooksUpExactly (w : String) : Prop :=
  ∀ nameSpace name, splitChar ':' w = [nameSpace, name] →
    (Literal nameSpace ∧ Literal name ∧ w = nameSpace ++ ":" ++ name) ∨
      ∃ p, filters (commandFilter nameSpace name) = some p ∧ ∀ c ∈ R.commands, p (R.property c) = false

variable {R filters}

/-- The lookup finds nothing if the filter is well formed and selects no command. -/
theorem lookup_eq_none_iff {w nameSpace name : String} (hsplit : splitChar ':' w = [nameSpace, name]) :
    R.lookup filters w = .ok none ↔
      ∃ p, filters (commandFilter nameSpace name) = some p ∧ ∀ c ∈ R.commands, p (R.property c) = false := by
  rw [R.lookup_eq_ok_iff filters hsplit]
  refine exists_congr fun p => and_congr_right fun _ => ?_
  rw [Option.toList_none, List.filter_eq_nil_iff]
  exact forall₂_congr fun c _ => Bool.not_eq_true _ ▸ Iff.rfl

theorem find_eq_some {w : String} {c : Cmd} (h : R.find w = some c) : c ∈ R.commands ∧ R.fullName c = w :=
  ⟨List.mem_of_find?_eq_some h, by simpa using List.find?_some h⟩

variable (hplain : ∀ c ∈ R.commands, PlainName (R.annotationOf c).nameSpace ∧ PlainName (R.annotationOf c).name)

include hplain

/-- A command of that name has the two parts as its values. -/
theorem parts_of_find {w nameSpace name : String} {c : Cmd} (h : R.find w = some c)
    (hsplit : splitChar ':' w = [nameSpace, name]) :
    (R.annotationOf c).nameSpace = nameSpace ∧ (R.annotationOf c).name = name ∧ Literal nameSpace ∧ Literal name ∧
      w = nameSpace ++ ":" ++ name := by
  obtain ⟨hmem, rfl⟩ := find_eq_some h
  obtain ⟨hns, hname⟩ := hplain c hmem
  have hparts := (splitChar_fullName hns.noColon hname).symm.trans hsplit
  simp only [List.cons.injEq, and_true] at hparts
  obtain ⟨rfl, rfl⟩ := hparts
  exact ⟨rfl, rfl, hns.literal, hname.literal, rfl⟩

/-- A word that is no pair is nobody's name. -/
theorem find_of_not_isPair {w : String} (h : ¬ IsPair w) : R.find w = none := by
  rw [Option.eq_none_iff_forall_not_mem]
  intro c hc
  obtain ⟨hmem, rfl⟩ := find_eq_some hc
  obtain ⟨hns, hname⟩ := hplain c hmem
  exact h ⟨_, _, splitChar_fullName hns.noColon hname⟩

theorem lookup_exact_iff (hfilters : filters.Documented) (w : String) :
    R.lookup filters w = .ok (R.find w) ↔ R.LooksUpExactly filters w := by
  by_cases hw : IsPair w
  · obtain ⟨nameSpace, name, hsplit⟩ := hw
    have hexact : R.LooksUpExactly filters w ↔ (Literal nameSpace ∧ Literal name ∧ w = nameSpace ++ ":" ++ name) ∨
        ∃ p, filters (commandFilter nameSpace name) = some p ∧ ∀ c ∈ R.commands, p (R.property c) = false :=
      forall_split_iff hsplit
    rw [hexact]
    by_cases hliteral : Literal nameSpace ∧ Literal name ∧ w = nameSpace ++ ":" ++ name
    · refine iff_of_true ?_ (.inl hliteral)
      obtain ⟨hns, hname, hw⟩ := hliteral
      rw [R.lookup_literal filters hfilters hsplit hns hname, find]
      refine congrArg _ (List.find?_congr fun c hc => ?_)
      rw [Bool.eq_iff_iff, Bool.and_eq_true, beq_iff_eq, beq_iff_eq, beq_iff_eq]
      constructor
      · rintro ⟨rfl, rfl⟩
        exact hw.symm
      · intro hfull
        have hparts := splitChar_fullName (hplain c hc).1.noColon (hplain c hc).2
        rw [show (R.annotationOf c).fullName = w from hfull, hsplit] at hparts
        simpa [eq_comm] using hparts
    · -- no command is called so, and the lookup must not find any
      have hnone : R.find w = none := by
        rw [Option.eq_none_iff_forall_not_mem]
        intro c hc
        exact hliteral (parts_of_find hplain hc hsplit).2.2
      rw [hnone, lookup_eq_none_iff hsplit, or_iff_right hliteral]
  · rw [R.lookup_of_not_isPair filters hw, find_of_not_isPair hplain hw]
    exact iff_of_true rfl fun nameSpace name hsplit => absurd ⟨nameSpace, name, hsplit⟩ hw

end Registry

/-- **Exact lookup.**  In a registry of commands with plain and pairwise distinct names, from every state: `getCommand`
returns the command whose full name is the word, or `null` where there is none, exactly for the words that
`LooksUpExactly` admits. -/
theorem getCommand_exact_iff {Cmd : Type} (R : Registry Cmd) {filters : FilterService} (outside : World Cmd Cmd)
    (banner : String) (hfilters : filters.Documented)
    (hplain : ∀ c ∈ R.commands, PlainName (R.annotationOf c).nameSpace ∧ PlainName (R.annotationOf c).name)
    (w : String) (s : ShellState) :
    ((getCommand (R.env filters outside banner) w).run s).result = .ok (R.find w) ↔ R.LooksUpExactly filters w := by
  rw [R.returns_getCommand filters outside banner w s]
  exact Registry.lookup_exact_iff hplain hfilters w

/-! ### An implementation of the filters -/

def ldapFilters : FilterService := fun filter => (LdapFilter.parse filter).map fun f property => f.holds property

theorem isSpecial_of_literal {s : String} (h : Literal s) : ∀ c ∈ s.toList, LdapFilter.isSpecial c = false := fun c hc => by
  simpa [LdapFilter.isSpecial] using h c hc

def namespaceKey : LdapFilter.Attribute := ⟨"dynamy.command.namespace".toList, by decide, List.all_eq_true.mp rfl⟩

def nameKey : LdapFilter.Attribute := ⟨"dynamy.command.name".toList, by decide, List.all_eq_true.mp rfl⟩

/-- `(key=value)` -/
def equals (key : LdapFilter.Attribute) (value : String) : LdapFilter.Filter :=
  .item key .equal (LdapFilter.literal value.toList)

theorem holds_equals {key : LdapFilter.Attribute} {value : String} (property : String → Option String) :
    (equals key value).holds property = true ↔ property (String.ofList key.name) = some value := by
  simp only [equals, LdapFilter.Filter.holds, Option.any_eq_true, LdapFilter.Op.holds, LdapFilter.accepts_literal,
    String.toList_inj]
  constructor
  · rintro ⟨s, hs, rfl⟩
    exact hs
  · exact fun h => ⟨value, h, rfl⟩

theorem render_equals {key : LdapFilter.Attribute} {value : String} (h : Literal value) :
    (equals key value).render = '(' :: (key.name ++ '=' :: (value.toList ++ [')'])) := by
  rw [equals, LdapFilter.Filter.render, LdapFilter.flatMap_renderChar_literal (isSpecial_of_literal h)]
  rfl

/-- The characters of a text around two values, with those of the fixed parts known. -/
theorem toList_format {a c e : String} {as cs es : List Char} (ha : a.toList = as) (hc : c.toList = cs)
    (he : e.toList = es) (b d : String) : (a ++ b ++ c ++ d ++ e).toList = as ++ (b.toList ++ (cs ++ (d.toList ++ es))) := by
  simp only [String.toList_append, ha, hc, he, List.append_assoc]

/-- The filter of the helper is what it looks like. -/
theorem parse_commandFilter {nameSpace name : String} (hns : Literal nameSpace) (hname : Literal name) :
    LdapFilter.parse (commandFilter nameSpace name) =
      some (.and (.cons (equals namespaceKey nameSpace) (.single (equals nameKey name)))) := by
  have hopen : "(&(dynamy.command.namespace=".toList = '(' :: '&' :: '(' :: (namespaceKey.name ++ ['=']) := rfl
  have hmiddle : ")(dynamy.command.name=".toList = ')' :: '(' :: (nameKey.name ++ ['=']) := rfl
  have hchars := toList_format hopen hmiddle (show "))".toList = [')', ')'] from rfl) nameSpace name
  have htext : commandFilter nameSpace name = String.ofList (LdapFilter.Filter.render
      (.and (.cons (equals namespaceKey nameSpace) (.single (equals nameKey name))))) := by
    refine String.toList_inj.mp (hchars.trans ?_)
    rw [String.toList_ofList, LdapFilter.Filter.render, LdapFilter.Filters.render, LdapFilter.Filters.render,
      render_equals hns, render_equals hname]
    simp only [List.cons_append, List.append_assoc, List.nil_append]
  rw [htext]
  exact LdapFilter.parse_render _

theorem ldapFilters_documented : ldapFilters.Documented := by
  intro nameSpace name hns hname
  refine ⟨_, by rw [ldapFilters, parse_commandFilter hns hname, Option.map_some], fun property => ?_⟩
  simp only [LdapFilter.Filter.holds, LdapFilter.Filters.allHold, Bool.and_eq_true, holds_equals]
  rfl

/-! ### Two commands -/

/-- `osgi:list`, which also has the alias `who`, and `osgi:who`. -/
def twoCommands : Registry Bool where
  commands := [false, true]
  annotationOf c := if c then { nameSpace := "osgi", name := "who" }
    else { nameSpace := "osgi", name := "list", aliases := ["who"] }
  frameworkProperty _ _ := none
  distinct := by decide

/-- Everyone may execute everything. -/
def permitting : World Bool Bool where
  getServiceReferences _ := .ok []
  getService _ := none
  isPermitted _ := .ok true
  hasAllRoles _ := .ok true
  execute _ _ := .ok none
  destroyed := false
  columns := none

theorem getCommand_exact_iff_list :
    ((getCommand (twoCommands.env ldapFilters permitting "") "osgi:list").run {}).result =
      .ok (twoCommands.find "osgi:list") ∧ twoCommands.find "osgi:list" = some false := by
  have hplain : ∀ s ∈ ["osgi", "list", "who"], PlainName s := fun s hs => by
    simp only [List.mem_cons, List.not_mem_nil, or_false] at hs
    rcases hs with rfl | rfl | rfl <;> exact ⟨by decide, by decide, by decide⟩
  refine ⟨(getCommand_exact_iff twoCommands permitting "" ldapFilters_documented ?_ _ _).mpr ?_, by decide⟩
  · intro c _
    cases c <;> exact ⟨hplain _ (by decide), hplain _ (by decide)⟩
  · intro nameSpace name hsplit
    rw [show splitChar ':' "osgi:list" = ["osgi", "list"] by decide] at hsplit
    cases hsplit
    exact .inl ⟨by decide, by decide, by decide⟩

/-- A star finds a command that is not called so. -/
theorem getCommand_not_exact : ¬ ∀ (w : String) (s : ShellState),
    ((getCommand (twoCommands.env ldapFilters permitting "") w).run s).result = .ok (twoCommands.find w) := by
  intro h
  have hstar : twoCommands.lookup ldapFilters "osgi:l*" = .ok (some false) := rfl
  have hfound := h "osgi:l*" {}
  rw [Registry.returns_getCommand twoCommands ldapFilters permitting "" _ _, hstar] at hfound
  exact absurd hfound (by decide)

end Dynamy.Shell
