import Dynamy.Shell.Registry
import Dynamy.Shell.DynamyShellFactory
import Mathlib.Data.List.Perm.Basic

/-!
# Dynamy.Shell.Help — the output of `help`

`printHelp` for a fixed set of registered commands and a fixed terminal.  The registry lists the commands in any
order, which may differ from one request to the next.  The help is printed as it should be exactly if there is a
command and the terminal is wider than the longest full name (`printsHelp_iff`): otherwise `max` finds nothing, or the
width left for the description is no width of a format.
-/

namespace Dynamy.Shell

open Dynamy.Java Dynamy.Lib

/-- The width of a terminal with these columns. -/
def widthOf (columns : Option String) : ℤ :=
  match columns with
  | none => 0
  | some text =>
    match parseInt text with
    | .ok width => width
    | .error _ => 0

/-- The longest full name of some commands. -/
def longest (ms : List DynamyCommandMeta) : ℕ := (ms.map (·.fullName.length)).foldl max 0

variable {Ref Cmd : Type}

/-- The helpers of commands with these annotations. -/
def HelpersOf (env : Env Ref Cmd) (cs : List (DynamyCommandHelper Cmd)) (ms : List DynamyCommandMeta) : Prop :=
  List.Forall₂ (fun c m => c.getMeta env = .ok m) cs ms

/-- At every moment the registry lists the commands with these annotations, and the terminal has these columns. -/
structure Shows (env : Env Ref Cmd) (ms : List DynamyCommandMeta) (columns : Option String) : Prop where
  listed : ∀ t, ∃ refs ms', (env.world t).getServiceReferences none = .ok refs ∧ ms'.Perm ms ∧
    List.Forall₂ (fun ref m => ∀ t', DynamyCommandHelper.getMeta env ⟨(env.world t').getService ref⟩ = .ok m) refs ms'
  columns_eq : ∀ t, (env.world t).columns = columns

/-- The line shows the full name and the description of the command. -/
def ShowsCommand (line : String) (m : DynamyCommandMeta) : Prop :=
  m.fullName.toList <:+: line.toList ∧ m.description.toList <:+: line.toList

/-- The heading, and exactly one line for each command. -/
def PrintsHelp (ms : List DynamyCommandMeta) (o : Outcome (ShellEvent Cmd) ShellState Throwable Unit) : Prop :=
  o.result = .ok () ∧ ∃ lines ms', ms'.Perm ms ∧ List.Forall₂ ShowsCommand lines ms' ∧
    o.events = .print "Dynamy Help:" :: .println (some "") :: lines.map fun line => .println (some line)

/-! ### What the steps of `printHelp` do -/

section Steps

variable {env : Env Ref Cmd} {ms : List DynamyCommandMeta} {columns : Option String}

theorem run_ask {α : Type} (env : Env Ref Cmd) (question : World Ref Cmd → Except Throwable α) (s : ShellState) :
    (ask env question).run s = ⟨question (env.world s.clock), { s with clock := s.clock + 1 }, []⟩ := by
  rw [ask, Prog.run_read_bind, Prog.run_update_bind, Prog.run_ofExcept]

theorem run_getWidth (h : Shows env ms columns) (s : ShellState) :
    ∃ s', (getWidth env).run s = ⟨.ok (widthOf columns), s', []⟩ := by
  refine ⟨{ s with clock := s.clock + 1 }, ?_⟩
  have hask := run_ask env (fun w => .ok w.columns) s
  rw [h.columns_eq] at hask
  rw [getWidth, Prog.run_bind_of_ok hask]
  unfold widthOf
  cases columns with
  | none => rfl
  | some text =>
    cases hw : parseInt text with
    | ok width => simp [hw]
    | error e => simp [hw]

theorem run_getServices {refs : List Ref} {ms' : List DynamyCommandMeta}
    (h : List.Forall₂ (fun ref m => ∀ t', DynamyCommandHelper.getMeta env ⟨(env.world t').getService ref⟩ = .ok m)
      refs ms') (s : ShellState) :
    ∃ cs s', (getServices env refs).run s = ⟨.ok cs, s', []⟩ ∧ HelpersOf env cs ms' := by
  induction h generalizing s with
  | nil => exact ⟨[], s, rfl, .nil⟩
  | @cons ref m refs ms' hm _ ih =>
    have hask := run_ask env (fun w => .ok (w.getService ref)) s
    obtain ⟨cs, s', hrun, hcs⟩ := ih { s with clock := s.clock + 1 }
    refine ⟨⟨(env.world s.clock).getService ref⟩ :: cs, s', ?_, .cons (hm s.clock) hcs⟩
    rw [getServices, Prog.run_bind_of_ok hask, Prog.run_bind_of_ok hrun, Prog.run_pure]

theorem run_getCommands (h : Shows env ms columns) (s : ShellState) :
    ∃ cs s' ms', (getCommands env).run s = ⟨.ok cs, s', []⟩ ∧ ms'.Perm ms ∧ HelpersOf env cs ms' := by
  obtain ⟨refs, ms', hrefs, hperm, hmetas⟩ := h.listed s.clock
  have hask := run_ask env (·.getServiceReferences none) s
  rw [hrefs] at hask
  obtain ⟨cs, s', hrun, hcs⟩ := run_getServices hmetas { s with clock := s.clock + 1 }
  exact ⟨cs, s', ms', by rw [getCommands, Prog.run_bind_of_ok hask, hrun], hperm, hcs⟩

theorem fullName_eq {c : DynamyCommandHelper Cmd} {m : DynamyCommandMeta} (h : c.getMeta env = .ok m) :
    c.fullName env = .ok m.fullName := by
  rw [DynamyCommandHelper.fullName, h]
  rfl

theorem fullNameLengths_eq {cs : List (DynamyCommandHelper Cmd)} (h : HelpersOf env cs ms) :
    fullNameLengths env cs = .ok (ms.map (·.fullName.length)) := by
  unfold fullNameLengths
  induction h with
  | nil => rfl
  | cons hm _ ih =>
    rw [List.mapM_cons, ih, fullName_eq hm]
    rfl

theorem maxLength_eq (hne : ms ≠ []) : maxLength (ms.map (·.fullName.length)) = .ok (longest ms) := by
  cases ms with
  | nil => exact absurd rfl hne
  | cons m ms =>
    rw [List.map_cons, maxLength, longest, List.map_cons, List.foldl_cons, Nat.zero_max]

theorem longest_perm {ms' : List DynamyCommandMeta} (h : ms'.Perm ms) : longest ms' = longest ms :=
  (h.map _).foldl_eq 0

/-- A full name has a colon at least. -/
theorem longest_pos (hne : ms ≠ []) : 1 ≤ longest ms := by
  obtain ⟨m, rest, rfl⟩ := List.exists_cons_of_ne_nil hne
  have hm : 1 ≤ m.fullName.length := by
    rw [DynamyCommandMeta.fullName, String.length_append, String.length_append]
    have hcolon : (":" : String).length = 1 := rfl
    omega
  have hle : m.fullName.length ≤ longest (m :: rest) := by
    rw [longest, List.map_cons, List.foldl_cons, max_comm, List.foldl_assoc]
    exact le_max_left _ _
  omega

theorem leftJustify_ok {n : ℤ} (hn : 1 ≤ n) (text : String) : ∃ pad, leftJustify n text = .ok (text ++ pad) :=
  ⟨_, if_pos hn⟩

/-- Two legal widths give a line with both texts. -/
theorem helpLine_ok {commandWidth descriptionWidth : ℤ} (hc : 1 ≤ commandWidth) (hd : 1 ≤ descriptionWidth)
    (m : DynamyCommandMeta) :
    ∃ line, helpLine commandWidth descriptionWidth m.fullName m.description = .ok line ∧ ShowsCommand line m := by
  obtain ⟨pad, hleft⟩ := leftJustify_ok hc m.fullName
  obtain ⟨pad', hright⟩ := leftJustify_ok hd m.description
  refine ⟨m.fullName ++ pad ++ "|" ++ (m.description ++ pad'), ?_, ?_, ?_⟩
  · rw [helpLine, hleft, hright]
    rfl
  · refine ⟨[], pad.toList ++ "|".toList ++ (m.description ++ pad').toList, ?_⟩
    simp only [String.toList_append, List.nil_append, List.append_assoc]
  · refine ⟨(m.fullName ++ pad ++ "|").toList, pad'.toList, ?_⟩
    simp only [String.toList_append, List.append_assoc]

theorem helpLine_error {commandWidth descriptionWidth : ℤ} (hc : 1 ≤ commandWidth) (hd : ¬ 1 ≤ descriptionWidth)
    (m : DynamyCommandMeta) :
    helpLine commandWidth descriptionWidth m.fullName m.description = .error ⟨.illegalFormat, none⟩ := by
  obtain ⟨pad, hleft⟩ := leftJustify_ok hc m.fullName
  have hright : leftJustify descriptionWidth m.description = .error ⟨.illegalFormat, none⟩ := if_neg hd
  rw [helpLine, hleft, hright]
  rfl

/-- One round of the loop that prints the lines. -/
theorem run_printHelpLines_cons (commandWidth descriptionWidth : ℤ) {c : DynamyCommandHelper Cmd}
    {m : DynamyCommandMeta} (hm : c.getMeta env = .ok m) (cs : List (DynamyCommandHelper Cmd)) (s : ShellState) :
    (printHelpLines env commandWidth descriptionWidth (c :: cs)).run s =
      (Prog.ofExcept (helpLine commandWidth descriptionWidth m.fullName m.description) >>= fun line =>
        Prog.emit (.println (some line)) >>= fun _ =>
          printHelpLines env commandWidth descriptionWidth cs).run s := by
  rw [printHelpLines, fullName_eq hm, hm]
  rfl

theorem run_printHelpLines {commandWidth descriptionWidth : ℤ} (hc : 1 ≤ commandWidth) (hd : 1 ≤ descriptionWidth)
    {cs : List (DynamyCommandHelper Cmd)} (h : HelpersOf env cs ms) (s : ShellState) :
    ∃ lines, List.Forall₂ ShowsCommand lines ms ∧ (printHelpLines env commandWidth descriptionWidth cs).run s =
      ⟨.ok (), s, lines.map fun line => .println (some line)⟩ := by
  induction h with
  | nil => exact ⟨[], .nil, rfl⟩
  | @cons c m cs ms hm _ ih =>
    obtain ⟨lines, hlines, hrun⟩ := ih
    obtain ⟨line, htext, hshows⟩ := helpLine_ok hc hd m
    refine ⟨line :: lines, .cons hshows hlines, ?_⟩
    rw [run_printHelpLines_cons _ _ hm, htext, Prog.run_ok_bind, Prog.run_emit_bind, hrun]
    rfl

theorem run_printHelpLines_error {commandWidth descriptionWidth : ℤ} (hc : 1 ≤ commandWidth)
    (hd : ¬ 1 ≤ descriptionWidth) {cs : List (DynamyCommandHelper Cmd)} (h : HelpersOf env cs ms) (hne : ms ≠ [])
    (s : ShellState) : (printHelpLines env commandWidth descriptionWidth cs).run s =
      ⟨.error ⟨.illegalFormat, none⟩, s, []⟩ := by
  cases h with
  | nil => exact absurd rfl hne
  | cons hm _ => rw [run_printHelpLines_cons _ _ hm, helpLine_error hc hd, Prog.run_error_bind]

end Steps

/-! ### The help printed, exactly -/

variable {env : Env Ref Cmd} {ms : List DynamyCommandMeta} {columns : Option String}

/-- `printHelp` after the lines for the heading, the questions to the terminal and the registry, and the widths. -/
theorem run_printHelp (h : Shows env ms columns) (s : ShellState) : ∃ cs ms' s', ms'.Perm ms ∧ HelpersOf env cs ms' ∧
    (printHelp env).run s =
      if ms = [] then ⟨.error ⟨.unsupportedOperation, some "empty.max"⟩, s', [.print "Dynamy Help:", .println (some "")]⟩
      else
        let o := (printHelpLines env (longest ms) (wrapInt (widthOf columns - longest ms)) cs).run s'
        ⟨o.result, o.state, .print "Dynamy Help:" :: .println (some "") :: o.events⟩ := by
  obtain ⟨s₁, hwidth⟩ := run_getWidth h s
  obtain ⟨measured, s₂, ms₁, hmeasured, hperm₁, hhelpers₁⟩ := run_getCommands h s₁
  have hlengths := fullNameLengths_eq hhelpers₁
  by_cases hms : ms = []
  · subst hms
    obtain rfl := hperm₁.eq_nil
    refine ⟨measured, [], s₂, hperm₁, hhelpers₁, ?_⟩
    rw [printHelp, Prog.run_emit_bind, Prog.run_emit_bind, Prog.run_bind_of_ok hwidth, Prog.run_bind_of_ok hmeasured,
      hlengths, Prog.run_ok_bind]
    rfl
  · have hne : ms₁ ≠ [] := fun h => hms (by subst h; exact hperm₁.symm.eq_nil)
    obtain ⟨cs, s₃, ms', hcs, hperm, hhelpers⟩ := run_getCommands h s₂
    refine ⟨cs, ms', s₃, hperm, hhelpers, ?_⟩
    rw [printHelp, Prog.run_emit_bind, Prog.run_emit_bind, Prog.run_bind_of_ok hwidth, Prog.run_bind_of_ok hmeasured,
      hlengths, Prog.run_ok_bind, maxLength_eq hne, Prog.run_ok_bind, Prog.run_bind_of_ok hcs, longest_perm hperm₁,
      if_neg hms]

/-- **The help, exactly.**  It is printed, without an exception, if and only if there is a command and the terminal
leaves a positive width for the descriptions. -/
theorem printsHelp_iff (h : Shows env ms columns) (s : ShellState) :
    PrintsHelp ms ((printHelp env).run s) ↔ ms ≠ [] ∧ 1 ≤ wrapInt (widthOf columns - longest ms) := by
  obtain ⟨cs, ms', s', hperm, hhelpers, hrun⟩ := run_printHelp h s
  rw [hrun]
  by_cases hms : ms = []
  · rw [if_pos hms]
    refine iff_of_false (fun hprints => ?_) (fun hcond => hcond.1 hms)
    cases hprints.1
  · have hne : ms' ≠ [] := fun h => hms (by subst h; exact hperm.symm.eq_nil)
    have hlongest : (1 : ℤ) ≤ longest ms := by exact_mod_cast longest_pos hms
    rw [if_neg hms]
    by_cases hwidth : 1 ≤ wrapInt (widthOf columns - longest ms)
    · obtain ⟨lines, hlines, hprinted⟩ := run_printHelpLines hlongest hwidth hhelpers s'
      rw [hprinted]
      exact iff_of_true ⟨rfl, lines, ms', hperm, hlines, rfl⟩ ⟨hms, hwidth⟩
    · rw [run_printHelpLines_error hlongest hwidth hhelpers hne s']
      refine iff_of_false (fun hprints => ?_) (fun hcond => hwidth hcond.2)
      cases hprints.1

/-- A registry of commands that never change, on a terminal with these columns. -/
def stillEnv (ms : List DynamyCommandMeta) (columns : Option String) : Env DynamyCommandMeta DynamyCommandMeta where
  annotationOf := some
  banner := ""
  world _ :=
    { getServiceReferences := fun _ => .ok ms
      getService := some
      isPermitted := fun _ => .ok true
      hasAllRoles := fun _ => .ok true
      execute := fun _ _ => .ok none
      destroyed := false
      columns := columns }

theorem stillEnv_shows (ms : List DynamyCommandMeta) (columns : Option String) :
    Shows (stillEnv ms columns) ms columns where
  listed t := by
    refine ⟨ms, ms, rfl, .refl ms, ?_⟩
    rw [List.forall₂_same]
    intro m _ t'
    rfl
  columns_eq t := rfl

/-- On 80 columns the help for one command is printed. -/
theorem printsHelp_iff_wide : PrintsHelp [{ nameSpace := "osgi", name := "list", description := "List bundles" }]
    ((printHelp (stillEnv [{ nameSpace := "osgi", name := "list", description := "List bundles" }] (some "80"))).run {}) :=
  (printsHelp_iff (stillEnv_shows _ _) {}).mpr (by decide)

/-- Without columns there is no width for the description. -/
theorem help_not_printed :
    ¬ ∀ (ms : List DynamyCommandMeta) (columns : Option String),
      PrintsHelp ms ((printHelp (stillEnv ms columns)).run {}) := by
  intro h
  have hprints := h [{ nameSpace := "osgi", name := "list", description := "List bundles" }] none
  cases hprints.1

end Dynamy.Shell
