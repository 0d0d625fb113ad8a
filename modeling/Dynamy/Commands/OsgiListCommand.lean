import Dynamy.Commands.ExecuteBundle

/-!
# Dynamy.Commands.OsgiListCommand — `osgi:list`, and the ids that it shows

The command parses its options with a `joptsimple.OptionParser`, which is a parameter, and formats one line for each
bundle.  The long lines begin with the id in a column of its own.  What stands there is what the commands on bundles
read: `listed_addresses` takes a line of `osgi:ll` to the bundle that it is about.
-/

namespace Dynamy.Commands

open Dynamy.Java Dynamy.Lib

/-- What is read of a bundle when it is listed. -/
structure Listed where
  bundleId : ℤ
  /-- `b.getHeaders().get("Bundle-Name")` -/
  bundleName : Option String
  symbolicName : Option String
  version : String
  state : ℤ
  deriving DecidableEq, Repr

/-- `options.has(..)` -/
abbrev OptionSet := String → Bool

/-- `b.getState() match ..`, with the constants of `Bundle`. -/
def stateName : ℤ → Except Throwable String
  | 32 => .ok "ACTIVE"
  | 2 => .ok "INSTALLED"
  | 4 => .ok "RESOLVED"
  | 8 => .ok "STARTING"
  | 16 => .ok "STOPPING"
  | 1 => .ok "UNINSTALLED"
  | n => .error ⟨.matchError, some (toString n ++ " (of class java.lang.Integer)")⟩

namespace OsgiListCommand

/-- `if (bundleName != null && !options.has("b")) bundleName else b.getSymbolicName()` -/
def printName (b : Listed) (options : OptionSet) : Option String :=
  if b.bundleName.isSome && !options "b" then b.bundleName else b.symbolicName

/-- `String.format("%s (%s)", printName, b.getVersion())` -/
def defaultFormatter (b : Listed) (options : OptionSet) : Except Throwable String :=
  .ok ((printName b options).getD "null" ++ " (" ++ b.version ++ ")")

/-- `String.format("%5s|%-65s|%-25s|%12s", bundleId, printName, b.getVersion(), state)` -/
def listFormatter (b : Listed) (options : OptionSet) : Except Throwable String := do
  let state ← stateName b.state
  let name ← leftJustify 65 ((printName b options).getD "null")
  let version ← leftJustify 25 b.version
  return rightJustify 5 (toString b.bundleId) ++ "|" ++ name ++ "|" ++ version ++ "|" ++ rightJustify 12 state

/-- The arguments that the parser gets: the aliases stand for options. -/
def argsOnly (head : String) (tail : List String) : List String :=
  let args := if head == "osgi:ll" then "-l" :: tail else tail
  if head == "osgi:lb" then "-b" :: "-l" :: args else args

/-- `execute`; `help` is what the parser prints. -/
def execute (parse : List String → Except Throwable OptionSet) (help : String)
    (bundles : Except Throwable (List Listed)) : List String → Except Throwable String
  | [] => .error ⟨.unsupportedOperation, some "empty.tail"⟩
  | head :: tail => do
    let options ← parse (argsOnly head tail)
    if options "help" || options "h" then return help
    let formatter := if options "l" then listFormatter else defaultFormatter
    let list ← (← bundles).mapM fun b => formatter b options
    return "\n".intercalate list

end OsgiListCommand

open OsgiListCommand

/-! ### The column of the ids -/

/-- A line up to the first `|`. -/
def firstColumn (line : String) : String := String.ofList (line.toList.takeWhile (· != '|'))

/-- The characters of a number are neither blank nor a separator. -/
theorem not_blank_of_mem_toString {n : ℤ} {c : Char} (h : c ∈ (toString n).toList) : ¬ c ≤ ' ' ∧ c ≠ '|' := by
  rcases isDigit_of_mem_toString h with rfl | hdigit
  · decide
  · refine ⟨fun hle => ?_, fun heq => by rw [heq] at hdigit; exact absurd hdigit (by decide)⟩
    simp only [Char.isDigit, Bool.and_eq_true, decide_eq_true_eq] at hdigit
    have hlow : c.val ≤ 32 := hle
    have hhigh : c.val ≥ 48 := hdigit.1
    exact absurd (UInt32.le_trans hhigh hlow) (by decide)

theorem trim_rightJustify {n : ℕ} {s : String} (hs : ∀ c ∈ s.toList, ¬ c ≤ ' ') : trim (rightJustify n s) = s := by
  have hblank : ∀ c ∈ List.replicate (n - s.length) ' ', decide (c ≤ ' ') = true := fun c hc => by
    rw [List.eq_of_mem_replicate hc]
    decide
  have hleft : s.toList.dropWhile (fun c => decide (c ≤ ' ')) = s.toList :=
    List.dropWhile_eq_self_iff.mpr fun hl => by simpa using hs _ (List.getElem_mem hl)
  have hright : s.toList.rdropWhile (fun c => decide (c ≤ ' ')) = s.toList :=
    List.rdropWhile_eq_self_iff.mpr fun hl => by simpa using hs _ (List.getLast_mem hl)
  rw [trim, rightJustify, String.toList_append, String.toList_ofList, List.dropWhile_append_of_pos hblank, hleft, hright,
    String.ofList_toList]

/-- A long line shows the id in its first column. -/
theorem firstColumn_listFormatter {b : Listed} {options : OptionSet} {line : String}
    (h : listFormatter b options = .ok line) : trim (firstColumn line) = toString b.bundleId := by
  obtain ⟨state, -, h⟩ := of_bind_eq_ok h
  obtain ⟨name, -, h⟩ := of_bind_eq_ok h
  obtain ⟨version, -, h⟩ := of_bind_eq_ok h
  obtain ⟨rest, hrest⟩ : ∃ rest, line.toList = (rightJustify 5 (toString b.bundleId)).toList ++ '|' :: rest := by
    rw [← Except.ok.inj h]
    exact ⟨_, by simp only [String.toList_append, List.append_assoc]; rfl⟩
  have hcolumn : ∀ c ∈ (rightJustify 5 (toString b.bundleId)).toList, (c != '|') = true := fun c hc => by
    rw [rightJustify, String.toList_append, String.toList_ofList, List.mem_append] at hc
    rcases hc with hc | hc
    · rw [List.eq_of_mem_replicate hc]
      decide
    · simpa using (not_blank_of_mem_toString hc).2
  have hfirst : firstColumn line = rightJustify 5 (toString b.bundleId) := by
    rw [firstColumn, hrest, List.takeWhile_append_of_pos hcolumn, List.takeWhile_cons_of_neg (by decide),
      List.append_nil, String.ofList_toList]
  rw [hfirst, trim_rightJustify fun c hc => (not_blank_of_mem_toString hc).1]

/-! ### From the list to a command on a bundle -/

/-- With `-l` alone the parser finds that option and no other. -/
def FindsLong (parse : List String → Except Throwable OptionSet) : Prop :=
  ∃ options, parse ["-l"] = .ok options ∧ ∀ option, options option = true ↔ option = "l"

/-- `bundle.getState()` is one of the constants, and the id is a `long`. -/
def Listed.WellFormed (b : Listed) : Prop :=
  b.state ∈ [1, 2, 4, 8, 16, 32] ∧ -2 ^ 63 ≤ b.bundleId ∧ b.bundleId < 2 ^ 63

theorem listFormatter_of_wellFormed {b : Listed} (h : b.WellFormed) (options : OptionSet) :
    ∃ line, listFormatter b options = .ok line := by
  obtain ⟨state, hstate⟩ : ∃ state, stateName b.state = .ok state := by
    have hmem := h.1
    simp only [List.mem_cons, List.not_mem_nil, or_false] at hmem
    rcases hmem with h | h | h | h | h | h <;> rw [h] <;> exact ⟨_, rfl⟩
  rw [listFormatter, hstate]
  exact ⟨_, rfl⟩

theorem mapM_listFormatter {bundles : List Listed} (h : ∀ b ∈ bundles, b.WellFormed) (options : OptionSet) :
    ∃ lines, bundles.mapM (listFormatter · options) = .ok lines ∧
      List.Forall₂ (fun b line => b.WellFormed ∧ listFormatter b options = .ok line) bundles lines := by
  induction bundles with
  | nil => exact ⟨[], rfl, .nil⟩
  | cons b bundles ih =>
    obtain ⟨line, hline⟩ := listFormatter_of_wellFormed (h b List.mem_cons_self) options
    obtain ⟨lines, hlines, hall⟩ := ih fun b' hb' => h b' (List.mem_cons_of_mem b hb')
    refine ⟨line :: lines, ?_, .cons ⟨h b List.mem_cons_self, hline⟩ hall⟩
    rw [List.mapM_cons, hline, hlines]
    rfl

variable {Bundle : Type}

/-- Whatever command on bundles is given the first column of `line`, it works on a bundle with this id and on no other,
and says so exactly if it does. -/
def Addresses (k : Console Bundle) (bundleId : ℤ) (line : String) : Prop :=
  ∀ (command : BundleCommand) (word : String) (s : ℕ), ∃ report es s',
    ((command.command k).execute k [word, trim (firstColumn line)]).run s = ⟨.ok report, s', es⟩ ∧
      (∀ op b raised, .call op b raised ∈ es → k.Has b ∧ k.getBundleId b = bundleId ∧ op ∈ command.operations) ∧
      (report = doneMessage bundleId command.done ↔
        ∃ b, k.Has b ∧ k.getBundleId b = bundleId ∧ es = returned b command.operations)

theorem addresses_of_listFormatter (k : Console Bundle) {b : Listed} (hb : b.WellFormed) {options : OptionSet}
    {line : String} (h : listFormatter b options = .ok line) : Addresses k b.bundleId line := by
  intro command word s
  have hparse : parseLong (toString b.bundleId) = .ok b.bundleId := parseLong_toString hb.2.1 hb.2.2
  rw [firstColumn_listFormatter h]
  obtain ⟨reports, hreports, hresult, hevents⟩ := execute_reports k command word [toString b.bundleId] s
  cases hreports with
  | @cons _ p _ rest htruth hrest =>
    cases hrest
    refine ⟨p.1, p.2, (((command.command k).execute k [word, toString b.bundleId]).run s).state, ?_, ?_, ?_⟩
    · rcases hrun : ((command.command k).execute k [word, toString b.bundleId]).run s with ⟨r, s', es⟩
      rw [hrun] at hresult hevents
      dsimp only at hresult hevents
      rw [hresult, hevents, List.flatMap_singleton]
      rfl
    · intro op b' raised hop
      obtain ⟨hhas, hid, hmem, -⟩ := htruth.named op b' raised hop
      rw [hparse, Except.ok.injEq] at hid
      exact ⟨hhas, hid.symm, hmem⟩
    · rw [htruth.claims, hparse]
      exact and_iff_right rfl

/-- **From the list to the bundle.**  `osgi:ll` prints one line for each bundle, in order, and the id that stands in
the first column of a line makes every command on bundles work on the bundle that the line is about. -/
theorem listed_addresses {parse : List String → Except Throwable OptionSet} (hparse : FindsLong parse) (help : String)
    (k : Console Bundle) {bundles : List Listed} (h : ∀ b ∈ bundles, b.WellFormed) :
    ∃ lines, OsgiListCommand.execute parse help (.ok bundles) ["osgi:ll"] = .ok ("\n".intercalate lines) ∧
      List.Forall₂ (fun b line => Addresses k b.bundleId line) bundles lines := by
  obtain ⟨options, hoptions, hl⟩ := hparse
  obtain ⟨lines, hlines, hall⟩ := mapM_listFormatter h options
  have hhelp : options "help" = false := by simpa using (hl "help").not.mpr (by decide)
  have hh : options "h" = false := by simpa using (hl "h").not.mpr (by decide)
  have hlong : options "l" = true := (hl "l").mpr rfl
  refine ⟨lines, ?_, ?_⟩
  · have hargs : argsOnly "osgi:ll" [] = ["-l"] := by decide
    rw [OsgiListCommand.execute, hargs, hoptions]
    simp only [bind, Except.bind, hhelp, hh, hlong, Bool.or_self, Bool.false_eq_true, if_false, if_true]
    rw [show bundles.mapM (fun b => listFormatter b options) = .ok lines from hlines]
    rfl
  · exact hall.imp fun b line hb => addresses_of_listFormatter k hb.1 hb.2

/-! ### Two bundles -/

/-- A parser for options of one letter. -/
def letters (args : List String) : Except Throwable OptionSet := .ok fun option => args.contains ("-" ++ option)

theorem findsLong_letters : FindsLong letters := by
  refine ⟨_, rfl, fun option => ?_⟩
  simp only [List.contains_cons, List.contains_nil, Bool.or_false, beq_iff_eq]
  constructor
  · intro h
    refine String.toList_inj.mp ?_
    have hlists := congrArg String.toList h
    simpa [String.toList_append] using hlists
  · rintro rfl
    rfl

theorem listed_addresses_two : ∃ lines,
    OsgiListCommand.execute letters "" (.ok [⟨0, some "System Bundle", none, "4.2.1", 32⟩,
      ⟨7, none, some "dynamy-log", "1.0", 2⟩]) ["osgi:ll"] = .ok ("\n".intercalate lines) ∧
      List.Forall₂ (fun (b : Listed) line => Addresses (stillConsole [0, 7]) b.bundleId line)
        [⟨0, some "System Bundle", none, "4.2.1", 32⟩, ⟨7, none, some "dynamy-log", "1.0", 2⟩] lines := by
  refine listed_addresses findsLong_letters "" (stillConsole [0, 7]) fun b hb => ?_
  simp only [List.mem_cons, List.not_mem_nil, or_false] at hb
  rcases hb with rfl | rfl <;> exact ⟨by decide, by decide, by decide⟩

end Dynamy.Commands
