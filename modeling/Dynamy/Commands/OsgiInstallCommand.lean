import Dynamy.Osgi.Framework

/-!
# Dynamy.Commands.OsgiInstallCommand — `osgi:install`

The command installs, starts and sets start levels for one argument after the other, and writes a line for each.  One
handler is around the three operations, and what was done before it stays done.  So the line for an argument tells the
truth exactly if its level is an `Int` and either nothing fails or, although something does, there was nothing left to
do before it and something afterwards (`reports_iff`).
-/

namespace Dynamy.Commands

open Dynamy.Java Dynamy.Lib Dynamy.Osgi

section Command

/- The framework, and the texts of the bundle at a location and of the command's own bundle. -/
variable (framework : OsgiFramework) (bundleText : String → String) (selfText : String)

/-- The arguments one by one: `arg match { case Bundle(url, start, runlevel) => .. }`. -/
def OsgiInstallCommand.installMatched (raises : FrameworkOp → Option Throwable) (arg : String) : InstallM String :=
  match unapplyBundle OsgiInstallCommand.Bundle arg with
  | some d => do
    installDescriptor framework raises [] ["Bundle " ++ selfText ++ " started"] d
    return "Bundle " ++ bundleText d.url ++ " installed from " ++ arg
  | none => Prog.raise ⟨.matchError, some (arg ++ " (of class java.lang.String)")⟩

/-- The body of the loop: what is appended to the buffer before the line end. -/
def OsgiInstallCommand.installArg (raises : FrameworkOp → Option Throwable) (arg : String) : InstallM String :=
  Prog.attempt (OsgiInstallCommand.installMatched framework bundleText selfText raises arg) fun e => do
    log .error "Unable to install bundle" (some e)
    return "Cannot install bundle " ++ arg ++ ": " ++ e.message.getD "null"

/-- The arguments from the `k`-th on; `raises k` is what fails for the `k`-th argument. -/
def OsgiInstallCommand.installArgs (raises : ℕ → FrameworkOp → Option Throwable) : ℕ → List String → InstallM String
  | _, [] => return ""
  | k, arg :: args => do
    let line ← OsgiInstallCommand.installArg framework bundleText selfText (raises k) arg
    let rest ← installArgs raises (k + 1) args
    return line ++ "\n" ++ rest

/-- `execute`; the first word is the one of the command. -/
def OsgiInstallCommand.execute (raises : ℕ → FrameworkOp → Option Throwable) (args : List String) : InstallM String :=
  match args with
  | [] => Prog.raise ⟨.unsupportedOperation, some "tail of empty list"⟩
  | _ :: argsOnly => OsgiInstallCommand.installArgs framework bundleText selfText raises 0 argsOnly

end Command

/-! ### What a line should say -/

/-- The bundle is there and, where that is asked, started and at its level. -/
def AsAsked (b : Bundles) (d : Descriptor) : Prop :=
  ∃ s, b d.url = some s ∧ (d.start = some "start" → s.started = true) ∧
    ∀ text, d.runlevel = some text → ∃ n, toInt text = .ok n ∧ s.startLevel = some n

/-- No bundle has been installed or started since `b`. -/
def NothingNew (b b' : Bundles) : Prop :=
  ∀ location s', b' location = some s' → ∃ s, b location = some s ∧ (s'.started = true → s.started = true)

def SaysInstalled (line : String) : Prop := "Bundle ".toList <+: line.toList

def SaysCannot (line : String) : Prop := "Cannot install bundle ".toList <+: line.toList

/-- The line that an argument gets for what it does to the bundles. -/
structure Truthful (b : Bundles) (arg line : String) (b' : Bundles) : Prop where
  installed : SaysInstalled line ↔ ∃ d, unapplyBundle OsgiInstallCommand.Bundle arg = some d ∧ AsAsked b' d
  cannot : SaysCannot line → NothingNew b b'
  converts : ∀ d text, unapplyBundle OsgiInstallCommand.Bundle arg = some d → d.runlevel = some text →
    ∃ n, toInt text = .ok n

section Claim

variable (framework : OsgiFramework) (bundleText : String → String) (selfText : String)
  (raises : ℕ → FrameworkOp → Option Throwable) (b : Bundles) (command : String)

/-- How a call with these arguments ends. -/
def executed (args : List String) : Outcome InstallEvent Bundles Throwable String :=
  (OsgiInstallCommand.execute framework bundleText selfText raises (command :: args)).run b

/-- The argument at place `k` has one line, in its place, and the line is true. -/
def Reports (args : List String) (k : ℕ) (arg : String) : Prop :=
  ∃ text line rest,
    (executed framework bundleText selfText raises b command (args.take k)).result = .ok text ∧
    (executed framework bundleText selfText raises b command (args.take (k + 1))).result = .ok (text ++ (line ++ "\n")) ∧
    (executed framework bundleText selfText raises b command args).result = .ok (text ++ (line ++ "\n") ++ rest) ∧
    Truthful (executed framework bundleText selfText raises b command (args.take k)).state arg line
      (executed framework bundleText selfText raises b command (args.take (k + 1))).state

end Claim

/-! ### When it does -/

/-- The operations up to the first one that raises. -/
def doneOps (raises : FrameworkOp → Option Throwable) (d : Descriptor) (level : Option ℤ) : List FrameworkOp :=
  (descriptorOps d level).takeWhile fun op => (raises op).isNone

/-- Nothing raises; or what is done before something raises changes nothing, and was not all. -/
def DoneOrNot (framework : OsgiFramework) (raises : FrameworkOp → Option Throwable) (b : Bundles) (d : Descriptor)
    (level : Option ℤ) : Prop :=
  (∀ op ∈ descriptorOps d level, raises op = none) ∨
    (∀ op ∈ doneOps raises d level, framework op b = b) ∧ ¬ AsAsked b d

/-- The condition on an argument and the bundles before it. -/
def Reportable (framework : OsgiFramework) (raises : FrameworkOp → Option Throwable) (b : Bundles) (arg : String) :
    Prop :=
  ∀ d, unapplyBundle OsgiInstallCommand.Bundle arg = some d →
    ∃ level, levelOf d = .ok level ∧ DoneOrNot framework raises b d level

/-! ### One argument -/

section Arg

variable {framework : OsgiFramework} {raises : FrameworkOp → Option Throwable} {b : Bundles} {d : Descriptor}
  {level : Option ℤ}

/-- With all of its operations done, the bundle is as it was asked for. -/
theorem asAsked_descriptorOps (hframework : framework.Documented) (h : levelOf d = .ok level) (b : Bundles) :
    AsAsked (framework.applyAll (descriptorOps d level) b) d := by
  -- after the second step, whether the bundle was started or not
  have hstarted : ∃ s, framework.applyAll (if d.start = some "start" then [.start d.url] else [])
      (framework (.installBundle d.url) b) d.url = some s ∧ (d.start = some "start" → s.started = true) := by
    have hinstalled := hframework.installs b d.url
    split
    · obtain ⟨s, hs, hstarted⟩ := hframework.starts _ d.url hinstalled
      exact ⟨s, hs, fun _ => hstarted⟩
    · rename_i hstart
      obtain ⟨s, hs⟩ := Option.isSome_iff_exists.mp hinstalled
      exact ⟨s, hs, fun h => absurd h hstart⟩
  obtain ⟨s, hs, hstart⟩ := hstarted
  rw [descriptorOps, OsgiFramework.applyAll, List.foldl_cons, List.foldl_append]
  rcases levelOf_eq_ok.mp h with ⟨hnone, rfl⟩ | ⟨text, n, hlevel, hn, rfl⟩
  · refine ⟨s, hs, hstart, fun text htext => ?_⟩
    rw [hnone] at htext
    cases htext
  · obtain ⟨s', hs', hn', hsame⟩ := hframework.levels _ d.url s n hs
    refine ⟨s', hs', fun hasked => hsame.trans (hstart hasked), fun text' htext => ?_⟩
    rw [hlevel, Option.some.injEq] at htext
    exact ⟨n, htext ▸ hn, hn'⟩

/-- The last of them was not done, then. -/
theorem doneOps_cases (h : ¬ ∀ op ∈ descriptorOps d level, raises op = none) :
    doneOps raises d level = [] ∨ doneOps raises d level = [.installBundle d.url] ∨
      doneOps raises d level = [.installBundle d.url, .start d.url] := by
  unfold doneOps descriptorOps at *
  cases hinstall : raises (.installBundle d.url) with
  | some e => simp [hinstall]
  | none =>
    by_cases hasked : d.start = some "start"
    · rw [if_pos hasked] at h ⊢
      cases hstart : raises (.start d.url) with
      | some e => simp [hinstall, hstart]
      | none =>
        cases level with
        | none => simp [hinstall, hstart, levelOps] at h
        | some n =>
          cases hset : raises (.setStartLevel d.url n) with
          | some e => simp [hinstall, hstart, hset, levelOps]
          | none => simp [hinstall, hstart, hset, levelOps] at h
    · rw [if_neg hasked] at h ⊢
      cases level with
      | none => simp [hinstall, levelOps] at h
      | some n =>
        cases hset : raises (.setStartLevel d.url n) with
        | some e => simp [hinstall, hset, levelOps]
        | none => simp [hinstall, hset, levelOps] at h

theorem exists_levelOf_iff :
    (∃ level, levelOf d = .ok level) ↔ ∀ text, d.runlevel = some text → ∃ n, toInt text = .ok n := by
  constructor
  · rintro ⟨level, h⟩ text htext
    rcases levelOf_eq_ok.mp h with ⟨hnone, -⟩ | ⟨text', n, htext', hn, -⟩
    · rw [hnone] at htext
      cases htext
    · obtain rfl := Option.some.inj (htext'.symm.trans htext)
      exact ⟨n, hn⟩
  · intro h
    cases hlevel : d.runlevel with
    | none => exact ⟨none, levelOf_eq_ok.mpr (.inl ⟨hlevel, rfl⟩)⟩
    | some text =>
      obtain ⟨n, hn⟩ := h text hlevel
      exact ⟨some n, levelOf_eq_ok.mpr (.inr ⟨text, n, hlevel, hn, rfl⟩)⟩

theorem nothingNew_self (b : Bundles) : NothingNew b b := fun _ s h => ⟨s, h, id⟩

/-- What changed nothing left the bundles as they were. -/
theorem applyAll_of_unchanged {ops : List FrameworkOp} (h : ∀ op ∈ ops, framework op b = b) :
    framework.applyAll ops b = b := by
  induction ops with
  | nil => rfl
  | cons op ops ih =>
    rw [OsgiFramework.applyAll, List.foldl_cons, h op List.mem_cons_self]
    exact ih fun op' hop' => h op' (List.mem_cons_of_mem op hop')

theorem installBundle_of_nothingNew (hframework : framework.Documented) {location : String} {b' : Bundles}
    (hnew : NothingNew b b') (h : (b' location).isSome) : framework (.installBundle location) b = b := by
  obtain ⟨s', hs'⟩ := Option.isSome_iff_exists.mp h
  obtain ⟨s, hs, -⟩ := hnew location s' hs'
  exact hframework.keeps b location (by rw [hs]; rfl)

/-- If something fails, nothing is new exactly if what was done changed nothing. -/
theorem nothingNew_iff (hframework : framework.Documented) (h : ¬ ∀ op ∈ descriptorOps d level, raises op = none)
    (b : Bundles) : NothingNew b (framework.applyAll (doneOps raises d level) b) ↔
      ∀ op ∈ doneOps raises d level, framework op b = b := by
  refine ⟨fun hnew => ?_, fun hsame => ?_⟩
  · rcases doneOps_cases h with hdone | hdone | hdone
    · rw [hdone]
      exact fun op hop => absurd hop List.not_mem_nil
    · rw [hdone] at hnew ⊢
      rw [List.forall_mem_singleton]
      exact installBundle_of_nothingNew hframework hnew (hframework.installs b d.url)
    · rw [hdone] at hnew
      obtain ⟨s, hs, hstarted⟩ := hframework.starts _ d.url (hframework.installs b d.url)
      have hinstall : framework (.installBundle d.url) b = b :=
        installBundle_of_nothingNew hframework hnew (Option.isSome_iff_exists.mpr ⟨s, hs⟩)
      obtain ⟨s', hs', hbefore⟩ := hnew d.url s hs
      rw [hdone, List.forall_mem_cons, List.forall_mem_singleton]
      exact ⟨hinstall, hframework.started b d.url s' hs' (hbefore hstarted)⟩
  · rw [applyAll_of_unchanged hsame]
    exact nothingNew_self b

theorem says_installed (rest : String) : SaysInstalled ("Bundle " ++ rest) ∧ ¬ SaysCannot ("Bundle " ++ rest) := by
  unfold SaysInstalled SaysCannot
  rw [String.toList_append]
  refine ⟨List.prefix_append _ _, fun h => ?_⟩
  have hfirst := (List.cons_prefix_cons.mp h).1
  exact absurd hfirst (by decide)

theorem says_cannot (rest : String) : SaysCannot ("Cannot install bundle " ++ rest) ∧
    ¬ SaysInstalled ("Cannot install bundle " ++ rest) := by
  unfold SaysInstalled SaysCannot
  rw [String.toList_append]
  refine ⟨List.prefix_append _ _, fun h => ?_⟩
  have hfirst := (List.cons_prefix_cons.mp h).1
  exact absurd hfirst (by decide)

section Says

variable {arg line : String} {b' : Bundles} (hd : unapplyBundle OsgiInstallCommand.Bundle arg = some d)
  (hlevel : levelOf d = .ok level)

include hd

theorem exists_asAsked_iff : (∃ d, unapplyBundle OsgiInstallCommand.Bundle arg = some d ∧ AsAsked b' d) ↔
    AsAsked b' d := by
  rw [hd]
  simp only [Option.some.injEq, exists_eq_left']

include hlevel

theorem converts_of_levelOf (d' : Descriptor) (text : String)
    (hd' : unapplyBundle OsgiInstallCommand.Bundle arg = some d') (htext : d'.runlevel = some text) :
    ∃ n, toInt text = .ok n := by
  rw [hd, Option.some.injEq] at hd'
  exact exists_levelOf_iff.mp ⟨level, hlevel⟩ text (hd' ▸ htext)

theorem truthful_iff_of_installed (hword : SaysInstalled line ∧ ¬ SaysCannot line) :
    Truthful b arg line b' ↔ AsAsked b' d := by
  rw [← exists_asAsked_iff hd]
  constructor
  · exact fun h => h.installed.mp hword.1
  · exact fun h => ⟨iff_of_true hword.1 h, fun hcannot => absurd hcannot hword.2, converts_of_levelOf hd hlevel⟩

theorem truthful_iff_of_cannot (hword : SaysCannot line ∧ ¬ SaysInstalled line) :
    Truthful b arg line b' ↔ NothingNew b b' ∧ ¬ AsAsked b' d := by
  rw [← exists_asAsked_iff hd]
  constructor
  · exact fun h => ⟨h.cannot hword.1, fun hasked => hword.2 (h.installed.mpr hasked)⟩
  · exact fun h => ⟨iff_of_false hword.2 h.2, fun _ => h.1, converts_of_levelOf hd hlevel⟩

theorem reportable_iff : Reportable framework raises b arg ↔ DoneOrNot framework raises b d level := by
  constructor
  · intro h
    obtain ⟨level', hlevel', hor⟩ := h d hd
    rw [hlevel] at hlevel'
    cases hlevel'
    exact hor
  · intro h d' hd'
    rw [hd] at hd'
    cases hd'
    exact ⟨level, hlevel, h⟩

end Says

section Text

variable (framework) (bundleText : String → String) (selfText : String) (raises) {arg : String}

/-- The two ways in which an argument can end. -/
theorem run_installArg (arg : String) (b : Bundles) :
    ∃ line, ((OsgiInstallCommand.installArg framework bundleText selfText raises arg).run b).result = .ok line ∧
      ((OsgiInstallCommand.installArg framework bundleText selfText raises arg).run b).state =
        ((OsgiInstallCommand.installMatched framework bundleText selfText raises arg).run b).state ∧
      (((OsgiInstallCommand.installMatched framework bundleText selfText raises arg).run b).result = .ok line ∨
        (∃ e, ((OsgiInstallCommand.installMatched framework bundleText selfText raises arg).run b).result = .error e) ∧
          SaysCannot line ∧ ¬ SaysInstalled line) := by
  rw [OsgiInstallCommand.installArg, Prog.run_attempt]
  rcases (OsgiInstallCommand.installMatched framework bundleText selfText raises arg).run b with ⟨result, b', es⟩
  cases result with
  | ok line => exact ⟨line, rfl, rfl, .inl rfl⟩
  | error e =>
    refine ⟨_, rfl, rfl, .inr ⟨⟨e, rfl⟩, ?_⟩⟩
    rw [String.append_assoc, String.append_assoc]
    exact says_cannot _

/-- What becomes of a descriptor whose level is an `Int`. -/
theorem run_installMatched (hd : unapplyBundle OsgiInstallCommand.Bundle arg = some d) (h : levelOf d = .ok level)
    (b : Bundles) :
    ((OsgiInstallCommand.installMatched framework bundleText selfText raises arg).run b).state =
        framework.applyAll (doneOps raises d level) b ∧
      ((∀ op ∈ descriptorOps d level, raises op = none) →
        ((OsgiInstallCommand.installMatched framework bundleText selfText raises arg).run b).result =
          .ok ("Bundle " ++ bundleText d.url ++ " installed from " ++ arg)) ∧
      ((¬ ∀ op ∈ descriptorOps d level, raises op = none) →
        ∃ e, ((OsgiInstallCommand.installMatched framework bundleText selfText raises arg).run b).result = .error e) := by
  have hperforms : Performs framework raises (installDescriptor framework raises [] ["Bundle " ++ selfText ++ " started"] d)
      (descriptorOps d level) := performs_installDescriptor h _ _
  obtain ⟨hstate, hresult⟩ := hperforms b
  rw [OsgiInstallCommand.installMatched, hd]
  dsimp only
  rw [Prog.run_bind]
  rcases hrun : (installDescriptor framework raises [] ["Bundle " ++ selfText ++ " started"] d).run b with ⟨result, b', es⟩
  rw [hrun] at hstate hresult
  rw [← hresult]
  cases result with
  | ok u => exact ⟨hstate, fun _ => rfl, fun h => absurd rfl h⟩
  | error e =>
    refine ⟨hstate, fun hok => ?_, fun _ => ⟨e, rfl⟩⟩
    cases hok

/-- An argument that is no descriptor. -/
theorem run_installMatched_of_none (hd : unapplyBundle OsgiInstallCommand.Bundle arg = none) (b : Bundles) :
    (OsgiInstallCommand.installMatched framework bundleText selfText raises arg).run b =
      ⟨.error ⟨.matchError, some (arg ++ " (of class java.lang.String)")⟩, b, []⟩ := by
  rw [OsgiInstallCommand.installMatched, hd]
  rfl

/-- Its line says that it cannot be installed, and nothing was. -/
theorem truthful_of_none (hd : unapplyBundle OsgiInstallCommand.Bundle arg = none) {line : String}
    (hword : ¬ SaysInstalled line) : Truthful b arg line b := by
  have hnever : ∀ d, ¬ unapplyBundle OsgiInstallCommand.Bundle arg = some d := by
    intro d hd'
    rw [hd] at hd'
    cases hd'
  exact ⟨iff_of_false hword fun ⟨d, hd', _⟩ => hnever d hd', fun _ => nothingNew_self b,
    fun d text hd' => absurd hd' (hnever d)⟩

/-- A descriptor whose level is an `Int`: everything is done and its line says so, or something was not done and its
line says that. -/
theorem truthful_iff_doneOrNot (hframework : framework.Documented)
    (hd : unapplyBundle OsgiInstallCommand.Bundle arg = some d)
    (hlevel : levelOf d = .ok level) {line : String}
    (hline : ((OsgiInstallCommand.installArg framework bundleText selfText raises arg).run b).result = .ok line) :
    Truthful b arg line ((OsgiInstallCommand.installArg framework bundleText selfText raises arg).run b).state ↔
      DoneOrNot framework raises b d level := by
  obtain ⟨line', hline', hstate, hcases⟩ := run_installArg framework raises bundleText selfText arg b
  obtain ⟨hdone, hall, hnot⟩ := run_installMatched framework raises bundleText selfText hd hlevel b
  rw [hline', Except.ok.injEq] at hline
  subst hline
  rw [hstate, hdone]
  by_cases h : ∀ op ∈ descriptorOps d level, raises op = none
  · have hops : doneOps raises d level = descriptorOps d level :=
      List.takeWhile_eq_self_iff.mpr fun op hop => by rw [h op hop]; rfl
    have hword : SaysInstalled line' ∧ ¬ SaysCannot line' := by
      rcases hcases with hok | ⟨⟨e, herror⟩, -⟩
      · rw [hall h, String.append_assoc, String.append_assoc] at hok
        cases hok
        exact says_installed _
      · rw [hall h] at herror
        cases herror
    rw [truthful_iff_of_installed hd hlevel hword, hops]
    exact iff_of_true (asAsked_descriptorOps hframework hlevel b) (.inl h)
  · have hword : SaysCannot line' ∧ ¬ SaysInstalled line' := by
      rcases hcases with hok | ⟨-, hword⟩
      · obtain ⟨e, herror⟩ := hnot h
        rw [hok] at herror
        cases herror
      · exact hword
    rw [truthful_iff_of_cannot hd hlevel hword, nothingNew_iff hframework h, DoneOrNot, or_iff_right h]
    refine and_congr_right fun hsame => ?_
    rw [applyAll_of_unchanged hsame]

/-- **One argument**: its line is true exactly if its level is an `Int` and it is done, or nothing was. -/
theorem truthful_iff (hframework : framework.Documented) {line : String}
    (hline : ((OsgiInstallCommand.installArg framework bundleText selfText raises arg).run b).result = .ok line) :
    Truthful b arg line ((OsgiInstallCommand.installArg framework bundleText selfText raises arg).run b).state ↔
      Reportable framework raises b arg := by
  cases hd : unapplyBundle OsgiInstallCommand.Bundle arg with
  | none =>
    obtain ⟨line', hline', hstate, hcases⟩ := run_installArg framework raises bundleText selfText arg b
    rw [hline', Except.ok.injEq] at hline
    subst hline
    rw [run_installMatched_of_none framework raises bundleText selfText hd] at hstate hcases
    rw [hstate]
    rcases hcases with hok | ⟨-, -, hword⟩
    · cases hok
    · refine iff_of_true (truthful_of_none hd hword) fun d hd' => ?_
      rw [hd] at hd'
      cases hd'
  | some d =>
    cases hlevel : levelOf d with
    | error e =>
      refine iff_of_false (fun h => ?_) fun h => ?_
      · obtain ⟨level, hlevel'⟩ := exists_levelOf_iff.mpr fun text => h.converts d text hd
        rw [hlevel] at hlevel'
        cases hlevel'
      · obtain ⟨level, hlevel', -⟩ := h d hd
        rw [hlevel] at hlevel'
        cases hlevel'
    | ok level =>
      rw [reportable_iff hd hlevel]
      exact truthful_iff_doneOrNot framework raises bundleText selfText hframework hd hlevel hline

end Text

end Arg

/-! ### All arguments -/

section Args

variable (framework : OsgiFramework) (bundleText : String → String) (selfText : String)
  (raises : ℕ → FrameworkOp → Option Throwable)

theorem run_installArgs_cons {k : ℕ} {arg line : String} {b : Bundles}
    (hline : ((OsgiInstallCommand.installArg framework bundleText selfText (raises k) arg).run b).result = .ok line)
    (args : List String) :
    ((OsgiInstallCommand.installArgs framework bundleText selfText raises k (arg :: args)).run b).result =
        (line ++ "\n" ++ ·) <$> ((OsgiInstallCommand.installArgs framework bundleText selfText raises (k + 1) args).run
          ((OsgiInstallCommand.installArg framework bundleText selfText (raises k) arg).run b).state).result ∧
      ((OsgiInstallCommand.installArgs framework bundleText selfText raises k (arg :: args)).run b).state =
        ((OsgiInstallCommand.installArgs framework bundleText selfText raises (k + 1) args).run
          ((OsgiInstallCommand.installArg framework bundleText selfText (raises k) arg).run b).state).state := by
  rw [OsgiInstallCommand.installArgs, Prog.run_bind]
  rcases hrun : (OsgiInstallCommand.installArg framework bundleText selfText (raises k) arg).run b with ⟨result, b', es⟩
  rw [hrun] at hline
  cases hline
  dsimp only
  rw [Prog.run_bind]
  rcases (OsgiInstallCommand.installArgs framework bundleText selfText raises (k + 1) args).run b' with ⟨result, b'', es'⟩
  cases result with
  | ok rest => exact ⟨rfl, rfl⟩
  | error e => exact ⟨rfl, rfl⟩

theorem installArgs_returns (k : ℕ) (args : List String) (b : Bundles) :
    ∃ text, ((OsgiInstallCommand.installArgs framework bundleText selfText raises k args).run b).result = .ok text := by
  induction args generalizing k b with
  | nil => exact ⟨"", rfl⟩
  | cons arg args ih =>
    obtain ⟨line, hline, -⟩ := run_installArg framework (raises k) bundleText selfText arg b
    obtain ⟨rest, hrest⟩ := ih (k + 1)
      ((OsgiInstallCommand.installArg framework bundleText selfText (raises k) arg).run b).state
    rw [(run_installArgs_cons framework bundleText selfText raises hline args).1, hrest]
    exact ⟨_, rfl⟩

/-- The arguments in two groups: the second starts with the bundles that the first leaves. -/
theorem run_installArgs_append (k : ℕ) (xs ys : List String) (b : Bundles) {text : String}
    (htext : ((OsgiInstallCommand.installArgs framework bundleText selfText raises k xs).run b).result = .ok text) :
    ((OsgiInstallCommand.installArgs framework bundleText selfText raises k (xs ++ ys)).run b).result =
        (text ++ ·) <$> ((OsgiInstallCommand.installArgs framework bundleText selfText raises (k + xs.length) ys).run
          ((OsgiInstallCommand.installArgs framework bundleText selfText raises k xs).run b).state).result ∧
      ((OsgiInstallCommand.installArgs framework bundleText selfText raises k (xs ++ ys)).run b).state =
        ((OsgiInstallCommand.installArgs framework bundleText selfText raises (k + xs.length) ys).run
          ((OsgiInstallCommand.installArgs framework bundleText selfText raises k xs).run b).state).state := by
  induction xs generalizing k b text with
  | nil =>
    cases htext
    refine ⟨?_, rfl⟩
    simp only [String.empty_append]
    rw [id_map']
    rfl
  | cons arg xs ih =>
    obtain ⟨line, hline, -⟩ := run_installArg framework (raises k) bundleText selfText arg b
    obtain ⟨hresult, hstate⟩ := run_installArgs_cons framework bundleText selfText raises hline xs
    obtain ⟨hresult', hstate'⟩ := run_installArgs_cons framework bundleText selfText raises hline (xs ++ ys)
    obtain ⟨more, hmore⟩ := installArgs_returns framework bundleText selfText raises (k + 1) xs
      ((OsgiInstallCommand.installArg framework bundleText selfText (raises k) arg).run b).state
    obtain ⟨ihresult, ihstate⟩ := ih (k + 1) _ hmore
    rw [hresult, hmore] at htext
    cases htext
    rw [List.cons_append, hresult', hstate', hstate, ihresult, ihstate, List.length_cons, Nat.add_assoc k 1,
      Nat.add_comm 1]
    refine ⟨?_, rfl⟩
    rw [Functor.map_map]
    simp only [String.append_assoc]

/-- The turn of the argument at place `k`. -/
theorem reports_iff_truthful {b : Bundles} {command : String} {args : List String} {k : ℕ} {arg line : String}
    (harg : args[k]? = some arg)
    (hline : ((OsgiInstallCommand.installArg framework bundleText selfText (raises k) arg).run
      (executed framework bundleText selfText raises b command (args.take k)).state).result = .ok line) :
    Reports framework bundleText selfText raises b command args k arg ↔
      Truthful (executed framework bundleText selfText raises b command (args.take k)).state arg line
        ((OsgiInstallCommand.installArg framework bundleText selfText (raises k) arg).run
          (executed framework bundleText selfText raises b command (args.take k)).state).state := by
  obtain ⟨hlt, hget⟩ := List.getElem?_eq_some_iff.mp harg
  have htake : args.take (k + 1) = args.take k ++ [arg] := by
    rw [List.take_succ_eq_append_getElem hlt, hget]
  have hlen : 0 + (args.take k).length = k := by
    rw [List.length_take]
    omega
  obtain ⟨text, htext⟩ := installArgs_returns framework bundleText selfText raises 0 (args.take k) b
  obtain ⟨hresult, hstate⟩ := run_installArgs_append framework bundleText selfText raises 0 (args.take k) [arg] b htext
  obtain ⟨hone, hafter⟩ := run_installArgs_cons framework bundleText selfText raises hline []
  rw [← htake, hlen] at hresult hstate
  have hnext : ((OsgiInstallCommand.installArgs framework bundleText selfText raises 0 (args.take (k + 1))).run b).result =
      .ok (text ++ (line ++ "\n")) := by
    refine hresult.trans ((congrArg _ hone).trans ?_)
    simp only [OsgiInstallCommand.installArgs, Prog.run_pure, Functor.map, Except.map, String.append_empty]
  obtain ⟨hall, -⟩ :=
    run_installArgs_append framework bundleText selfText raises 0 (args.take (k + 1)) (args.drop (k + 1)) b hnext
  obtain ⟨rest, hrest⟩ := installArgs_returns framework bundleText selfText raises (0 + (args.take (k + 1)).length)
    (args.drop (k + 1))
        ((OsgiInstallCommand.installArgs framework bundleText selfText raises 0 (args.take (k + 1))).run b).state
  rw [List.take_append_drop, hrest] at hall
  have hafter' : (executed framework bundleText selfText raises b command (args.take (k + 1))).state =
      ((OsgiInstallCommand.installArg framework bundleText selfText (raises k) arg).run
        (executed framework bundleText selfText raises b command (args.take k)).state).state := hstate.trans hafter
  rw [← hafter']
  constructor
  · rintro ⟨text', line', rest', htext', hnext', -, htruthful⟩
    have hsame : text' = text := Except.ok.inj (htext'.symm.trans htext)
    have hlines : text' ++ (line' ++ "\n") = text ++ (line ++ "\n") := Except.ok.inj (hnext'.symm.trans hnext)
    rw [hsame, String.append_right_inj, String.append_left_inj] at hlines
    exact hlines ▸ htruthful
  · exact fun htruthful => ⟨text, line, rest, htext, hnext, hall, htruthful⟩

/-- An argument at the first place is reported as it should be only if it is reportable. -/
theorem reportable_of_reports (hframework : framework.Documented) {b : Bundles} {command arg : String} {args : List String}
    (h : Reports framework bundleText selfText raises b command (arg :: args) 0 arg) :
    Reportable framework (raises 0) b arg := by
  obtain ⟨line, hline, -⟩ := run_installArg framework (raises 0) bundleText selfText arg b
  exact (truthful_iff framework (raises 0) bundleText selfText hframework hline).mp
    ((reports_iff_truthful framework bundleText selfText raises rfl hline).mp h)

end Args

end Dynamy.Commands
