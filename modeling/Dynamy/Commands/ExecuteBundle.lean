import Dynamy.Java
import Dynamy.Lib.Prog
import Mathlib.Data.List.Forall2

/-!
# Dynamy.Commands.ExecuteBundle — the commands that work on bundles by their ids

`osgi:start`, `stop`, `restart`, `update`, `uninstall`, `refresh` and `resolve` share `OsgiBundleCommand.execute`: for
each argument the bundle with that id is looked up and worked on, and whatever is raised becomes the argument's line.
The framework changes at any time, as the shell's outside does: every question is answered by the framework of its own
moment.  `execute_reports` says what each argument leads to, in order, and `Reported.truthful` that a line claims an
operation exactly where all of it was done.
-/

namespace Dynamy.Commands

open Dynamy.Java Dynamy.Lib

/-- What the commands do with a bundle; the last two are calls of `PackageAdmin`. -/
inductive BundleOp
  | start | stop | update | uninstall | refreshPackages | resolveBundles
  deriving DecidableEq, Repr

/-- The framework at one moment.  Contexts, service references and services are numbers. -/
structure Framework (Bundle : Type) where
  /-- `FrameworkUtil.getBundle(classOf[OsgiListCommand]).getBundleContext().getBundles()` -/
  getBundles : Except Throwable (List Bundle)
  getBundleContext : Bundle → Option ℕ
  /-- `bc.getServiceReference(classOf[PackageAdmin])` -/
  getServiceReference : ℕ → Except Throwable (Option ℕ)
  getService : ℕ → Option ℕ → Except Throwable (Option ℕ)
  /-- what the operation raises, if it fails; the answer of `resolveBundles` is not read -/
  raises : BundleOp → Bundle → Option Throwable

/-- The framework over time, with the ids of its bundles. -/
structure Console (Bundle : Type) where
  getBundleId : Bundle → ℤ
  framework : ℕ → Framework Bundle

/-- What can be seen: the operations, with what they raised, and the log records. -/
inductive BundleEvent (Bundle : Type)
  | call (op : BundleOp) (b : Bundle) (raised : Option Throwable)
  | error (message : String) (e : Throwable)
  deriving DecidableEq

/-- The state is how often the framework was asked. -/
abbrev BundleM (Bundle : Type) : Type → Type := Prog (BundleEvent Bundle) ℕ Throwable

section Commands

variable {Bundle : Type} (k : Console Bundle)

/-- Put one question to the framework. -/
def asks {α : Type} (question : Framework Bundle → Except Throwable α) : BundleM Bundle α := do
  let clock ← Prog.read
  Prog.update (· + 1)
  Prog.ofExcept (question (k.framework clock))

def performs (op : BundleOp) (b : Bundle) : BundleM Bundle Unit := do
  let raised ← asks k fun f => .ok (f.raises op b)
  Prog.emit (.call op b raised)
  match raised with
  | some e => Prog.raise e
  | none => return

/-- `"Bundle " + b.getBundleId() + " started"` and the like. -/
def doneMessage (bundleId : ℤ) (done : String) : String := "Bundle " ++ toString bundleId ++ done

/-- A class that extends `OsgiBundleCommand`. -/
structure OsgiBundleCommand (Bundle : Type) where
  executeBundle : Bundle → BundleM Bundle String
  exceptionMessage : String → Throwable → String

/-- Operations on the bundle itself. -/
def bundleOperations (ops : List BundleOp) (done : String) (b : Bundle) : BundleM Bundle String := do
  Prog.each (fun op => performs k op b) ops
  return doneMessage (k.getBundleId b) done

/-- An operation of the `PackageAdmin` that the bundle itself sees. -/
def packageOperation (op : BundleOp) (done : String) (b : Bundle) : BundleM Bundle String := do
  let bc ← asks k fun f => deref (f.getBundleContext b)
  let sr ← asks k fun f => f.getServiceReference bc
  let packageAdmin ← asks k fun f => f.getService bc sr
  let _ ← Prog.ofExcept (deref packageAdmin)
  performs k op b
  return doneMessage (k.getBundleId b) done

/-- `"Unable to start bundle " + arg + ": " + e.getMessage()` and the like. -/
def unableMessage (verb arg : String) (e : Throwable) : String :=
  "Unable to " ++ verb ++ " bundle " ++ arg ++ ": " ++ e.message.getD "null"

def OsgiStartCommand : OsgiBundleCommand Bundle where
  executeBundle := bundleOperations k [.start] " started"
  exceptionMessage := unableMessage "start"

def OsgiStopCommand : OsgiBundleCommand Bundle where
  executeBundle := bundleOperations k [.stop] " stopped"
  exceptionMessage := unableMessage "stop"

def OsgiRestartCommand : OsgiBundleCommand Bundle where
  executeBundle := bundleOperations k [.stop, .start] " restarted"
  exceptionMessage := unableMessage "restart"

def OsgiUpdateCommand : OsgiBundleCommand Bundle where
  executeBundle := bundleOperations k [.update] " updated"
  exceptionMessage := unableMessage "update"

def OsgiUninstallCommand : OsgiBundleCommand Bundle where
  executeBundle := bundleOperations k [.uninstall] " uninstalled"
  exceptionMessage := unableMessage "uninstall"

def OsgiRefreshCommand : OsgiBundleCommand Bundle where
  executeBundle := packageOperation k .refreshPackages " refreshed"
  exceptionMessage := unableMessage "refresh"

def OsgiResolveCommand : OsgiBundleCommand Bundle where
  executeBundle := packageOperation k .resolveBundles " resolved"
  exceptionMessage := unableMessage "resolve"

def notFoundMessage (bundleId : ℤ) : String := "Bundle " ++ toString bundleId ++ " not found"

/-- The body of the loop over the arguments. -/
def OsgiBundleCommand.executeArg (command : OsgiBundleCommand Bundle) (arg : String) : BundleM Bundle String :=
  Prog.attempt
    (do
      let bundleId ← Prog.ofExcept (parseLong arg)
      let bundles ← asks k (·.getBundles)
      match bundles.filter fun b => k.getBundleId b == bundleId with
      | b :: _ => command.executeBundle b
      | [] => return notFoundMessage bundleId)
    fun e => do
      Prog.emit (.error "Cannot execute bundle operation" e)
      return command.exceptionMessage arg e

/-- `execute`; the first word is the one of the command. -/
def OsgiBundleCommand.execute (command : OsgiBundleCommand Bundle) (args : List String) : BundleM Bundle String :=
  match args with
  | [] => Prog.raise ⟨.unsupportedOperation, some "tail of empty list"⟩
  | _ :: argsOnly => do
    let results ← argsOnly.mapM (command.executeArg k)
    return "\n".intercalate results

/-- The commands on bundles. -/
inductive BundleCommand
  | start | stop | restart | update | uninstall | refresh | resolve
  deriving DecidableEq, Repr

def BundleCommand.command : BundleCommand → OsgiBundleCommand Bundle
  | .start => OsgiStartCommand k
  | .stop => OsgiStopCommand k
  | .restart => OsgiRestartCommand k
  | .update => OsgiUpdateCommand k
  | .uninstall => OsgiUninstallCommand k
  | .refresh => OsgiRefreshCommand k
  | .resolve => OsgiResolveCommand k

end Commands

/-! ### What an argument leads to -/

namespace BundleCommand

/-- What the command is for. -/
def operations : BundleCommand → List BundleOp
  | .start => [.start]
  | .stop => [.stop]
  | .restart => [.stop, .start]
  | .update => [.update]
  | .uninstall => [.uninstall]
  | .refresh => [.refreshPackages]
  | .resolve => [.resolveBundles]

def verb : BundleCommand → String
  | .start => "start"
  | .stop => "stop"
  | .restart => "restart"
  | .update => "update"
  | .uninstall => "uninstall"
  | .refresh => "refresh"
  | .resolve => "resolve"

def done : BundleCommand → String
  | .start => " started"
  | .stop => " stopped"
  | .restart => " restarted"
  | .update => " updated"
  | .uninstall => " uninstalled"
  | .refresh => " refreshed"
  | .resolve => " resolved"

end BundleCommand

variable {Bundle : Type} {k : Console Bundle} {command : BundleCommand} {arg : String} {b : Bundle}

/-- The operations were performed, and none raised. -/
def returned (b : Bundle) (ops : List BundleOp) : List (BundleEvent Bundle) := ops.map (.call · b none)

/-- The operations up to the one that raised `e`, or none of them. -/
inductive Broken (b : Bundle) (ops : List BundleOp) (e : Throwable) : List (BundleEvent Bundle) → Prop
  | early : Broken b ops e []
  | raised {before : List BundleOp} {op : BundleOp} (h : before ++ [op] <+: ops) :
      Broken b ops e (returned b before ++ [.call op b (some e)])

/-- At some moment the bundle is there, and at some moment no bundle with this id. -/
def Console.Has (k : Console Bundle) (b : Bundle) : Prop :=
  ∃ clock bundles, (k.framework clock).getBundles = .ok bundles ∧ b ∈ bundles

def Console.Lacks (k : Console Bundle) (bundleId : ℤ) : Prop :=
  ∃ clock bundles, (k.framework clock).getBundles = .ok bundles ∧ ∀ b ∈ bundles, k.getBundleId b ≠ bundleId

/-- The `PackageAdmin` is found through the context of the bundle, which only a bundle has that is started, starting or
stopping. -/
def Console.Opens (k : Console Bundle) (b : Bundle) : BundleOp → Prop
  | .refreshPackages | .resolveBundles => ∃ clock bc, (k.framework clock).getBundleContext b = some bc
  | _ => True

/-- What the command may do for an argument, and the line it then gives. -/
inductive Reported (k : Console Bundle) (command : BundleCommand) (arg : String) :
    String × List (BundleEvent Bundle) → Prop
  | done {b : Bundle} (h : parseLong arg = .ok (k.getBundleId b)) (hb : k.Has b)
      (hopen : ∀ op ∈ command.operations, k.Opens b op) : Reported k command arg
        (doneMessage (k.getBundleId b) command.done, returned b command.operations)
  | broken {b : Bundle} {e : Throwable} {es : List (BundleEvent Bundle)} (h : parseLong arg = .ok (k.getBundleId b))
      (hb : k.Has b) (hes : Broken b command.operations e es)
      (hopen : es = [] ∨ ∀ op ∈ command.operations, k.Opens b op) : Reported k command arg
        (unableMessage command.verb arg e, es ++ [.error "Cannot execute bundle operation" e])
  | unknown {bundleId : ℤ} (h : parseLong arg = .ok bundleId) (hb : k.Lacks bundleId) :
      Reported k command arg (notFoundMessage bundleId, [])
  | refused {e : Throwable} : Reported k command arg
      (unableMessage command.verb arg e, [.error "Cannot execute bundle operation" e])

/-- An answer of the framework at some moment, then the rest. -/
theorem emits_asks_bind {α β : Type} {question : Framework Bundle → Except Throwable α} {f : α → BundleM Bundle β}
    {R : Except Throwable β → List (BundleEvent Bundle) → Prop}
    (he : ∀ clock e, question (k.framework clock) = .error e → R (.error e) [])
    (hf : ∀ clock a, question (k.framework clock) = .ok a → Prog.Emits (f a) R) :
    Prog.Emits (asks k question >>= f) R := by
  intro s
  rw [asks, bind_assoc, Prog.run_read_bind, bind_assoc, Prog.run_update_bind]
  cases h : question (k.framework s) with
  | ok a => exact hf s a h (s + 1)
  | error e => exact he s e h

theorem emits_performs (op : BundleOp) (b : Bundle) : Prog.Emits (performs k op b) fun r es =>
    r = .ok () ∧ es = returned b [op] ∨ ∃ e, r = .error e ∧ es = [.call op b (some e)] := by
  refine emits_asks_bind (fun clock e h => by cases h) fun clock raised _ => Prog.emits_emit_bind ?_
  cases raised with
  | none => exact Prog.emits_pure (.inl ⟨rfl, rfl⟩)
  | some e => exact fun s => .inr ⟨e, rfl, rfl⟩

/-- The operations one by one, to the end or to the first that raises. -/
theorem emits_each (b : Bundle) (ops : List BundleOp) :
    Prog.Emits (Prog.each (fun op => performs k op b) ops) fun r es =>
      r = .ok () ∧ es = returned b ops ∨ ∃ e before op, r = .error e ∧ before ++ [op] <+: ops ∧
        es = returned b before ++ [.call op b (some e)] := by
  induction ops with
  | nil => exact Prog.emits_pure (.inl ⟨rfl, rfl⟩)
  | cons op ops ih =>
    refine (emits_performs op b).bind (fun e es he => ?_) fun u es hes => ?_
    · rcases he with ⟨he, -⟩ | ⟨e', he, rfl⟩
      · cases he
      · cases he
        exact .inr ⟨e, [], op, rfl, ⟨ops, rfl⟩, rfl⟩
    · rcases hes with ⟨-, rfl⟩ | ⟨e, he, -⟩
      · intro s
        rcases ih s with ⟨hr, hes⟩ | ⟨e, before, op', hr, hpre, hes⟩
        · exact .inl ⟨hr, by rw [hes]; rfl⟩
        · exact .inr ⟨e, op :: before, op', hr, List.cons_prefix_cons.mpr ⟨rfl, hpre⟩, by rw [hes]; rfl⟩
      · cases he

/-- What an operation on a bundle ends with. -/
def Executed (k : Console Bundle) (ops : List BundleOp) (done : String) (b : Bundle) (r : Except Throwable String)
    (es : List (BundleEvent Bundle)) : Prop :=
  r = .ok (doneMessage (k.getBundleId b) done) ∧ es = returned b ops ∧ (∀ op ∈ ops, k.Opens b op) ∨
    ∃ e, r = .error e ∧ Broken b ops e es ∧ (es = [] ∨ ∀ op ∈ ops, k.Opens b op)

theorem emits_bundleOperations {ops : List BundleOp} (hopen : ∀ op ∈ ops, k.Opens b op) (done : String) :
    Prog.Emits (bundleOperations k ops done b) (Executed k ops done b) := by
  refine (emits_each b ops).bind (fun e es he => ?_) fun u es hes => Prog.emits_pure ?_
  · rcases he with ⟨he, -⟩ | ⟨e', before, op, he, hpre, rfl⟩
    · cases he
    · cases he
      exact .inr ⟨e, rfl, .raised hpre, .inr hopen⟩
  · rcases hes with ⟨-, rfl⟩ | ⟨e, before, op, he, -⟩
    · exact .inl ⟨rfl, List.append_nil _, hopen⟩
    · cases he

theorem emits_packageOperation {op : BundleOp} (hop : op = .refreshPackages ∨ op = .resolveBundles) (done : String) :
    Prog.Emits (packageOperation k op done b) (Executed k [op] done b) := by
  -- before the operation nothing is seen
  have hearly : ∀ e, Executed k [op] done b (.error e) [] := fun e => .inr ⟨e, rfl, .early, .inl rfl⟩
  refine emits_asks_bind (fun _ e _ => hearly e) fun clock bc hbc => ?_
  have hopen : ∀ op' ∈ [op], k.Opens b op' := by
    intro op' hop'
    obtain rfl := List.mem_singleton.mp hop'
    cases hcontext : (k.framework clock).getBundleContext b with
    | none => rw [hcontext] at hbc; cases hbc
    | some bc => rcases hop with rfl | rfl <;> exact ⟨clock, bc, hcontext⟩
  refine emits_asks_bind (fun _ e _ => hearly e) fun _ sr _ => emits_asks_bind (fun _ e _ => hearly e)
    fun _ packageAdmin _ => Prog.emits_ofExcept_bind (fun e _ => hearly e) fun _ _ =>
      (emits_performs op b).bind (fun e es he => ?_) fun u es hes => Prog.emits_pure ?_
  · rcases he with ⟨he, -⟩ | ⟨e', he, rfl⟩
    · cases he
    · cases he
      have hbroken : Broken b [op] e (returned b [] ++ [.call op b (some e)]) := .raised (List.prefix_refl _)
      exact .inr ⟨e, rfl, hbroken, .inr hopen⟩
  · rcases hes with ⟨-, rfl⟩ | ⟨e, he, -⟩
    · exact .inl ⟨rfl, List.append_nil _, hopen⟩
    · cases he

theorem emits_executeBundle (command : BundleCommand) (b : Bundle) :
    Prog.Emits ((command.command k).executeBundle b) (Executed k command.operations command.done b) := by
  cases command with
  | refresh => exact emits_packageOperation (.inl rfl) _
  | resolve => exact emits_packageOperation (.inr rfl) _
  | restart =>
    refine emits_bundleOperations (fun op hop => ?_) _
    rcases List.mem_pair.mp hop with rfl | rfl <;> exact trivial
  | _ => exact emits_bundleOperations (fun op hop => List.mem_singleton.mp hop ▸ trivial) _

theorem exceptionMessage_eq (command : BundleCommand) :
    (command.command k).exceptionMessage = unableMessage command.verb := by cases command <;> rfl

/-- One argument: a line, whatever is raised. -/
theorem emits_executeArg (command : BundleCommand) (arg : String) :
    Prog.Emits ((command.command k).executeArg k arg) fun r es => ∃ line, r = .ok line ∧
      Reported k command arg (line, es) := by
  have hbody : Prog.Emits
      (do
        let bundleId ← Prog.ofExcept (parseLong arg)
        let bundles ← asks k (·.getBundles)
        match bundles.filter fun b => k.getBundleId b == bundleId with
        | b :: _ => (command.command k).executeBundle b
        | [] => return notFoundMessage bundleId)
      fun r es => (∃ bundleId, (parseLong arg = .ok bundleId ∧ k.Lacks bundleId) ∧ r = .ok (notFoundMessage bundleId) ∧
          es = []) ∨
        (∃ b, (parseLong arg = .ok (k.getBundleId b) ∧ k.Has b) ∧
          Executed k command.operations command.done b r es) ∨ ∃ e, r = .error e ∧ es = [] := by
    refine Prog.emits_ofExcept_bind (fun e _ => .inr (.inr ⟨e, rfl, rfl⟩)) fun bundleId hid => ?_
    refine emits_asks_bind (fun _ e _ => .inr (.inr ⟨e, rfl, rfl⟩)) fun clock bundles hbundles => ?_
    cases hfound : bundles.filter fun b => k.getBundleId b == bundleId with
    | nil =>
      have hlacks : ∀ b ∈ bundles, k.getBundleId b ≠ bundleId := by simpa using hfound
      exact Prog.emits_pure (.inl ⟨bundleId, ⟨hid, clock, bundles, hbundles, hlacks⟩, rfl, rfl⟩)
    | cons b rest =>
      have hmem : b ∈ bundles.filter fun b => k.getBundleId b == bundleId := hfound ▸ List.mem_cons_self
      obtain ⟨hb, hbid⟩ := List.mem_filter.mp hmem
      obtain rfl : k.getBundleId b = bundleId := by simpa using hbid
      exact fun s => .inr (.inl ⟨b, ⟨hid, clock, bundles, hbundles, hb⟩, emits_executeBundle command b s⟩)
  have hmessage := exceptionMessage_eq (k := k) command
  refine hbody.attempt (fun line es h => ?_) fun e es h s => ?_
  · rcases h with ⟨bundleId, hid, hline, rfl⟩ | ⟨b, hid, ⟨hline, rfl, hopen⟩ | ⟨e, he, -⟩⟩ | ⟨e, he, -⟩
    · cases hline
      exact ⟨_, rfl, .unknown hid.1 hid.2⟩
    · cases hline
      exact ⟨_, rfl, .done hid.1 hid.2 hopen⟩
    · cases he
    · cases he
  · refine ⟨unableMessage command.verb arg e, by rw [hmessage]; rfl, ?_⟩
    rcases h with ⟨bundleId, -, hline, -⟩ | ⟨b, hid, ⟨hline, -⟩ | ⟨e', he, hes, hopen⟩⟩ | ⟨e', he, rfl⟩
    · cases hline
    · cases hline
    · cases he
      exact .broken hid.1 hid.2 hes hopen
    · exact .refused

/-! ### What a line says -/

theorem doneMessage_inj {m n : ℤ} {done : String} (h : doneMessage m done = doneMessage n done) : m = n := by
  refine toString_int_inj (String.toList_inj.mp ?_)
  have hlists := congrArg String.toList h
  simpa [doneMessage, String.toList_append] using hlists

/-- The one ends with `ed`, the other with `nd`. -/
theorem doneMessage_ne_notFoundMessage (m n : ℤ) (command : BundleCommand) :
    doneMessage m command.done ≠ notFoundMessage n := by
  intro h
  have hdone : ∀ l : List Char, (command.done.toList.reverse ++ l)[1]? = some 'e' := by
    cases command <;> exact fun l => rfl
  have hfound : ∀ l : List Char, (" not found".toList.reverse ++ l)[1]? = some 'n' := fun l => rfl
  have hlast := congrArg (fun s => s.toList.reverse[1]?) h
  simp only [doneMessage, notFoundMessage, String.toList_append, List.reverse_append, hdone, hfound] at hlast
  exact absurd hlast (by decide)

/-- Only the line for an exception begins with `U`. -/
theorem bundleMessage_ne_unableMessage (m : ℤ) (text verb arg : String) (e : Throwable) :
    "Bundle " ++ toString m ++ text ≠ unableMessage verb arg e := by
  intro h
  have hbundle : ∀ l : List Char, ("Bundle ".toList ++ l).head? = some 'B' := fun l => rfl
  have hunable : ∀ l : List Char, ("Unable to ".toList ++ l).head? = some 'U' := fun l => rfl
  have hfirst := congrArg (fun s => s.toList.head?) h
  simp only [unableMessage, String.toList_append, List.append_assoc, hbundle, hunable] at hfirst
  exact absurd hfirst (by decide)

/-- What a line says is true, and nothing is done to any other bundle. -/
structure BundleCommand.Truthful (command : BundleCommand) (k : Console Bundle) (arg line : String)
    (es : List (BundleEvent Bundle)) : Prop where
  claims : ∀ bundleId, line = doneMessage bundleId command.done ↔ parseLong arg = .ok bundleId ∧
    ∃ b, k.Has b ∧ k.getBundleId b = bundleId ∧ es = returned b command.operations
  misses : ∀ bundleId, line = notFoundMessage bundleId → parseLong arg = .ok bundleId ∧ k.Lacks bundleId ∧ es = []
  named : ∀ op b raised, .call op b raised ∈ es →
    k.Has b ∧ parseLong arg = .ok (k.getBundleId b) ∧ op ∈ command.operations ∧ k.Opens b op

theorem mem_returned {ops : List BundleOp} {op : BundleOp} {b' : Bundle} {raised : Option Throwable}
    (h : BundleEvent.call op b' raised ∈ returned b ops) : b' = b ∧ op ∈ ops := by
  obtain ⟨op', hop', heq⟩ := List.mem_map.mp h
  cases heq
  exact ⟨rfl, hop'⟩

theorem Broken.named {ops : List BundleOp} {e : Throwable} {es : List (BundleEvent Bundle)} (h : Broken b ops e es)
    {op : BundleOp} {b' : Bundle} {raised : Option Throwable} (hop : .call op b' raised ∈ es) : b' = b ∧ op ∈ ops := by
  cases h with
  | early => cases hop
  | @raised before op' hpre =>
    rcases List.mem_append.mp hop with hop | hop
    · obtain ⟨hb, hop⟩ := mem_returned hop
      exact ⟨hb, hpre.subset (List.mem_append_left _ hop)⟩
    · cases List.mem_singleton.mp hop
      exact ⟨rfl, hpre.subset (List.mem_append_right _ List.mem_cons_self)⟩

/-- The line for an exception is true if what was done is named. -/
theorem truthful_of_error (es : List (BundleEvent Bundle)) {e : Throwable}
    (hnamed : ∀ op b raised, .call op b raised ∈ es →
      k.Has b ∧ parseLong arg = .ok (k.getBundleId b) ∧ op ∈ command.operations ∧ k.Opens b op) :
    command.Truthful k arg (unableMessage command.verb arg e) (es ++ [.error "Cannot execute bundle operation" e]) where
  claims bundleId := by
    refine iff_of_false (fun h => bundleMessage_ne_unableMessage _ _ _ _ _ h.symm) ?_
    -- there is a log record, which is no operation
    rintro ⟨-, b, -, -, hes⟩
    have hmem : BundleEvent.error "Cannot execute bundle operation" e ∈ returned b command.operations :=
      hes ▸ List.mem_append_right es List.mem_cons_self
    obtain ⟨op, -, hop⟩ := List.mem_map.mp hmem
    cases hop
  misses bundleId h := absurd h.symm (bundleMessage_ne_unableMessage _ _ _ _ _)
  named op b raised hop := by
    rcases List.mem_append.mp hop with hop | hop
    · exact hnamed op b raised hop
    · cases List.mem_singleton.mp hop

theorem Reported.truthful {p : String × List (BundleEvent Bundle)} (h : Reported k command arg p) :
    command.Truthful k arg p.1 p.2 := by
  cases h with
  | @done b h hb hopen =>
    refine ⟨fun bundleId => ⟨fun hline => ?_, ?_⟩, fun bundleId hline => ?_, fun op b' raised hop => ?_⟩
    · obtain rfl := doneMessage_inj hline
      exact ⟨h, b, hb, rfl, rfl⟩
    · rintro ⟨hid, -⟩
      rw [h, Except.ok.injEq] at hid
      rw [hid]
    · exact absurd hline (doneMessage_ne_notFoundMessage _ _ _)
    · obtain ⟨hb', hop'⟩ := mem_returned hop
      exact hb' ▸ ⟨hb, h, hop', hopen op hop'⟩
  | @broken b e es h hb hes hopen =>
    refine truthful_of_error _ fun op b' raised hop => ?_
    obtain ⟨hb', hop'⟩ := hes.named hop
    rcases hopen with rfl | hopen
    · cases hop
    · exact hb' ▸ ⟨hb, h, hop', hopen op hop'⟩
  | @unknown n h hlacks =>
    refine ⟨fun bundleId => iff_of_false (fun hline => doneMessage_ne_notFoundMessage _ _ _ hline.symm) ?_,
      fun bundleId hline => ?_, fun op b' raised hop => by cases hop⟩
    · rintro ⟨-, b, -, -, hes⟩
      cases command <;> cases hes
    · obtain rfl : n = bundleId := doneMessage_inj hline
      exact ⟨h, hlacks, rfl⟩
  | refused =>
    exact truthful_of_error [] fun op b raised hop => by cases hop

/-- With the word of the command before them, the arguments each get one line, in their order. -/
theorem emits_execute (command : BundleCommand) (word : String) (args : List String) :
    Prog.Emits ((command.command k).execute k (word :: args)) fun r es =>
      ∃ reports : List (String × List (BundleEvent Bundle)), List.Forall₂ (Reported k command) args reports ∧
        r = .ok ("\n".intercalate (reports.map Prod.fst)) ∧ es = reports.flatMap Prod.snd := by
  have hall := Prog.Emits.mapM (f := (command.command k).executeArg k) (emits_executeArg command) args
  refine hall.bind (fun e es ⟨_, _, he, _⟩ => nomatch he) fun results es ⟨reports, hreports, hr, hes⟩ => ?_
  cases hr
  exact Prog.emits_pure ⟨reports, hreports, rfl, by rw [List.append_nil, hes]⟩

/-- **The report.**  With the word of the command before them, the arguments each get one line, in their order, and
what is done is what is done for the first, then for the second, and so on: no argument keeps another from its turn.  A
line claims the operation on a bundle exactly if it was done, in full and without an exception, on the bundle with the
id that the argument gives, and no other bundle is touched for it; the `PackageAdmin` is not reached for a bundle that
never has a context. -/
theorem execute_reports (k : Console Bundle) (command : BundleCommand) (word : String) (args : List String) (s : ℕ) :
    ∃ reports : List (String × List (BundleEvent Bundle)),
      List.Forall₂ (fun arg p => command.Truthful k arg p.1 p.2) args reports ∧
      (((command.command k).execute k (word :: args)).run s).result = .ok ("\n".intercalate (reports.map Prod.fst)) ∧
      (((command.command k).execute k (word :: args)).run s).events = reports.flatMap Prod.snd := by
  obtain ⟨reports, hreports, hrun⟩ := emits_execute command word args s
  exact ⟨reports, hreports.imp fun _ _ h => h.truthful, hrun⟩

/-! ### A small framework -/

/-- A framework that stays as it is: the bundles are their ids, and nothing fails. -/
def stillConsole (bundles : List ℤ) : Console ℤ where
  getBundleId := id
  framework _ :=
    { getBundles := .ok bundles
      getBundleContext := fun _ => some 0
      getServiceReference := fun _ => .ok (some 0)
      getService := fun _ _ => .ok (some 0)
      raises := fun _ _ => none }

example : (((BundleCommand.restart.command (stillConsole [0, 7])).execute (stillConsole [0, 7])
    ["osgi:restart", "7", "8", "x"]).run 0).events =
      [.call .stop 7 none, .call .start 7 none, .error "Cannot execute bundle operation"
        ⟨.numberFormat, some "For input string: \"x\""⟩] := by
  decide

end Dynamy.Commands
