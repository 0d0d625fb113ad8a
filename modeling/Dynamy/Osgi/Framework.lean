import Dynamy.Lib.Prog
import Dynamy.Osgi.BundleDescriptor

/-!
# Dynamy.Osgi.Framework — installing bundles

The framework knows bundles by their locations.  It is not part of the repository: what its operations do is a
parameter, of which `Documented` says what is relied on.  Each of the three operations that an installation uses may
raise, as `raises` says, and then changes nothing.  `installDescriptor` is what the kernel and the command
`osgi:install` have in common: install, start if that is asked, and set the start level if there is one.
-/

namespace Dynamy.Osgi

open Dynamy.Java Dynamy.Lib

/-- An installed bundle; without a start level of its own it has the one that the framework gives.  `started` is the
autostart setting: it is set also where the start level lets the bundle wait. -/
structure BundleState where
  started : Bool := false
  startLevel : Option ℤ := none
  deriving DecidableEq, Repr

/-- The installed bundles, by location. -/
abbrev Bundles := String → Option BundleState

inductive FrameworkOp
  | installBundle (location : String)
  | start (location : String)
  | setStartLevel (location : String) (level : ℤ)
  deriving DecidableEq, Repr

/-- What the operations do to the bundles where they do not raise. -/
abbrev OsgiFramework := FrameworkOp → Bundles → Bundles

/-- What the documentation of OSGi promises of them. -/
structure OsgiFramework.Documented (framework : OsgiFramework) : Prop where
  installs : ∀ b location, (framework (.installBundle location) b location).isSome
  /-- a location that has a bundle keeps it -/
  keeps : ∀ b location, (b location).isSome → framework (.installBundle location) b = b
  starts : ∀ b location, (b location).isSome →
    ∃ s, framework (.start location) b location = some s ∧ s.started = true
  /-- a bundle that has been started is not changed by starting it -/
  started : ∀ b location s, b location = some s → s.started = true → framework (.start location) b = b
  /-- the level is recorded, and the autostart setting is not touched -/
  levels : ∀ b location s n, b location = some s → ∃ s', framework (.setStartLevel location n) b location = some s' ∧
    s'.startLevel = some n ∧ s'.started = s.started

/-- A framework that does no more than that. -/
def OsgiFramework.plain : OsgiFramework
  | .installBundle location, b => if (b location).isSome then b else Function.update b location (some {})
  | .start location, b => Function.update b location ((b location).map fun s => { s with started := true })
  | .setStartLevel location level, b =>
    Function.update b location ((b location).map fun s => { s with startLevel := some level })

theorem OsgiFramework.documented_plain : OsgiFramework.plain.Documented where
  installs b location := by
    by_cases h : (b location).isSome
    · simp [OsgiFramework.plain, h]
    · simp [OsgiFramework.plain, h]
  keeps b location h := if_pos h
  starts b location h := by
    obtain ⟨s, hs⟩ := Option.isSome_iff_exists.mp h
    exact ⟨{ s with started := true }, by simp [OsgiFramework.plain, hs], rfl⟩
  started b location s hs hstarted := by
    have hsame : (b location).map (fun s => { s with started := true }) = b location := by
      rw [hs, Option.map_some, ← hstarted]
    rw [OsgiFramework.plain, hsame, Function.update_eq_self]
  levels b location s n hs := ⟨{ s with startLevel := some n }, by simp [OsgiFramework.plain, hs], rfl, rfl⟩

inductive LogLevel
  | fine | info | error | severe
  deriving DecidableEq, Repr

/-- What can be seen of an installation: the calls of the framework and the log records. -/
inductive InstallEvent
  | call (op : FrameworkOp)
  | log (level : LogLevel) (message : String) (e : Option Throwable)
  deriving DecidableEq, Repr

abbrev InstallM : Type → Type := Prog InstallEvent Bundles Throwable

/-- `runlevel.toInt` -/
def toInt (s : String) : Except Throwable ℤ :=
  match parseInt s with
  | .ok n => .ok n
  | .error e => .error { e with message := some ("For input string: \"" ++ s ++ "\"") }

def log (level : LogLevel) (message : String) (e : Option Throwable) : InstallM Unit :=
  Prog.emit (.log level message e)

section Install

variable (framework : OsgiFramework) (raises : FrameworkOp → Option Throwable)

def perform (op : FrameworkOp) : InstallM Unit := do
  Prog.emit (.call op)
  match raises op with
  | some e => Prog.raise e
  | none => Prog.update (framework op)

/-- `if("start".equals(start)) ..` -/
def startIfAsked (started : List String) (d : Descriptor) : InstallM Unit :=
  if d.start = some "start" then do
    perform framework raises (.start d.url)
    Prog.each (fun m => log .info m none) started
  else return

/-- `if(runlevel != null) ..` -/
def setRunlevel (d : Descriptor) : InstallM Unit :=
  match d.runlevel with
  | some level => do
    let n ← Prog.ofExcept (toInt level)
    perform framework raises (.setStartLevel d.url n)
  | none => return

/-- The body of both handlers, with what each of them logs after the first and the second step. -/
def installDescriptor (installed started : List String) (d : Descriptor) : InstallM Unit := do
  perform framework raises (.installBundle d.url)
  Prog.each (fun m => log .info m none) installed
  startIfAsked framework raises started d
  setRunlevel framework raises d

end Install

/-! ### What does not depend on the bundles -/

section Uniform

variable (framework : OsgiFramework) (raises : FrameworkOp → Option Throwable)

theorem uniform_perform (op : FrameworkOp) : Prog.Uniform (perform framework raises op) := by
  refine (Prog.uniform_emit _).bind fun _ => ?_
  cases raises op with
  | some e => exact Prog.uniform_raise e
  | none => exact Prog.uniform_update _

theorem uniform_logs (messages : List String) :
    Prog.Uniform (Prog.each (fun m => log .info m none) messages : InstallM Unit) :=
  Prog.Uniform.each (fun _ => Prog.uniform_emit _) messages

theorem uniform_startIfAsked (started : List String) (d : Descriptor) :
    Prog.Uniform (startIfAsked framework raises started d) := by
  unfold startIfAsked
  split
  · exact (uniform_perform framework raises _).bind fun _ => uniform_logs _
  · exact Prog.uniform_pure _

theorem uniform_setRunlevel (d : Descriptor) : Prog.Uniform (setRunlevel framework raises d) := by
  unfold setRunlevel
  split
  · exact (Prog.uniform_ofExcept _).bind fun _ => uniform_perform framework raises _
  · exact Prog.uniform_pure _

/-- What is called and logged depends on what raises, but not on the bundles there are. -/
theorem uniform_installDescriptor (installed started : List String) (d : Descriptor) :
    Prog.Uniform (installDescriptor framework raises installed started d) :=
  (uniform_perform framework raises _).bind fun _ => (uniform_logs _).bind fun _ =>
    (uniform_startIfAsked framework raises started d).bind fun _ => uniform_setRunlevel framework raises d

end Uniform

/-! ### The operations -/

variable {framework : OsgiFramework} {raises : FrameworkOp → Option Throwable} {b : Bundles} {op : FrameworkOp}
  {e : Throwable}

theorem run_perform_bind {α : Type} (h : raises op = none) (f : Unit → InstallM α) (b : Bundles) :
    (perform framework raises op >>= f).run b =
      ⟨((f ()).run (framework op b)).result, ((f ()).run (framework op b)).state,
        .call op :: ((f ()).run (framework op b)).events⟩ := by
  rw [perform, bind_assoc, Prog.run_emit_bind, h, Prog.run_update_bind]

theorem run_perform_bind_of_raises {α : Type} (h : raises op = some e) (f : Unit → InstallM α) (b : Bundles) :
    (perform framework raises op >>= f).run b = ⟨.error e, b, [.call op]⟩ := by
  rw [perform, bind_assoc, Prog.run_emit_bind, h, Prog.run_raise_bind]

theorem run_logs_bind {α : Type} (messages : List String) (f : Unit → InstallM α) (b : Bundles) :
    (Prog.each (fun m => log .info m none) messages >>= f).run b =
      ⟨((f ()).run b).result, ((f ()).run b).state,
        messages.map (fun m => .log .info m none) ++ ((f ()).run b).events⟩ := by
  induction messages with
  | nil => rfl
  | cons m messages ih =>
    rw [Prog.each, bind_assoc, log, Prog.run_emit_bind, ih]
    rfl

/-- What operations come to that are done one after the other. -/
def OsgiFramework.applyAll (framework : OsgiFramework) (ops : List FrameworkOp) (b : Bundles) : Bundles :=
  ops.foldl (fun b op => framework op b) b

/-- `p` performs these operations in this order, up to the first one that raises, and ends as that does. -/
def Performs (framework : OsgiFramework) (raises : FrameworkOp → Option Throwable) (p : InstallM Unit)
    (ops : List FrameworkOp) : Prop :=
  ∀ b, (p.run b).state = framework.applyAll (ops.takeWhile fun op => (raises op).isNone) b ∧
    ((p.run b).result = .ok () ↔ ∀ op ∈ ops, raises op = none)

section Performs

variable {p : InstallM Unit} {ops : List FrameworkOp}

theorem performs_pure : Performs framework raises (pure ()) [] :=
  fun _ => ⟨rfl, iff_of_true rfl fun _ hop => absurd hop List.not_mem_nil⟩

theorem Performs.logs_bind (hp : Performs framework raises p ops) (messages : List String) :
    Performs framework raises (Prog.each (fun m => log .info m none) messages >>= fun _ => p) ops := by
  intro b
  rw [run_logs_bind]
  exact hp b

theorem Performs.perform_bind (hp : Performs framework raises p ops) (op : FrameworkOp) :
    Performs framework raises (perform framework raises op >>= fun _ => p) (op :: ops) := by
  intro b
  cases h : raises op with
  | some e =>
    rw [run_perform_bind_of_raises h, List.takeWhile_cons_of_neg (by rw [h]; exact Bool.false_ne_true)]
    refine ⟨rfl, iff_of_false (by rintro ⟨⟩) fun hall => ?_⟩
    rw [hall op List.mem_cons_self] at h
    cases h
  | none =>
    obtain ⟨hstate, hresult⟩ := hp (framework op b)
    rw [run_perform_bind h, List.takeWhile_cons_of_pos (by rw [h]; rfl), List.forall_mem_cons]
    exact ⟨hstate, hresult.trans (and_iff_right h).symm⟩

end Performs

/-- The level that is asked for, if there is one. -/
def levelOf (d : Descriptor) : Except Throwable (Option ℤ) :=
  match d.runlevel with
  | some text => some <$> toInt text
  | none => .ok none

def levelOps (location : String) : Option ℤ → List FrameworkOp
  | some n => [.setStartLevel location n]
  | none => []

/-- The operations for a descriptor. -/
def descriptorOps (d : Descriptor) (level : Option ℤ) : List FrameworkOp :=
  .installBundle d.url :: ((if d.start = some "start" then [.start d.url] else []) ++ levelOps d.url level)

theorem levelOf_eq_ok {d : Descriptor} {level : Option ℤ} : levelOf d = .ok level ↔
    d.runlevel = none ∧ level = none ∨ ∃ text n, d.runlevel = some text ∧ toInt text = .ok n ∧ level = some n := by
  rw [levelOf]
  cases hlevel : d.runlevel with
  | none =>
    constructor
    · intro h
      exact .inl ⟨rfl, (Except.ok.inj h).symm⟩
    · rintro (⟨-, rfl⟩ | ⟨text, n, htext, -⟩)
      · rfl
      · cases htext
  | some text =>
    constructor
    · intro h
      obtain ⟨n, hn, hsome⟩ := of_bind_eq_ok h
      exact .inr ⟨text, n, rfl, hn, (Except.ok.inj hsome).symm⟩
    · rintro (⟨hnone, -⟩ | ⟨text', n, htext, hn, rfl⟩)
      · cases hnone
      · rw [Option.some.inj htext]
        dsimp only
        rw [hn]
        rfl

theorem performs_setRunlevel {d : Descriptor} {level : Option ℤ} (h : levelOf d = .ok level) :
    Performs framework raises (setRunlevel framework raises d) (levelOps d.url level) := by
  rw [setRunlevel]
  rcases levelOf_eq_ok.mp h with ⟨hnone, rfl⟩ | ⟨text, n, htext, hn, rfl⟩
  · rw [hnone]
    exact performs_pure
  · rw [htext]
    dsimp only
    rw [hn, Prog.ofExcept_ok_bind, ← bind_pure_unit (x := perform framework raises (.setStartLevel d.url n))]
    exact performs_pure.perform_bind (.setStartLevel d.url n)

/-- What a descriptor leads to, if its level is an `Int`. -/
theorem performs_installDescriptor {d : Descriptor} {level : Option ℤ} (h : levelOf d = .ok level)
    (installed started : List String) :
    Performs framework raises (installDescriptor framework raises installed started d) (descriptorOps d level) := by
  have hrest : Performs framework raises (setRunlevel framework raises d) (levelOps d.url level) := performs_setRunlevel h
  refine Performs.perform_bind (Performs.logs_bind ?_ installed) (.installBundle d.url)
  unfold startIfAsked
  split
  · rw [bind_assoc]
    exact (hrest.logs_bind started).perform_bind (.start d.url)
  · exact hrest

end Dynamy.Osgi
