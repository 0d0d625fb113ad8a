import Dynamy.Java
import Dynamy.Lib.Prog

/-!
# Dynamy.Shell.ScriptingShellFactory — the scripting shell

The `run` of the shell's worker.  The handler is around `eval` alone: what a line's evaluation raises is printed and
the loop goes on.  At the end of the input `readLine` returns `null`, which none of the cases matches (`s: String` does
not match `null`), and the `MatchError` leaves the worker without the call of the exit callback.  `endsOnce_iff` says
which sessions end as they should.
-/

namespace Dynamy.Shell.ScriptingShellFactory

open Dynamy.Java Dynamy.Lib

/-- The outside of one session. -/
structure ScriptEnv where
  banner : String
  help : String
  /-- `getEngineByName(language)`, `null` if the language is unknown: what `eval` does with a line, given how many
  lines have been read -/
  engine : Option (ℕ → String → Except Throwable (Option String))
  /-- whether `destroy` has been called when the loop asks, given how many lines have been read -/
  destroyed : ℕ → Bool

inductive ScriptEvent
  | eval (line : String)
  | println (text : Option String)
  | printStackTrace (e : Throwable)
  | onExit (exitValue : ℤ)
  deriving DecidableEq

structure ScriptState where
  linesRead : ℕ := 0
  input : List String := []
  running : Bool := true

abbrev ScriptM : Type → Type := Prog ScriptEvent ScriptState Throwable

variable (env : ScriptEnv)

def printBanner : ScriptM Unit := do
  Prog.emit (.println (some "Welcome to Dynamy Scripting Console"))
  Prog.emit (.println (some env.banner))

def printHelp : ScriptM Unit := Prog.emit (.println (some env.help))

/-- `reader.readLine()`: `null` once the input has ended. -/
def readLine : ScriptM (Option String) := do
  let s ← Prog.read
  Prog.update fun s => { s with linesRead := s.linesRead + 1, input := s.input.tail }
  return s.input.head?

/-- `running.get()`, which `destroy` clears from outside. -/
def isRunning : ScriptM Bool := do
  let s ← Prog.read
  return s.running && !env.destroyed s.linesRead

/-- `engine.eval(s, context)` within its handler. -/
def evalLine (line : String) : ScriptM Unit :=
  Prog.attempt
    (do
      Prog.emit (.eval line)
      let engine ← Prog.ofExcept (deref env.engine)
      let s ← Prog.read
      let retValue ← Prog.ofExcept (engine s.linesRead line)
      Prog.emit (.println retValue))
    fun e => Prog.emit (.printStackTrace e)

/-- The cases that a line is matched with. -/
def processLine (line : String) : ScriptM Unit :=
  if line == "exit" then Prog.update fun s => { s with running := false }
  else if line == "help" then printHelp env
  else evalLine env line

/-- The body of the loop; `null` matches no case. -/
def loopBody : ScriptM Unit := do
  let line ← readLine
  match line with
  | some line => processLine env line
  | none => Prog.raise ⟨.matchError, none⟩

/-- `while (running.get()) ..`; the result says whether the loop has ended within the fuel. -/
def loop : ℕ → ScriptM Bool
  | 0 => return false
  | fuel + 1 => do
    if ← isRunning env then
      loopBody env
      loop fuel
    else
      return true

/-- The `run` of the worker. -/
def run (fuel : ℕ) : ScriptM Bool := do
  printBanner env
  if ← loop env fuel then
    Prog.update fun s => { s with running := false }
    Prog.emit (.onExit 0)
    return true
  else
    return false

/-! ### What is seen of a session -/

def ScriptEvent.asEval : ScriptEvent → Option String
  | .eval line => some line
  | _ => none

def ScriptEvent.isOnExit : ScriptEvent → Bool
  | .onExit _ => true
  | _ => false

/-- The lines before `exit`, other than `help`. -/
def toEvaluate (lines : List String) : List String := (lines.takeWhile (· != "exit")).filter (· != "help")

/-- From some fuel on the worker has returned, with one call of the exit callback, and has evaluated every line that
was to be evaluated, once and in order. -/
def EndsOnce (lines : List String) : Prop :=
  ∃ fuel, ∀ fuel' ≥ fuel,
    let o := (run env fuel').run { input := lines }
    o.result = .ok true ∧ (o.events.filter ScriptEvent.isOnExit).length = 1 ∧
      o.events.filterMap ScriptEvent.asEval = toEvaluate lines

/-! ### One pass of the loop -/

@[simp] theorem asEval_eval (line : String) : (ScriptEvent.eval line).asEval = some line := rfl

@[simp] theorem asEval_println (text : Option String) : (ScriptEvent.println text).asEval = none := rfl

@[simp] theorem asEval_onExit (exitValue : ℤ) : (ScriptEvent.onExit exitValue).asEval = none := rfl

@[simp] theorem isOnExit_println (text : Option String) : (ScriptEvent.println text).isOnExit = false := rfl

@[simp] theorem isOnExit_onExit (exitValue : ℤ) : (ScriptEvent.onExit exitValue).isOnExit = true := rfl

/-- Neither an evaluation nor the call of the exit callback. -/
def ScriptEvent.isOutput (w : ScriptEvent) : Prop := w.asEval = none ∧ w.isOnExit = false

theorem run_evalLine (line : String) (s : ScriptState) :
    ∃ w : ScriptEvent, w.isOutput ∧ (evalLine env line).run s = ⟨.ok (), s, [.eval line, w]⟩ := by
  cases hengine : env.engine with
  | none =>
    refine ⟨.printStackTrace ⟨.nullPointer, none⟩, ⟨rfl, rfl⟩, ?_⟩
    rw [evalLine, hengine]
    rfl
  | some engine =>
    cases heval : engine s.linesRead line with
    | ok retValue =>
      refine ⟨.println retValue, ⟨rfl, rfl⟩, ?_⟩
      rw [evalLine, hengine, Prog.run_attempt, Prog.run_emit_bind, deref_some, Prog.run_ok_bind, Prog.run_read_bind,
        heval]
      rfl
    | error e =>
      refine ⟨.printStackTrace e, ⟨rfl, rfl⟩, ?_⟩
      rw [evalLine, hengine, Prog.run_attempt, Prog.run_emit_bind, deref_some, Prog.run_ok_bind, Prog.run_read_bind,
        heval]
      rfl

/-- A line that is not `exit` is evaluated, unless it is `help`, and the loop goes on. -/
theorem run_processLine {line : String} (hexit : line ≠ "exit") (s : ScriptState) :
    ∃ es, (processLine env line).run s = ⟨.ok (), s, es⟩ ∧
      es.filterMap ScriptEvent.asEval = [line].filter (· != "help") ∧ ∀ w ∈ es, w.isOnExit = false := by
  have hnot : ¬ (line == "exit") = true := by simpa using hexit
  by_cases hhelp : line = "help"
  · subst hhelp
    refine ⟨[.println (some env.help)], ?_, rfl, by simp⟩
    rw [processLine, if_neg hnot, if_pos (beq_self_eq_true _)]
    rfl
  · obtain ⟨w, ⟨heval, hcallback⟩, hrun⟩ := run_evalLine env line s
    refine ⟨[.eval line, w], ?_, ?_, ?_⟩
    · rw [processLine, if_neg hnot, if_neg (by simpa using hhelp), hrun]
    · simp [heval, hhelp]
    · intro w' hw'
      rcases List.mem_cons.mp hw' with rfl | hw'
      · rfl
      · rwa [List.mem_singleton.mp hw']

variable {env}

theorem run_loop_of_stops {s : ScriptState} (h : s.running = false ∨ env.destroyed s.linesRead = true) (fuel : ℕ) :
    (loop env (fuel + 1)).run s = ⟨.ok true, s, []⟩ := by
  have hrunning : (isRunning env).run s = ⟨.ok false, s, []⟩ := by
    show (⟨.ok (s.running && !env.destroyed s.linesRead), s, []⟩ : Outcome _ _ _ _) = _
    rcases h with h | h <;> simp [h]
  rw [loop, Prog.run_bind_of_ok hrunning]
  rfl

theorem run_loop_of_runs {s : ScriptState} (hrunning : s.running = true) (h : env.destroyed s.linesRead = false)
    (fuel : ℕ) : (loop env (fuel + 1)).run s = (loopBody env >>= fun _ => loop env fuel).run s := by
  have hgoes : (isRunning env).run s = ⟨.ok true, s, []⟩ := by
    show (⟨.ok (s.running && !env.destroyed s.linesRead), s, []⟩ : Outcome _ _ _ _) = _
    simp [hrunning, h]
  rw [loop, Prog.run_bind_of_ok hgoes]
  rfl

/-- At the end of the input the worker dies of a `MatchError`. -/
theorem run_loop_nil {n : ℕ} (h : env.destroyed n = false) (fuel : ℕ) :
    (loop env (fuel + 1)).run ⟨n, [], true⟩ = ⟨.error ⟨.matchError, none⟩, ⟨n + 1, [], true⟩, []⟩ := by
  rw [run_loop_of_runs rfl h]
  rfl

theorem run_loop_exit {n : ℕ} (h : env.destroyed n = false) (rest : List String) (fuel : ℕ) :
    (loop env (fuel + 2)).run ⟨n, "exit" :: rest, true⟩ = ⟨.ok true, ⟨n + 1, rest, false⟩, []⟩ := by
  rw [run_loop_of_runs rfl h]
  have hbody : (loopBody env).run ⟨n, "exit" :: rest, true⟩ = ⟨.ok (), ⟨n + 1, rest, false⟩, []⟩ := rfl
  rw [Prog.run_bind_of_ok hbody, run_loop_of_stops (.inl rfl)]

theorem run_loop_cons {n : ℕ} {line : String} (h : env.destroyed n = false) (hexit : line ≠ "exit")
    (rest : List String) (fuel : ℕ) :
    ∃ es, es.filterMap ScriptEvent.asEval = [line].filter (· != "help") ∧ (∀ w ∈ es, w.isOnExit = false) ∧
      let o := (loop env fuel).run ⟨n + 1, rest, true⟩
      (loop env (fuel + 1)).run ⟨n, line :: rest, true⟩ = ⟨o.result, o.state, es ++ o.events⟩ := by
  obtain ⟨es, hrun, heval, hcallback⟩ := run_processLine env hexit ⟨n + 1, rest, true⟩
  have hbody : (loopBody env).run ⟨n, line :: rest, true⟩ = ⟨.ok (), ⟨n + 1, rest, true⟩, es⟩ := hrun
  refine ⟨es, heval, hcallback, ?_⟩
  rw [run_loop_of_runs rfl h, Prog.run_bind, hbody]

/-! ### The loop -/

/-- The lines that the loop evaluates when it asks for the first time after `n` lines. -/
def evaluated (destroyed : ℕ → Bool) : ℕ → List String → List String
  | _, [] => []
  | n, line :: rest =>
    if destroyed n || line == "exit" then [] else [line].filter (· != "help") ++ evaluated destroyed (n + 1) rest

/-- Whether the loop returns. -/
def returns (destroyed : ℕ → Bool) : ℕ → List String → Bool
  | n, [] => destroyed n
  | n, line :: rest => destroyed n || line == "exit" || returns destroyed (n + 1) rest

/-- **The loop**: it returns or dies of a `MatchError`, it evaluates what `evaluated` says, and the exit callback is not
called in it. -/
theorem run_loop (env : ScriptEnv) (lines : List String) (n fuel : ℕ) (hfuel : lines.length + 2 ≤ fuel) :
    let o := (loop env fuel).run ⟨n, lines, true⟩
    o.result = (if returns env.destroyed n lines then .ok true else .error ⟨.matchError, none⟩) ∧
      o.events.filterMap ScriptEvent.asEval = evaluated env.destroyed n lines ∧
        ∀ w ∈ o.events, w.isOnExit = false := by
  induction lines generalizing n fuel with
  | nil =>
    obtain ⟨fuel, rfl⟩ : ∃ k, fuel = k + 1 := ⟨fuel - 1, by omega⟩
    cases hd : env.destroyed n with
    | true =>
      rw [run_loop_of_stops (.inr hd)]
      simp [returns, evaluated, hd]
    | false =>
      rw [run_loop_nil hd]
      simp [returns, evaluated, hd]
  | cons line rest ih =>
    obtain ⟨fuel, rfl⟩ : ∃ k, fuel = k + 2 := ⟨fuel - 2, by omega⟩
    cases hd : env.destroyed n with
    | true =>
      rw [run_loop_of_stops (.inr hd)]
      simp [returns, evaluated, hd]
    | false =>
      by_cases hexit : line = "exit"
      · subst hexit
        rw [run_loop_exit hd]
        simp [returns, evaluated]
      · obtain ⟨es, heval, hcallback, hrun⟩ := run_loop_cons hd hexit rest (fuel + 1)
        obtain ⟨hresult, hevents, hquiet⟩ := ih (n + 1) (fuel + 1) (by rw [List.length_cons] at hfuel; omega)
        rw [hrun]
        refine ⟨?_, ?_, fun w hw => ?_⟩
        · simpa [returns, hd, hexit] using hresult
        · rw [List.filterMap_append, heval, hevents]
          simp [evaluated, hd, hexit]
        · rcases List.mem_append.mp hw with hw | hw
          · exact hcallback w hw
          · exact hquiet w hw

theorem returns_iff (destroyed : ℕ → Bool) (lines : List String) (n : ℕ) : returns destroyed n lines = true ↔
    "exit" ∈ lines ∨ ∃ i ≤ lines.length, destroyed (n + i) = true := by
  induction lines generalizing n with
  | nil => simp [returns]
  | cons line rest ih =>
    rw [returns, Bool.or_eq_true, Bool.or_eq_true, beq_iff_eq, ih, List.mem_cons]
    constructor
    · rintro ((hd | rfl) | hexit | ⟨i, hi, hd⟩)
      · exact .inr ⟨0, Nat.zero_le _, hd⟩
      · exact .inl (.inl rfl)
      · exact .inl (.inr hexit)
      · exact .inr ⟨i + 1, by simpa using hi, by rwa [show n + (i + 1) = n + 1 + i by omega]⟩
    · rintro ((hexit | hexit) | ⟨i, hi, hd⟩)
      · exact .inl (.inr hexit.symm)
      · exact .inr (.inl hexit)
      · cases i with
        | zero => exact .inl (.inl hd)
        | succ i => exact .inr (.inr ⟨i, by simpa using hi, by rwa [show n + 1 + i = n + (i + 1) by omega]⟩)

/-- Everything that was to be evaluated is, if `destroy` comes when nothing of it is left. -/
theorem evaluated_iff (destroyed : ℕ → Bool) (lines : List String) (n : ℕ) :
    evaluated destroyed n lines = toEvaluate lines ↔
      ∀ i, destroyed (n + i) = true → ((lines.takeWhile (· != "exit")).drop i).filter (· != "help") = [] := by
  induction lines generalizing n with
  | nil => simp [evaluated, toEvaluate]
  | cons line rest ih =>
    cases hd : destroyed n with
    | true =>
      have hnone : evaluated destroyed n (line :: rest) = [] := by simp [evaluated, hd]
      rw [hnone]
      constructor
      · intro hempty i _
        refine List.filter_eq_nil_iff.mpr fun l hl => ?_
        exact List.filter_eq_nil_iff.mp hempty.symm l (List.mem_of_mem_drop hl)
      · intro h
        exact (h 0 hd).symm
    | false =>
      by_cases hexit : line = "exit"
      · simp [evaluated, toEvaluate, hexit]
      · have hshift : ∀ i, n + (i + 1) = n + 1 + i := fun i => by omega
        have hcons : evaluated destroyed n (line :: rest) =
            [line].filter (· != "help") ++ evaluated destroyed (n + 1) rest := by simp [evaluated, hd, hexit]
        have hwant : toEvaluate (line :: rest) = [line].filter (· != "help") ++ toEvaluate rest := by
          simp [toEvaluate, hexit, List.filter_cons]
          split_ifs <;> rfl
        rw [hcons, hwant, List.append_cancel_left_eq, ih]
        constructor
        · intro h i hi
          cases i with
          | zero => rw [Nat.add_zero, hd] at hi; cases hi
          | succ i => simpa [hexit] using h i (by rwa [← hshift])
        · intro h i hi
          simpa [hexit] using h (i + 1) (by rwa [hshift])

/-! ### The session -/

/-- The worker's banner, its loop, and the call of the exit callback after a loop that has returned. -/
theorem run_run (env : ScriptEnv) (fuel : ℕ) (lines : List String) :
    let o := (loop env fuel).run { input := lines }
    (o.result = .ok true → (run env fuel).run { input := lines } =
      { result := .ok true
        state := { o.state with running := false }
        events := .println (some "Welcome to Dynamy Scripting Console") :: .println (some env.banner) ::
          (o.events ++ [.onExit 0]) }) ∧
      ∀ e, o.result = .error e → ((run env fuel).run { input := lines }).result = .error e := by
  intro o
  have hbanner : ∀ s, (printBanner env).run s =
      ⟨.ok (), s, [.println (some "Welcome to Dynamy Scripting Console"), .println (some env.banner)]⟩ := fun _ => rfl
  rcases hrun : (loop env fuel).run { input := lines } with ⟨r, s', es⟩
  have ho : o = ⟨r, s', es⟩ := hrun
  rw [run, Prog.run_bind, hbanner]
  dsimp only
  rw [Prog.run_bind, hrun, ho]
  constructor
  · intro hr
    obtain rfl : r = .ok true := hr
    rfl
  · intro e hr
    obtain rfl : r = .error e := hr
    rfl

/-- **When a scripting session ends.**  Whatever the engine does, the worker returns, calls the exit callback once and
has evaluated every line before `exit` or the end of the input but `help`, once and in order, if and only if one of the
lines is `exit` or `destroy` is called before the end of the input is read, and `destroy` leaves no such line unread. -/
theorem endsOnce_iff (env : ScriptEnv) (lines : List String) :
    EndsOnce env lines ↔ ("exit" ∈ lines ∨ ∃ n ≤ lines.length, env.destroyed n = true) ∧
      ∀ n, env.destroyed n = true → ((lines.takeWhile (· != "exit")).drop n).filter (· != "help") = [] := by
  have hreturns := returns_iff env.destroyed lines 0
  have hevaluated := evaluated_iff env.destroyed lines 0
  simp only [Nat.zero_add] at hreturns hevaluated
  rw [← hreturns, ← hevaluated]
  constructor
  · rintro ⟨fuel, hends⟩
    obtain ⟨hresult, -, hevals⟩ := hends (max fuel (lines.length + 2)) (le_max_left _ _)
    obtain ⟨hloop, hevents, -⟩ := run_loop env lines 0 _ (le_max_right fuel (lines.length + 2))
    obtain ⟨hok, herror⟩ := run_run env (max fuel (lines.length + 2)) lines
    by_cases hr : returns env.destroyed 0 lines = true
    · rw [if_pos hr] at hloop
      rw [hok hloop] at hevals
      refine ⟨hr, ?_⟩
      rw [← hevents, ← hevals]
      simp [List.filterMap_cons]
    · rw [if_neg hr] at hloop
      rw [herror _ hloop] at hresult
      cases hresult
  · rintro ⟨hr, hevals⟩
    refine ⟨lines.length + 2, fun fuel' hfuel => ?_⟩
    obtain ⟨hloop, hevents, hquiet⟩ := run_loop env lines 0 fuel' hfuel
    rw [if_pos hr] at hloop
    rw [(run_run env fuel' lines).1 hloop]
    have hnone : ((loop env fuel').run { input := lines }).events.filter ScriptEvent.isOnExit = [] := by
      rw [List.filter_eq_nil_iff]
      intro w hw
      simp [hquiet w hw]
    refine ⟨rfl, ?_, ?_⟩
    · simp [List.filter_cons, hnone]
    · rw [← hevals, ← hevents]
      simp [List.filterMap_cons]

/-- A client that evaluates one line and closes its input: the worker dies and the callback is not called. -/
theorem not_endsOnce : ¬ ∀ (env : ScriptEnv) (lines : List String), (∀ n, env.destroyed n = false) →
    EndsOnce env lines := by
  intro h
  obtain ⟨fuel, hends⟩ := h ⟨"", "", none, fun _ => false⟩ ["1 + 1"] fun _ => rfl
  obtain ⟨hresult, -, -⟩ := hends (max fuel 3) (le_max_left _ _)
  have hloop := (run_loop ⟨"", "", none, fun _ => false⟩ ["1 + 1"] 0 (max fuel 3) (le_max_right _ _)).1
  rw [(run_run _ (max fuel 3) ["1 + 1"]).2 ⟨.matchError, none⟩ hloop] at hresult
  cases hresult

end Dynamy.Shell.ScriptingShellFactory
