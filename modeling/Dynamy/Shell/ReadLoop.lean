import Dynamy.Shell.Authorisation

/-!
# Dynamy.Shell.ReadLoop — when the interactive loop ends

The loop ends by the word `exit` and by `destroy`, and by nothing else: at the end of the input `readLine` returns
`null`, dereferencing it raises, and the handler in the loop goes on with the next `null`.  Everything a line does
besides that is framed (`Inner`): time passes, the input not read yet and the flag stay as they are, and the exit
callback is not called.
-/

namespace Dynamy.Shell

open Dynamy.Java Dynamy.Lib

variable {Ref Cmd : Type}

/-! ### Inside a line -/

def ShellEvent.isOnExit : ShellEvent Cmd → Bool
  | .onExit _ _ => true
  | _ => false

/-- Time passes, nothing else changes. -/
def Frame (s s' : ShellState) : Prop := s.clock ≤ s'.clock ∧ s'.input = s.input ∧ s'.running = s.running

instance : Std.Refl Frame := ⟨fun _ => ⟨le_rfl, rfl, rfl⟩⟩

instance : IsTrans ShellState Frame :=
  ⟨fun _ _ _ h h' => ⟨h.1.trans h'.1, h'.2.1.trans h.2.1, h'.2.2.trans h.2.2⟩⟩

/-- A part of the work on one line. -/
abbrev Inner {α : Type} (p : ShellM Cmd α) : Prop := Prog.Within Frame (fun w => w.isOnExit = false) p

theorem inner_emit {w : ShellEvent Cmd} (h : w.isOnExit = false) : Inner (Prog.emit w) := Prog.within_emit h

section Inner

variable (env : Env Ref Cmd)

theorem inner_ask {α : Type} (question : World Ref Cmd → Except Throwable α) : Inner (ask env question) :=
  Prog.within_read.bind fun _ =>
    (Prog.within_update fun s => ⟨Nat.le_succ s.clock, rfl, rfl⟩).bind fun _ => Prog.within_ofExcept _

theorem inner_getServices (refs : List Ref) : Inner (getServices env refs) := by
  induction refs with
  | nil => exact Prog.within_pure _
  | cons ref refs ih => exact (inner_ask env _).bind fun _ => ih.bind fun _ => Prog.within_pure _

theorem inner_getCommands : Inner (getCommands env) := (inner_ask env _).bind fun _ => inner_getServices env _

theorem inner_isAlias (fullAlias : String) : Inner (isAlias env fullAlias) := by
  unfold isAlias
  split
  · exact (inner_getCommands env).bind fun _ => (Prog.within_ofExcept _).bind fun _ => Prog.within_pure _
  · exact Prog.within_pure _

theorem inner_getCommandForAlias (fullAlias : String) : Inner (getCommandForAlias env fullAlias) := by
  unfold getCommandForAlias
  split
  · refine (inner_getCommands env).bind fun _ => (Prog.within_ofExcept _).bind fun c => ?_
    cases c with
    | none => exact Prog.within_pure _
    | some c => exact (Prog.within_ofExcept _).bind fun _ => Prog.within_pure _
  · exact Prog.within_pure _

theorem inner_resolveAlias (word : String) : Inner (resolveAlias env word) := by
  refine (inner_isAlias env word).bind fun b => ?_
  cases b with
  | false => exact Prog.within_pure _
  | true => exact inner_getCommandForAlias env word

theorem inner_getCommand (fullName : String) : Inner (getCommand env fullName) := by
  have hlookup : Inner (lookupCommand env fullName) := by
    unfold lookupCommand
    split
    · refine (inner_ask env _).bind fun refs => ?_
      split
      · exact Prog.within_pure _
      · exact inner_ask env _
      · exact Prog.within_raise _
    · exact Prog.within_pure _
  exact hlookup.bind fun _ => (inner_emit (by rfl)).bind fun _ => Prog.within_pure _

theorem inner_permittedCollection (ps : List String) : Inner (permittedCollection env ps) := by
  induction ps with
  | nil => exact Prog.within_pure _
  | cons p ps ih =>
    exact (inner_ask env _).bind fun _ => (inner_emit (by rfl)).bind fun _ => ih.bind fun _ => Prog.within_pure _

theorem inner_permitted (c : DynamyCommandHelper Cmd) : Inner (permitted env c) := by
  refine (Prog.within_ofExcept _).bind fun m => (inner_permittedCollection env _).bind fun answers => ?_
  split
  · exact (inner_ask env _).bind fun _ => (inner_emit (by rfl)).bind fun _ => Prog.within_pure _
  · exact Prog.within_pure _

theorem inner_executePermitted (c : DynamyCommandHelper Cmd) (args : List String) :
    Inner (executePermitted env c args) := by
  refine (inner_permitted env c).bind fun b => ?_
  cases b with
  | false => exact inner_emit (by rfl)
  | true =>
    have hexecute : Inner (c.execute env args) :=
      (Prog.within_ofExcept _).bind fun _ => (inner_emit (by rfl)).bind fun _ => inner_ask env _
    refine hexecute.bind fun data => ?_
    cases data with
    | none => exact Prog.within_pure _
    | some text => exact inner_emit (by rfl)

theorem inner_dispatch (args : List String) (word : String) : Inner (dispatch env args word) := by
  refine (inner_resolveAlias env word).bind fun commandString => ?_
  cases commandString with
  | none => exact inner_emit (by rfl)
  | some commandString =>
    have hisCommand : Inner (isCommand env commandString) :=
      (inner_getCommand env commandString).bind fun _ => Prog.within_pure _
    refine hisCommand.bind fun b => ?_
    cases b with
    | false => exact inner_emit (by rfl)
    | true => exact (inner_getCommand env commandString).bind fun _ => inner_executePermitted env _ args

theorem inner_printHelpLines (w w' : ℤ) (cs : List (DynamyCommandHelper Cmd)) :
    Inner (printHelpLines env w w' cs) := by
  induction cs with
  | nil => exact Prog.within_pure _
  | cons c cs ih =>
    exact (Prog.within_ofExcept _).bind fun _ => (Prog.within_ofExcept _).bind fun _ =>
      (Prog.within_ofExcept _).bind fun _ => (inner_emit (by rfl)).bind fun _ => ih

theorem inner_printHelp : Inner (printHelp env) := by
  have hwidth : Inner (getWidth env) := by
    refine (inner_ask env _).bind fun columns => ?_
    split
    · exact Prog.within_pure _
    · split <;> exact Prog.within_pure _
  exact (inner_emit (by rfl)).bind fun _ => (inner_emit (by rfl)).bind fun _ => hwidth.bind fun _ =>
    (inner_getCommands env).bind fun _ => (Prog.within_ofExcept _).bind fun _ =>
      (Prog.within_ofExcept _).bind fun _ => (inner_getCommands env).bind fun _ => inner_printHelpLines env _ _ _

/-! ### A line -/

/-- The first word of the trimmed line is `exit`. -/
def exits (line : String) : Bool := (splitSpaces (trim line))[0]? == some "exit"

/-- The `try` block of the loop. -/
def lineBody (env : Env Ref Cmd) : ShellM Cmd Unit := do
  let line ← readLine
  let line ← Prog.ofExcept (deref line)
  let commandString := trim line
  if commandString.length > 0 then processLine env commandString else return

theorem loopBody_eq : loopBody env = Prog.attempt (lineBody env) fun e => Prog.emit (.printStackTrace e) := rfl

theorem inner_processLine {line : String} (h : exits line = false) : Inner (processLine env (trim line)) := by
  have hne : (splitSpaces (trim line))[0]? ≠ some "exit" := by simpa [exits] using h
  rw [processLine]
  cases hword : (splitSpaces (trim line))[0]? with
  | none =>
    rw [arrayAt_of_none hword, Prog.ofExcept_error_bind]
    exact Prog.within_raise _
  | some word =>
    have hexit : ¬ (word == "exit") = true := by
      rw [hword] at hne
      simpa using hne
    rw [arrayAt_of_some hword, Prog.ofExcept_ok_bind, if_neg hexit]
    split_ifs
    · exact (inner_emit (by rfl)).bind fun _ => inner_emit (by rfl)
    · exact inner_printHelp env
    · exact inner_dispatch env _ word

/-- What follows the reading of a line. -/
theorem run_lineBody (s : ShellState) : (lineBody env).run s =
    let o := Prog.run (do
      let line ← Prog.ofExcept (deref s.input.head?)
      let commandString := trim line
      if commandString.length > 0 then processLine env commandString else return)
      { s with input := s.input.tail }
    ⟨o.result, o.state, .line s.input.head? :: o.events⟩ := rfl

theorem trim_length_pos_of_exits {line : String} (h : exits line) : (trim line).length > 0 := by
  by_contra hle
  have hempty : trim line = "" := by
    rw [← String.length_eq_zero_iff]
    omega
  rw [exits, hempty] at h
  exact absurd h (by decide)

/-- `exit` clears the flag and does nothing else. -/
theorem run_lineBody_exit {s : ShellState} {line : String} (hline : s.input.head? = some line) (hexit : exits line) :
    (lineBody env).run s = ⟨.ok (), { s with input := s.input.tail, running := false }, [.line (some line)]⟩ := by
  have hword : arrayAt (splitSpaces (trim line)) 0 = .ok "exit" := by
    have hfirst : (splitSpaces (trim line))[0]? = some "exit" := by simpa [exits] using hexit
    rw [arrayAt, hfirst]
  have hprocess : processLine env (trim line) = Prog.update fun s => { s with running := false } := by
    rw [processLine, hword]
    rfl
  rw [run_lineBody, hline, deref_some, Prog.run_ok_bind, if_pos (trim_length_pos_of_exits hexit), hprocess]
  rfl

/-- Any other line, and the end of the input, takes its line and otherwise only time. -/
theorem lineBody_frame {s : ShellState} (h : ∀ line, s.input.head? = some line → exits line = false) :
    Frame { s with input := s.input.tail } ((lineBody env).run s).state ∧
      ∀ w ∈ ((lineBody env).run s).events, w.isOnExit = false := by
  have hinner : Inner (do
      let line ← Prog.ofExcept (deref s.input.head?)
      let commandString := trim line
      if commandString.length > 0 then processLine env commandString else return) := by
    cases hline : s.input.head? with
    | none =>
      rw [deref_none, Prog.ofExcept_error_bind]
      exact Prog.within_raise _
    | some line =>
      rw [deref_some, Prog.ofExcept_ok_bind]
      dsimp only
      split_ifs
      · exact inner_processLine env (h line hline)
      · exact Prog.within_pure _
  obtain ⟨hframe, hevents⟩ := hinner { s with input := s.input.tail }
  rw [run_lineBody]
  refine ⟨hframe, fun w hw => ?_⟩
  rcases List.mem_cons.mp hw with rfl | hw
  · rfl
  · exact hevents w hw

/-- **One pass of the loop**: a line is taken, time passes, the flag is cleared by `exit` alone, and the exit callback
is not called. -/
theorem loopBody_spec (s : ShellState) :
    ((loopBody env).run s).result = .ok () ∧ s.clock ≤ ((loopBody env).run s).state.clock ∧
      ((loopBody env).run s).state.input = s.input.tail ∧
      ((loopBody env).run s).state.running = (s.running && !s.input.head?.any exits) ∧
      ∀ w ∈ ((loopBody env).run s).events, w.isOnExit = false := by
  rw [loopBody_eq, Prog.run_attempt]
  by_cases hexit : ∃ line, s.input.head? = some line ∧ exits line = true
  · obtain ⟨line, hline, hexit⟩ := hexit
    rw [run_lineBody_exit env hline hexit]
    refine ⟨rfl, le_rfl, rfl, ?_, ?_⟩
    · simp [hline, hexit]
    · simp [ShellEvent.isOnExit]
  · have hno : ∀ line, s.input.head? = some line → exits line = false := by
      intro line hline
      by_contra h
      exact hexit ⟨line, hline, by simpa using h⟩
    have hany : s.input.head?.any exits = false := by
      cases hline : s.input.head? with
      | none => rfl
      | some line => exact hno line hline
    have hframe := lineBody_frame env hno
    rcases hrun : (lineBody env).run s with ⟨r, s', es⟩
    rw [hrun] at hframe
    obtain ⟨⟨hclock, hinput, hrunning⟩, hevents⟩ := hframe
    have hflag : s'.running = (s.running && !s.input.head?.any exits) := by
      rw [hany]
      simpa using hrunning
    cases r with
    | ok a => exact ⟨rfl, hclock, hinput, hflag, hevents⟩
    | error e =>
      refine ⟨rfl, hclock, hinput, hflag, fun w hw => ?_⟩
      rcases List.mem_append.mp hw with hw | hw
      · exact hevents w hw
      · rw [List.mem_singleton.mp hw]
        rfl

/-! ### The loop -/

/-- The loop's condition at a state. -/
def Stops (s : ShellState) : Prop := s.running = false ∨ (env.world s.clock).destroyed = true

theorem run_isRunning (s : ShellState) : (isRunning env).run s =
    ⟨.ok (s.running && !(env.world s.clock).destroyed), { s with clock := s.clock + 1 }, []⟩ := rfl

/-- One turn of the loop from a state in which it goes on: a pass of the body, then the loop again. -/
theorem run_loop_of_not_stops {s : ShellState} (h : ¬ Stops env s) (fuel : ℕ) :
    let o := (loopBody env).run { s with clock := s.clock + 1 }
    (loop env (fuel + 1)).run s =
      { (loop env fuel).run o.state with events := o.events ++ ((loop env fuel).run o.state).events } := by
  have hrunning : (s.running && !(env.world s.clock).destroyed) = true := by
    simpa [Stops, not_or] using h
  have hok := (loopBody_spec env { s with clock := s.clock + 1 }).1
  rw [loop, Prog.run_bind_of_ok (run_isRunning env s), hrunning, if_pos rfl, Prog.run_bind]
  rcases hrun : (loopBody env).run { s with clock := s.clock + 1 } with ⟨r, s', es⟩
  rw [hrun] at hok
  obtain rfl : r = .ok () := hok
  rfl

theorem run_loop_of_stops {s : ShellState} (h : Stops env s) (fuel : ℕ) :
    (loop env (fuel + 1)).run s = ⟨.ok true, { s with clock := s.clock + 1 }, []⟩ := by
  have hrunning : (s.running && !(env.world s.clock).destroyed) = false := by
    rcases h with h | h <;> simp [h]
  rw [loop, Prog.run_bind_of_ok (run_isRunning env s), hrunning]
  rfl

theorem loop_noExit (fuel : ℕ) (s : ShellState) : ∀ w ∈ ((loop env fuel).run s).events, w.isOnExit = false := by
  induction fuel generalizing s with
  | zero => exact fun w hw => (List.not_mem_nil hw).elim
  | succ fuel ih =>
    by_cases hstop : Stops env s
    · rw [run_loop_of_stops env hstop]
      exact fun w hw => (List.not_mem_nil hw).elim
    · rw [run_loop_of_not_stops env hstop]
      intro w hw
      rcases List.mem_append.mp hw with hw | hw
      · exact (loopBody_spec env _).2.2.2.2 w hw
      · exact ih _ w hw

/-- A cleared flag ends the loop at once, and `exit` in the input when its line is reached. -/
theorem loop_ends_of_exit {fuel : ℕ} {s : ShellState} (hfuel : s.input.length < fuel)
    (h : s.running = false ∨ ∃ line ∈ s.input, exits line = true) : ((loop env fuel).run s).result = .ok true := by
  induction fuel generalizing s with
  | zero => omega
  | succ fuel ih =>
    by_cases hstop : Stops env s
    · rw [run_loop_of_stops env hstop]
    · rw [run_loop_of_not_stops env hstop]
      obtain ⟨-, -, hinput, hrunning, -⟩ := loopBody_spec env { s with clock := s.clock + 1 }
      obtain ⟨line, hline, hexit⟩ := h.resolve_left fun hr => hstop (.inl hr)
      obtain ⟨first, rest, hs⟩ := List.exists_cons_of_ne_nil (List.ne_nil_of_mem hline)
      refine ih ?_ ?_
      · rw [hinput, hs, List.tail_cons]
        rw [hs, List.length_cons] at hfuel
        omega
      · rw [hinput, hrunning, hs]
        rw [hs] at hline
        rcases List.mem_cons.mp hline with hfirst | hrest
        · left
          rw [List.head?_cons, Option.any_some, ← hfirst, hexit]
          simp
        · exact .inr ⟨line, hrest, hexit⟩

/-- `destroy` clears the flag for good. -/
def DestroyLasts : Prop :=
  ∀ t t', t ≤ t' → (env.world t).destroyed = true → (env.world t').destroyed = true

theorem loop_ends_of_destroyed (hlast : DestroyLasts env) {fuel t : ℕ} {s : ShellState}
    (ht : (env.world t).destroyed = true) (hfuel : t ≤ s.clock + fuel) :
    ((loop env (fuel + 1)).run s).result = .ok true := by
  induction fuel generalizing s with
  | zero =>
    have hstop : Stops env s := .inr (hlast t s.clock hfuel ht)
    rw [run_loop_of_stops env hstop]
  | succ fuel ih =>
    by_cases hstop : Stops env s
    · rw [run_loop_of_stops env hstop]
    · rw [run_loop_of_not_stops env hstop]
      have hclock := (loopBody_spec env { s with clock := s.clock + 1 }).2.1
      refine ih ?_
      dsimp only at hclock
      omega

/-- Without either the loop is never done. -/
theorem loop_goes_on (fuel : ℕ) {s : ShellState} (hrunning : s.running = true)
    (hexit : ∀ line ∈ s.input, exits line = false) (hdestroyed : ∀ t, (env.world t).destroyed = false) :
    ((loop env fuel).run s).result = .ok false := by
  induction fuel generalizing s with
  | zero => rfl
  | succ fuel ih =>
    have hstop : ¬ Stops env s := by
      rintro (h | h)
      · rw [hrunning] at h
        cases h
      · rw [hdestroyed] at h
        cases h
    rw [run_loop_of_not_stops env hstop]
    obtain ⟨-, -, hinput, hflag, -⟩ := loopBody_spec env { s with clock := s.clock + 1 }
    refine ih ?_ ?_
    · rw [hflag, hrunning]
      cases hs : s.input with
      | nil => rfl
      | cons first rest => simp [hexit first (by simp [hs])]
    · intro line hline
      rw [hinput] at hline
      exact hexit line (List.mem_of_mem_tail hline)

/-! ### The session -/

/-- From some fuel on the worker has returned, with one call of the exit callback. -/
def EndsOnce (lines : List String) : Prop :=
  ∃ fuel, ∀ fuel' ≥ fuel, ((DynamyShellFactory.run env fuel').run { input := lines }).result = .ok true ∧
    (((DynamyShellFactory.run env fuel').run { input := lines }).events.filter ShellEvent.isOnExit).length = 1

/-- A line whose processing raises leaves nothing behind: the loop goes on, a little later, with the lines after it. -/
def RaisingLinesIsolated : Prop :=
  ∀ s, ¬ Stops env s → ∀ e, ((lineBody env).run { s with clock := s.clock + 1 }).result = .error e →
    ∃ own t, s.clock < t ∧ ∀ fuel,
      let after := (loop env fuel).run { clock := t, input := s.input.tail, running := true }
      (loop env (fuel + 1)).run s = { after with events := own ++ after.events }

theorem raisingLinesIsolated : RaisingLinesIsolated env := by
  intro s hstop e hraise
  have hno : ∀ line, s.input.head? = some line → exits line = false := by
    intro line hline
    by_contra hexit
    rw [run_lineBody_exit env (s := { s with clock := s.clock + 1 }) hline (by simpa using hexit)] at hraise
    cases hraise
  have hrunning : s.running = true := by
    by_contra h
    exact hstop (.inl (by simpa using h))
  obtain ⟨-, hclock, hinput, hflag, -⟩ := loopBody_spec env { s with clock := s.clock + 1 }
  have hstate : ((loopBody env).run { s with clock := s.clock + 1 }).state =
      { clock := ((loopBody env).run { s with clock := s.clock + 1 }).state.clock, input := s.input.tail,
        running := true } := by
    have hflag' : ((loopBody env).run { s with clock := s.clock + 1 }).state.running = true := by
      rw [hflag, hrunning]
      cases hhead : s.input.head? with
      | none => rfl
      | some line => simp [hno line hhead]
    rw [← hinput, ← hflag']
  refine ⟨((loopBody env).run { s with clock := s.clock + 1 }).events, _, hclock, fun fuel => ?_⟩
  rw [run_loop_of_not_stops env hstop, ← hstate]

/-- The worker's banner, its loop, and the call of the exit callback once the loop is done. -/
theorem run_run (fuel : ℕ) (lines : List String) :
    let o := (loop env fuel).run { input := lines }
    ∀ b, o.result = .ok b → (DynamyShellFactory.run env fuel).run { input := lines } =
      { result := .ok b
        state := if b then { o.state with running := false } else o.state
        events := .println (some "Welcome to Dynamy OSGi Console") :: .println (some env.banner) ::
          (o.events ++ if b then [.onExit 0 none] else []) } := by
  intro o b hb
  have hbanner : ∀ s : ShellState, (printBanner env).run s =
      ⟨.ok (), s, [.println (some "Welcome to Dynamy OSGi Console"), .println (some env.banner)]⟩ := fun _ => rfl
  rcases hrun : (loop env fuel).run { input := lines } with ⟨r, s', es⟩
  have ho : o = ⟨r, s', es⟩ := hrun
  rw [ho] at hb ⊢
  obtain rfl : r = .ok b := hb
  rw [DynamyShellFactory.run, Prog.run_bind, hbanner]
  dsimp only
  rw [Prog.run_bind, hrun]
  cases b <;> rfl

theorem filter_isOnExit_nil {es : List (ShellEvent Cmd)} (h : ∀ w ∈ es, w.isOnExit = false) :
    es.filter ShellEvent.isOnExit = [] := by
  rw [List.filter_eq_nil_iff]
  intro w hw
  simp [h w hw]

/-- **When a session ends.**  A shell on some lines followed by the end of the input returns and calls the exit
callback exactly once, and keeps every raising line to itself, if and only if one of the lines is `exit` or the
session is destroyed at some time. -/
theorem run_endsOnce_iff (hlast : DestroyLasts env) (lines : List String) :
    (EndsOnce env lines ∧ RaisingLinesIsolated env) ↔
      (∃ line ∈ lines, exits line = true) ∨ ∃ t, (env.world t).destroyed = true := by
  constructor
  · rintro ⟨⟨fuel, hends⟩, -⟩
    by_contra hno
    rw [not_or] at hno
    obtain ⟨hexit, hdestroyed⟩ := hno
    have hfalse := loop_goes_on env fuel (s := { input := lines }) rfl
      (fun line hline => by simpa using fun h => hexit ⟨line, hline, h⟩)
      (fun t => by simpa using fun h => hdestroyed ⟨t, h⟩)
    have hres := (hends fuel le_rfl).1
    rw [run_run env fuel lines false hfalse] at hres
    cases hres
  · intro h
    refine ⟨?_, raisingLinesIsolated env⟩
    have hdone : ∃ fuel, ∀ fuel' ≥ fuel, ((loop env fuel').run { input := lines }).result = .ok true := by
      rcases h with h | ⟨t, ht⟩
      · exact ⟨lines.length + 1, fun fuel' hfuel => loop_ends_of_exit env hfuel (.inr h)⟩
      · refine ⟨t + 1, fun fuel' hfuel => ?_⟩
        obtain ⟨n, rfl⟩ : ∃ n, fuel' = n + 1 := ⟨fuel' - 1, by omega⟩
        exact loop_ends_of_destroyed env hlast ht (by simp only [Nat.zero_add]; omega)
    obtain ⟨fuel, hdone⟩ := hdone
    refine ⟨fuel, fun fuel' hfuel => ?_⟩
    rw [run_run env fuel' lines true (hdone fuel' hfuel)]
    refine ⟨rfl, ?_⟩
    have hloop := filter_isOnExit_nil (loop_noExit env fuel' { input := lines })
    have hcall : ([.onExit 0 none] : List (ShellEvent Cmd)).filter ShellEvent.isOnExit = [.onExit 0 none] := rfl
    simp [ShellEvent.isOnExit, hloop, hcall]

end Inner

/-! ### A silent client -/

/-- No command is registered and the session is never destroyed. -/
def quietEnv : Env Unit Unit where
  annotationOf _ := none
  banner := ""
  world _ :=
    { getServiceReferences := fun _ => .ok []
      getService := fun _ => none
      isPermitted := fun _ => .ok false
      hasAllRoles := fun _ => .ok false
      execute := fun _ _ => .ok none
      destroyed := false
      columns := none }

theorem quietEnv_destroyLasts : DestroyLasts quietEnv := fun _ _ _ h => h

theorem run_endsOnce_iff_quit :
    (EndsOnce quietEnv ["help", "exit"] ∧ RaisingLinesIsolated quietEnv) ↔
      (∃ line ∈ ["help", "exit"], exits line = true) ∨ ∃ t, (quietEnv.world t).destroyed = true :=
  run_endsOnce_iff quietEnv quietEnv_destroyLasts ["help", "exit"]

/-- A client that closes its input without a word keeps the worker busy for ever. -/
theorem run_not_endsOnce :
    ¬ ∀ (env : Env Unit Unit) (lines : List String), DestroyLasts env →
      EndsOnce env lines ∧ RaisingLinesIsolated env := by
  intro h
  obtain ⟨⟨fuel, hends⟩, -⟩ := h quietEnv [] quietEnv_destroyLasts
  have hfalse := loop_goes_on quietEnv fuel (s := { input := [] }) rfl
    (fun _ hline => (List.not_mem_nil hline).elim) (fun _ => rfl)
  have hres := (hends fuel le_rfl).1
  rw [run_run quietEnv fuel [] false hfalse] at hres
  cases hres

end Dynamy.Shell
