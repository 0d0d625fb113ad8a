import Dynamy.Shell.DynamyShellFactory
import Dynamy.Shell.DynamyCommandFactory

/-!
# Dynamy.Shell.Authorisation — no execution without its check

Both dispatchers, over any outside that changes at any moment: an execution of a command object directly follows the
complete successful check of that very object's annotation, itself within the request that the execution is for
(`licensed_run`, `licensed_execRequests`).  So a refused check, an unknown word or a lookup that finds nothing ends its
request without an execution.  The argument goes along the programs: `Quiet` parts execute nothing, and a dispatch is
quiet except for one execution at the end of a licence.
-/

namespace Dynamy.Shell

open Dynamy.Java Dynamy.Lib

variable {Ref Cmd : Type}

/-! ### Licensed traces -/

def ShellEvent.isExecute : ShellEvent Cmd → Prop
  | .execute _ _ => True
  | _ => False

/-- A failed permission or role check, or a word that resolved to no command. -/
def ShellEvent.refuses : ShellEvent Cmd → Prop
  | .isPermitted _ answer => answer = false
  | .hasAllRoles _ answer => answer = false
  | .found _ command => command = none
  | _ => False

/-- No command is executed. -/
def Quiet (es : List (ShellEvent Cmd)) : Prop := ∀ w ∈ es, ¬ w.isExecute

/-- The complete successful check of an annotation. -/
def checks (m : DynamyCommandMeta) : List (ShellEvent Cmd) :=
  m.perms.map (.isPermitted · true) ++ [.hasAllRoles m.roles true]

/-- What a request does up to the execution of `c`: the word resolves to a command, the lookup for use finds `c`, and
the check of the annotation of `c` succeeds. -/
def licence (text : Option String) (word : String) (c' c : Cmd) (m : DynamyCommandMeta) : List (ShellEvent Cmd) :=
  .line text :: .found word (some c') :: .found word (some c) :: checks m

variable (annotationOf : Cmd → Option DynamyCommandMeta)

/-- The history ends with a licence to execute `c`. -/
def Licensed (history : List (ShellEvent Cmd)) (c : Cmd) : Prop :=
  ∃ before text word c' m, annotationOf c = some m ∧ history = before ++ licence text word c' c m

/-- Every execution in the trace is licensed by what happened before. -/
def AllLicensed (es : List (ShellEvent Cmd)) : Prop :=
  ∀ pre c args post, es = pre ++ .execute c args :: post → Licensed annotationOf pre c

/-- Between a refusal and the next execution a new request begins. -/
def RefusalsHold (es : List (ShellEvent Cmd)) : Prop :=
  ∀ pre w mid c args post, es = pre ++ w :: (mid ++ .execute c args :: post) → w.refuses →
    ∃ text, .line text ∈ mid

variable {annotationOf} {es es₁ es₂ : List (ShellEvent Cmd)}

theorem quiet_nil : Quiet ([] : List (ShellEvent Cmd)) := fun _ hw => (List.not_mem_nil hw).elim

theorem Quiet.cons {w : ShellEvent Cmd} (hw : ¬ w.isExecute) (h : Quiet es) : Quiet (w :: es) := by
  intro x hx
  rcases List.mem_cons.mp hx with rfl | hx
  · exact hw
  · exact h x hx

theorem Quiet.line {text : Option String} (h : Quiet es) : Quiet (.line text :: es) := h.cons (by exact id)

theorem Quiet.append (h₁ : Quiet es₁) (h₂ : Quiet es₂) : Quiet (es₁ ++ es₂) := by
  intro w hw
  rcases List.mem_append.mp hw with h | h
  · exact h₁ w h
  · exact h₂ w h

theorem quiet_checks (m : DynamyCommandMeta) : Quiet (checks m : List (ShellEvent Cmd)) := by
  intro w hw
  simp only [checks, List.mem_append, List.mem_map, List.mem_singleton] at hw
  rcases hw with ⟨p, -, rfl⟩ | rfl <;> exact id

theorem quiet_licence (text : Option String) (word : String) (c' c : Cmd) (m : DynamyCommandMeta) :
    Quiet (licence text word c' c m) := by
  intro w hw
  simp only [licence, List.mem_cons] at hw
  rcases hw with rfl | rfl | rfl | hw
  · exact id
  · exact id
  · exact id
  · exact quiet_checks m w hw

/-- A licence is free of refusals, and begins with its request. -/
theorem not_refuses_of_mem_licence {text : Option String} {word : String} {c' c : Cmd} {m : DynamyCommandMeta}
    {w : ShellEvent Cmd} (hw : w ∈ licence text word c' c m) : ¬ w.refuses := by
  simp only [licence, checks, List.mem_cons, List.mem_append, List.mem_map, List.not_mem_nil, or_false] at hw
  rcases hw with rfl | rfl | rfl | ⟨p, -, rfl⟩ | rfl <;> simp [ShellEvent.refuses]

theorem AllLicensed.of_quiet (h : Quiet es) : AllLicensed annotationOf es := by
  rintro pre c args post rfl
  exact absurd trivial (h (.execute c args) (by simp))

theorem Licensed.append {c : Cmd} (pre : List (ShellEvent Cmd)) (h : Licensed annotationOf es c) :
    Licensed annotationOf (pre ++ es) c := by
  obtain ⟨before, text, word, c', m, hm, rfl⟩ := h
  exact ⟨pre ++ before, text, word, c', m, hm, by rw [List.append_assoc]⟩

theorem AllLicensed.append (h₁ : AllLicensed annotationOf es₁) (h₂ : AllLicensed annotationOf es₂) :
    AllLicensed annotationOf (es₁ ++ es₂) := by
  intro pre c args post heq
  rcases List.append_eq_append_iff.mp heq with ⟨mid, rfl, hmid⟩ | ⟨mid, hmid, hpost⟩
  · exact (h₂ mid c args post hmid).append es₁
  · match mid, hmid with
    | [], hmid => exact (h₂ [] c args post hpost.symm).append pre |> fun h => by simpa using h
    | w :: mid, hmid =>
      obtain ⟨rfl, rfl⟩ : .execute c args = w ∧ post = mid ++ es₂ := by simpa using hpost
      exact h₁ pre c args mid hmid

/-- The trace of one request that executes: its licence, the execution, and whatever follows quietly. -/
theorem AllLicensed.of_licence {text : Option String} {word : String} {c' c : Cmd} {m : DynamyCommandMeta}
    {args : List String} {post : List (ShellEvent Cmd)} (hm : annotationOf c = some m) (hpost : Quiet post) :
    AllLicensed annotationOf (licence text word c' c m ++ .execute c args :: post) := by
  intro pre d args' post' heq
  rcases List.append_eq_append_iff.mp heq with ⟨mid, rfl, hmid⟩ | ⟨mid, hmid, hrest⟩
  · match mid, hmid with
    | [], hmid =>
      obtain ⟨⟨rfl, -⟩, -⟩ : (c = d ∧ args = args') ∧ post = post' := by simpa using hmid
      exact ⟨[], text, word, c', m, hm, by simp⟩
    | w :: mid, hmid =>
      obtain ⟨-, rfl⟩ : .execute c args = w ∧ post = mid ++ .execute d args' :: post' := by simpa using hmid
      exact absurd trivial (hpost (.execute d args') (by simp))
  · match mid, hmid with
    | [], hmid =>
      obtain ⟨⟨rfl, -⟩, -⟩ : (d = c ∧ args' = args) ∧ post' = post := by simpa using hrest
      exact ⟨[], text, word, c', m, hm, by simpa using hmid.symm⟩
    | w :: mid, hmid =>
      obtain ⟨rfl, -⟩ : .execute d args' = w ∧ post' = mid ++ .execute c args :: post := by simpa using hrest
      exact absurd trivial (quiet_licence text word c' c m (.execute d args') (by rw [hmid]; simp))

/-- Licensed executions make refusals hold. -/
theorem AllLicensed.refusalsHold (h : AllLicensed annotationOf es) : RefusalsHold es := by
  intro pre w mid c args post heq hw
  obtain ⟨before, text, word, c', m, -, hpre⟩ := h (pre ++ w :: mid) c args post (by simpa using heq)
  refine ⟨text, ?_⟩
  rcases List.append_eq_append_iff.mp hpre with ⟨a, hb, hl⟩ | ⟨a, hb, hl⟩
  · match a, hl with
    | [], hl => exact absurd hw (not_refuses_of_mem_licence (by rw [← List.nil_append (licence _ _ _ _ _), ← hl]; simp))
    | x :: a, hl =>
      obtain ⟨rfl, rfl⟩ := List.cons.inj hl
      simp [licence]
  · exact absurd hw (not_refuses_of_mem_licence (by rw [hl]; simp))

/-! ### Lookups and checks -/

/-- Whatever happens, the program executes no command. -/
abbrev QuietProg {α : Type} (p : ShellM Cmd α) : Prop := Prog.Always (fun w => ¬ w.isExecute) p

theorem quiet_println (text : Option String) : QuietProg (Prog.emit (.println text) : ShellM Cmd Unit) :=
  Prog.always_emit (by exact id)

section Programs

variable (env : Env Ref Cmd)

theorem silent_ask {α : Type} (question : World Ref Cmd → Except Throwable α) : Prog.Silent (ask env question) :=
  Prog.silent_read.bind fun _ => (Prog.silent_update _).bind fun _ => Prog.silent_ofExcept _

theorem silent_getServices (refs : List Ref) : Prog.Silent (getServices env refs) := by
  induction refs with
  | nil => exact Prog.silent_pure _
  | cons ref refs ih => exact (silent_ask env _).bind fun _ => ih.bind fun _ => Prog.silent_pure _

theorem silent_getCommands : Prog.Silent (getCommands env) := (silent_ask env _).bind fun _ => silent_getServices env _

theorem silent_isAlias (fullAlias : String) : Prog.Silent (isAlias env fullAlias) := by
  unfold isAlias
  split
  · exact (silent_getCommands env).bind fun _ => (Prog.silent_ofExcept _).bind fun _ => Prog.silent_pure _
  · exact Prog.silent_pure _

theorem silent_getCommandForAlias (fullAlias : String) : Prog.Silent (getCommandForAlias env fullAlias) := by
  unfold getCommandForAlias
  split
  · refine (silent_getCommands env).bind fun _ => (Prog.silent_ofExcept _).bind fun c => ?_
    cases c with
    | none => exact Prog.silent_pure _
    | some c => exact (Prog.silent_ofExcept _).bind fun _ => Prog.silent_pure _
  · exact Prog.silent_pure _

theorem silent_resolveAlias (word : String) : Prog.Silent (resolveAlias env word) := by
  refine (silent_isAlias env word).bind fun b => ?_
  cases b with
  | false => exact Prog.silent_pure _
  | true => exact silent_getCommandForAlias env word

theorem silent_lookupCommand (fullName : String) : Prog.Silent (lookupCommand env fullName) := by
  unfold lookupCommand
  split
  · refine (silent_ask env _).bind fun refs => ?_
    split
    · exact Prog.silent_pure _
    · exact silent_ask env _
    · exact Prog.silent_raise _
  · exact Prog.silent_pure _

/-- A lookup that returns puts exactly what it found on record. -/
theorem emits_getCommand (fullName : String) : Prog.Emits (getCommand env fullName) fun r es =>
    ∀ c, r = .ok c → es = [.found fullName c] :=
  (silent_lookupCommand env fullName).emits_bind (fun _ _ h => nomatch h) fun c =>
    Prog.emits_emit_bind (Prog.emits_pure fun c' h => by
      obtain rfl : c = c' := by simpa using h
      rfl)

theorem quiet_getCommand (fullName : String) : QuietProg (getCommand env fullName) :=
  (silent_lookupCommand env fullName).always.bind fun _ =>
    (Prog.always_emit (by exact id)).bind fun _ => (Prog.silent_pure _).always

theorem quiet_permittedCollection (ps : List String) :
    QuietProg (permittedCollection env ps) := by
  induction ps with
  | nil => exact (Prog.silent_pure _).always
  | cons p ps ih =>
    exact (silent_ask env _).always.bind fun _ => (Prog.always_emit (by exact id)).bind fun _ =>
      ih.bind fun _ => (Prog.silent_pure _).always

/-- If every answer was positive, the answers were asked for in order and nothing else happened. -/
theorem emits_permittedCollection (ps : List String) : Prog.Emits (permittedCollection env ps) fun r es =>
    ∀ answers, r = .ok answers → answers.all (· == true) → es = ps.map (.isPermitted · true) := by
  induction ps with
  | nil => exact Prog.emits_pure fun _ _ _ => rfl
  | cons p ps ih =>
    refine (silent_ask env _).emits_bind (fun _ _ h => nomatch h) fun answer => Prog.emits_emit_bind ?_
    refine ih.bind (fun _ _ _ _ h => nomatch h) fun rest es hrest => Prog.emits_pure fun answers h hall => ?_
    obtain rfl : answer :: rest = answers := by simpa using h
    rw [List.all_cons, Bool.and_eq_true, beq_iff_eq] at hall
    rw [List.append_nil, hall.1, hrest rest rfl hall.2]
    rfl

theorem quiet_permitted (c : DynamyCommandHelper Cmd) : QuietProg (permitted env c) := by
  refine (Prog.silent_ofExcept _).always.bind fun m => (quiet_permittedCollection env _).bind fun answers => ?_
  split
  · exact (silent_ask env _).always.bind fun _ => (Prog.always_emit (by exact id)).bind fun _ =>
      (Prog.silent_pure _).always
  · exact (Prog.silent_pure _).always

/-- A check that succeeds was the complete check of the annotation of the command at hand. -/
theorem emits_permitted (c : DynamyCommandHelper Cmd) : Prog.Emits (permitted env c) fun r es =>
    r = .ok true → ∃ command m, c.command = some command ∧ env.annotationOf command = some m ∧ es = checks m := by
  refine Prog.emits_ofExcept_bind (fun _ _ h => nomatch h) fun m hm => ?_
  obtain ⟨command, hc, ha⟩ := (c.getMeta_eq_ok env).mp hm
  refine (emits_permittedCollection env m.perms).bind (fun _ _ _ h => nomatch h) fun answers es hperms => ?_
  split
  · rename_i hall
    refine (silent_ask env _).emits_bind (fun _ h => nomatch h) fun answer =>
      Prog.emits_emit_bind (Prog.emits_pure fun h => ⟨command, m, hc, ha, ?_⟩)
    obtain rfl : answer = true := by simpa using h
    rw [hperms answers rfl hall]
    rfl
  · exact Prog.emits_pure fun h => nomatch h

theorem emits_isCommand (word : String) : Prog.Emits (isCommand env word) fun r es =>
    r = .ok true → ∃ c, es = [.found word (some c)] := by
  refine (emits_getCommand env word).bind (fun _ _ _ h => nomatch h) fun c es hes => Prog.emits_pure fun h => ?_
  obtain ⟨c, rfl⟩ : ∃ c', c = some c' := by simpa [Option.isSome_iff_exists] using h
  exact ⟨c, by rw [hes _ rfl, List.append_nil]⟩

theorem quiet_isCommand (word : String) : QuietProg (isCommand env word) :=
  (quiet_getCommand env word).bind fun _ => (Prog.silent_pure _).always

/-- Executing a command object is one event. -/
theorem emits_execute (c : Cmd) (args : List String) :
    Prog.Emits (DynamyCommandHelper.execute env ⟨some c⟩ args) fun _ es => es = [.execute c args] :=
  Prog.emits_ofExcept_bind (fun _ h => nomatch h) fun command h => Prog.emits_emit_bind (by
    obtain rfl : c = command := by simpa using h
    exact fun s => by rw [(silent_ask env _).events_eq])

/-! ### The interactive shell -/

/-- After a lookup that found `c` (or nothing), within one request. -/
theorem licensed_executePermitted (text : Option String) (word : String) (c' : Cmd) (c : Option Cmd)
    (args : List String) : Prog.Emits (executePermitted env ⟨c⟩ args) fun _ es =>
      AllLicensed env.annotationOf (.line text :: .found word (some c') :: .found word c :: es) := by
  have hopen : ∀ {es}, Quiet es → Quiet (.line text :: .found word (some c') :: .found word c :: es) :=
    fun h => ((h.cons (by exact id)).cons (by exact id)).cons (by exact id)
  refine ((quiet_permitted env ⟨c⟩).emits.and (emits_permitted env ⟨c⟩)).bind
    (fun _ _ hes => .of_quiet (hopen hes.1)) fun b es ⟨hquiet, hes⟩ => ?_
  cases b with
  | false =>
    exact fun s => .of_quiet (hopen (Quiet.append hquiet (quiet_println _ s)))
  | true =>
    obtain ⟨command, m, hc, hm, rfl⟩ := hes rfl
    obtain rfl : c = some command := hc
    have hlic : ∀ {post}, Quiet post → AllLicensed env.annotationOf (.line text :: .found word (some c') ::
        .found word (some command) :: (checks m ++ (.execute command args :: post))) :=
      fun h => AllLicensed.of_licence hm h
    refine (emits_execute env command args).bind (fun _ es hes => ?_) fun data es hes => ?_
    · rw [hes]
      exact hlic quiet_nil
    · rw [hes]
      refine fun s => hlic ?_
      cases data with
      | none => exact (Prog.silent_pure _).always s
      | some text => exact quiet_println _ s

theorem licensed_dispatch (text : Option String) (args : List String) (word : String) :
    Prog.Emits (dispatch env args word) fun _ es => AllLicensed env.annotationOf (.line text :: es) := by
  have hopen : ∀ {es}, Quiet es → AllLicensed env.annotationOf (.line text :: es) :=
    fun h => .of_quiet h.line
  refine (silent_resolveAlias env word).emits_bind (fun _ => hopen quiet_nil)
    fun commandString => ?_
  cases commandString with
  | none => exact fun s => hopen (quiet_println _ s)
  | some commandString =>
    refine ((quiet_isCommand env commandString).emits.and (emits_isCommand env commandString)).bind
      (fun _ _ hes => hopen hes.1) fun b es ⟨hquiet, hes⟩ => ?_
    cases b with
    | false => exact fun s => hopen (Quiet.append hquiet (quiet_println _ s))
    | true =>
      obtain ⟨c', rfl⟩ := hes rfl
      refine ((quiet_getCommand env commandString).emits.and (emits_getCommand env commandString)).bind
        (fun _ _ hes => hopen (Quiet.append hquiet hes.1)) fun c es hes => ?_
      rw [hes.2 c rfl]
      exact licensed_executePermitted env text commandString c' c args

theorem quiet_printHelpLines (w w' : ℤ) (cs : List (DynamyCommandHelper Cmd)) :
    QuietProg (printHelpLines env w w' cs) := by
  induction cs with
  | nil => exact (Prog.silent_pure _).always
  | cons c cs ih =>
    exact (Prog.silent_ofExcept _).always.bind fun _ => (Prog.silent_ofExcept _).always.bind fun _ =>
      (Prog.silent_ofExcept _).always.bind fun _ => (quiet_println _).bind fun _ => ih

theorem silent_getWidth : Prog.Silent (getWidth env) := by
  refine (silent_ask env _).bind fun columns => ?_
  split
  · exact Prog.silent_pure _
  · split <;> exact Prog.silent_pure _

theorem quiet_printHelp : QuietProg (printHelp env) :=
  (Prog.always_emit (by exact id)).bind fun _ => (quiet_println _).bind fun _ =>
    (silent_getWidth env).always.bind fun _ => (silent_getCommands env).always.bind fun _ =>
      (Prog.silent_ofExcept _).always.bind fun _ => (Prog.silent_ofExcept _).always.bind fun _ =>
        (silent_getCommands env).always.bind fun _ => quiet_printHelpLines env _ _ _

theorem licensed_processLine (text : Option String) (commandString : String) :
    Prog.Emits (processLine env commandString) fun _ es => AllLicensed env.annotationOf (.line text :: es) := by
  have hopen : ∀ {es}, Quiet es → AllLicensed env.annotationOf (.line text :: es) :=
    fun h => .of_quiet h.line
  refine (Prog.silent_ofExcept _).emits_bind (fun _ => hopen quiet_nil) fun word => ?_
  split_ifs
  · exact fun s => hopen ((Prog.silent_update _).always s)
  · exact fun s => hopen (((Prog.always_emit (by exact id)).bind fun _ => Prog.always_emit (by exact id) :
      QuietProg (do Prog.emit .drawLine; Prog.emit .clearScreen)) s)
  · exact fun s => hopen (quiet_printHelp env s)
  · exact licensed_dispatch env text _ word

theorem emits_readLine : Prog.Emits (readLine : ShellM Cmd _) fun r es => ∃ text, r = .ok text ∧ es = [.line text] :=
  fun s => ⟨s.input.head?, rfl, rfl⟩

/-- One pass of the loop is one request, with whatever its handler prints. -/
theorem licensed_loopBody : Prog.Emits (loopBody env) fun _ es => AllLicensed env.annotationOf es := by
  refine Prog.Emits.attempt (S := fun _ es => AllLicensed env.annotationOf es) ?_ (fun _ _ hes => hes)
    fun e es hes s => hes.append (.of_quiet (quiet_nil.cons (by exact id)))
  refine emits_readLine.bind (fun _ _ ⟨_, h, _⟩ => nomatch h) fun text es ⟨_, h, hes⟩ => ?_
  cases h
  rw [hes]
  refine Prog.emits_ofExcept_bind (fun _ _ => .of_quiet quiet_nil.line) fun line _ => ?_
  dsimp only
  split_ifs
  · exact licensed_processLine env _ _
  · exact Prog.emits_pure (.of_quiet quiet_nil.line)

theorem silent_isRunning : Prog.Silent (isRunning env) :=
  (silent_ask env _).bind fun _ => Prog.silent_read.bind fun _ => Prog.silent_pure _

theorem licensed_loop (fuel : ℕ) : Prog.Emits (loop env fuel) fun _ es => AllLicensed env.annotationOf es := by
  have hnil : AllLicensed env.annotationOf ([] : List (ShellEvent Cmd)) := .of_quiet quiet_nil
  induction fuel with
  | zero => exact Prog.emits_pure hnil
  | succ fuel ih =>
    refine (silent_isRunning env).emits_bind (fun _ => hnil) fun b => ?_
    cases b with
    | false => exact Prog.emits_pure hnil
    | true => exact (licensed_loopBody env).bind (fun _ _ hes => hes) fun _ es hes s => hes.append (ih s)

theorem licensed_run (fuel : ℕ) : Prog.Emits (DynamyShellFactory.run env fuel) fun _ es =>
    AllLicensed env.annotationOf es := by
  have hbanner : QuietProg (printBanner env) := (quiet_println _).bind fun _ => quiet_println _
  refine hbanner.emits.bind (fun _ _ hes => .of_quiet hes) fun _ es₁ hes₁ => ?_
  refine (licensed_loop env fuel).bind (fun _ _ hes => (AllLicensed.of_quiet hes₁).append hes) fun b es hes s => ?_
  refine (AllLicensed.of_quiet hes₁).append (hes.append (.of_quiet ?_))
  cases b with
  | false => exact (Prog.silent_pure _).always s
  | true => exact (((Prog.silent_update _).always.bind fun _ => (Prog.always_emit (by exact id)).bind fun _ =>
      (Prog.silent_pure _).always : QuietProg _) s)

/-! ### Requests given with the connection -/

/-- `createCommand` executes nothing; if it returns an executing command, it did everything that licenses it. -/
theorem emits_createCommand (text : String) : Prog.Emits (createCommand env text) fun r es =>
    Quiet es ∧ ∀ command args, r = .ok (.executing command args) → ∃ word c' c m, command.command = some c ∧
      env.annotationOf c = some m ∧ es = licence (some text) word c' c m := by
  refine Prog.emits_emit_bind (Prog.emits_ofExcept_bind
    (fun _ _ => ⟨quiet_nil.line, fun _ _ h => nomatch h⟩) fun word _ => ?_)
  refine (silent_resolveAlias env word).emits_bind
    (fun _ => ⟨quiet_nil.line, fun _ _ h => nomatch h⟩) fun commandString => ?_
  cases commandString with
  | none => exact Prog.emits_pure ⟨quiet_nil.line, fun _ _ h => nomatch h⟩
  | some commandString =>
    refine ((quiet_isCommand env commandString).emits.and (emits_isCommand env commandString)).bind
      (fun _ _ hes => ⟨Quiet.line hes.1, fun _ _ h => nomatch h⟩) fun b es ⟨hquiet, hes⟩ => ?_
    cases b with
    | false =>
      refine Prog.emits_pure ⟨Quiet.line ?_, fun _ _ h => nomatch h⟩
      rw [List.append_nil]
      exact hquiet
    | true =>
      obtain ⟨c', rfl⟩ := hes rfl
      refine ((quiet_getCommand env commandString).emits.and (emits_getCommand env commandString)).bind
        (fun _ _ hes => ⟨Quiet.line (Quiet.append hquiet hes.1), fun _ _ h => nomatch h⟩) fun c es hes => ?_
      refine ((quiet_permitted env ⟨c⟩).emits.and (emits_permitted env ⟨c⟩)).bind
        (fun _ _ hp => ⟨Quiet.line (Quiet.append hquiet (Quiet.append hes.1 hp.1)), fun _ _ h => nomatch h⟩)
        fun b es' hp => ?_
      cases b with
      | false =>
        refine Prog.emits_pure ⟨Quiet.line (Quiet.append hquiet (Quiet.append hes.1 ?_)), fun _ _ h => nomatch h⟩
        rw [List.append_nil]
        exact hp.1
      | true =>
        refine Prog.emits_pure ⟨Quiet.line (Quiet.append hquiet (Quiet.append hes.1 ?_)), fun command args h => ?_⟩
        · rw [List.append_nil]
          exact hp.1
        · obtain ⟨c₀, m, hc, hm, rfl⟩ := hp.2 rfl
          obtain ⟨rfl, -⟩ : DynamyCommandHelper.mk c = command ∧ splitSpaces text = args := by simpa using h
          obtain rfl : c = some c₀ := hc
          refine ⟨commandString, c', c₀, m, rfl, hm, ?_⟩
          rw [hes.2 _ rfl, List.append_nil]
          rfl

omit env in
theorem quiet_onExit (exitCallback : Bool) (exitValue : ℤ) (exitMessage : Option String) :
    QuietProg (if exitCallback then Prog.emit (.onExit exitValue exitMessage) else pure () : ShellM Cmd Unit) := by
  split_ifs
  · exact Prog.always_emit (by exact id)
  · exact (Prog.silent_pure _).always

theorem emits_start_unknown (exitCallback : Bool) (text : String) :
    QuietProg ((ExecCommand.unknownCommand text : ExecCommand Cmd).start env exitCallback) :=
  (quiet_println _).bind fun _ => quiet_onExit exitCallback _ _

/-- Starting an executing command executes its object first, and nothing else. -/
theorem emits_start_executing (exitCallback : Bool) (c : Cmd) (args : List String) :
    Prog.Emits ((ExecCommand.executing ⟨some c⟩ args).start env exitCallback) fun _ es =>
      ∃ post, es = .execute c args :: post ∧ Quiet post := by
  have hhandler : ∀ e : Throwable, QuietProg (do
      Prog.emit (.printStackTrace e)
      if exitCallback then Prog.emit (.onExit (-1) e.message) : ShellM Cmd Unit) :=
    fun e => (Prog.always_emit (by exact id)).bind fun _ => quiet_onExit exitCallback _ _
  refine Prog.Emits.attempt (S := fun _ es => ∃ post, es = .execute c args :: post ∧ Quiet post) ?_
    (fun _ _ hes => hes) fun e es ⟨post, hes, hpost⟩ s => ⟨_, ?_, hpost.append (hhandler e s)⟩
  · refine (emits_execute env c args).bind (fun _ _ hes => ⟨[], hes, quiet_nil⟩) fun data es hes s => ?_
    exact ⟨_, by rw [hes]; rfl, ((quiet_println data).bind fun _ => quiet_onExit exitCallback _ _) s⟩
  · rw [hes]
    rfl

theorem licensed_execRequest (exitCallback : Bool) (text : String) :
    Prog.Emits (execRequest env exitCallback text) fun _ es => AllLicensed env.annotationOf es := by
  refine (emits_createCommand env text).bind (fun _ _ hes => .of_quiet hes.1) fun created es ⟨hquiet, hes⟩ s => ?_
  cases created with
  | unknownCommand text' =>
    exact (AllLicensed.of_quiet hquiet).append (.of_quiet (emits_start_unknown env exitCallback text' s))
  | executing command args =>
    obtain ⟨word, c', c, m, hc, hm, hlic⟩ := hes command args rfl
    obtain rfl : command = ⟨some c⟩ := by rw [← hc]
    obtain ⟨post, hpost, hq⟩ := emits_start_executing env exitCallback c args s
    rw [hlic, hpost]
    exact .of_licence hm hq

theorem licensed_execRequests (exitCallback : Bool) (texts : List String) :
    Prog.Emits (execRequests env exitCallback texts) fun _ es => AllLicensed env.annotationOf es := by
  induction texts with
  | nil => exact Prog.emits_pure (.of_quiet quiet_nil)
  | cons text texts ih =>
    have hone : Prog.Emits (Prog.attempt (execRequest env exitCallback text) fun _ => return) fun _ es =>
        AllLicensed env.annotationOf es :=
      (licensed_execRequest env exitCallback text).attempt (fun _ _ hes => hes) fun _ _ hes =>
        Prog.emits_pure (by rwa [List.append_nil])
    exact hone.bind (fun _ _ hes => hes) fun _ es hes s => hes.append (ih s)

end Programs

end Dynamy.Shell
