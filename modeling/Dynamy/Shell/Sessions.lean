import Dynamy.Lib.Run
import Dynamy.Shell.DynamyCommandOsgiHelper

/-!
# Dynamy.Shell.Sessions — whose permissions a command runs under

SSH sessions share I/O threads, and Shiro keeps the logged-in Subject with the thread: `getSubject` returns the object
bound to the current thread (a fresh anonymous one if there is none), a new thread inherits its creator's object, and
`login` changes the object's identity on success.  A schedule interleaves the steps of `PublicKeyAuthentication` and
`PasswordAuthentication` (which differ in the token only), shell starts, and the checks of both dispatchers.

A command of a session may be checked as somebody else: the object its thread is bound to can be logged in again for
another session.  `executed_checked_as_owner` is what holds in runs where that does not happen.
-/

namespace Dynamy.Shell

open Dynamy.Lib

variable {Thread Session User : Type}

/-- What a thread is about to do. -/
inductive SshPc (Session User : Type)
  | idle
  /-- In `authenticate`, with the Subject object in hand, before `subject.login`. -/
  | login (session : Session) (username : User) (subject : ℕ)
  /-- After a login that did not raise, before `subject.isAuthenticated() && f(subject)`. -/
  | accept (session : Session) (username : User)
  /-- In the check of a resolved command: the permissions not asked for yet, whether all answers were positive, and
  the identities that were asked about. -/
  | check (session : Session) (command : DynamyCommandMeta) (perms : List String) (ok : Bool)
      (checkedAs : List (Option User))
  /-- After a successful check, before `execute`. -/
  | execute (session : Session) (command : DynamyCommandMeta) (checkedAs : List (Option User))
  deriving DecidableEq

/-- A call of `execute`, with the identities its check was made against. -/
structure Execution (Session User : Type) where
  session : Session
  command : DynamyCommandMeta
  checkedAs : List (Option User)
  deriving DecidableEq

structure SshState (Thread Session User : Type) where
  started : Thread → Bool
  /-- The Subject object bound to a thread. -/
  bound : Thread → Option ℕ
  /-- The user a Subject object is logged in as. -/
  identity : ℕ → Option User
  nextSubject : ℕ
  /-- The user name under which a session has completed its authentication. -/
  completedAs : Session → Option User
  /-- The session whose interactive shell a thread runs. -/
  worker : Thread → Option Session
  pc : Thread → SshPc Session User
  executed : List (Execution Session User)

/-- What the scheduler, the clients and Shiro can decide next. -/
inductive SshAction (Thread Session User : Type)
  | newThread (creator : Option Thread) (child : Thread)
  | authenticate (th : Thread) (session : Session) (username : User)
  | login (th : Thread) (success : Bool)
  | accept (th : Thread) (accepted completes : Bool)
  | startShell (th : Thread) (session : Session) (worker : Thread)
  | commandLine (th : Thread) (command : DynamyCommandMeta)
  | createCommand (th : Thread) (session : Session) (command : DynamyCommandMeta)
  | check (th : Thread) (answer : Bool)
  | raise (th : Thread)
  | execute (th : Thread)

namespace SshState

def start : SshState Thread Session User where
  started := fun _ => false
  bound := fun _ => none
  identity := fun _ => none
  nextSubject := 0
  completedAs := fun _ => none
  worker := fun _ => none
  pc := fun _ => .idle
  executed := []

section Model

variable [DecidableEq Thread] [DecidableEq Session]

/-- The user that the thread's Subject is logged in as. -/
def user (st : SshState Thread Session User) (th : Thread) : Option User := (st.bound th).bind st.identity

/-- `SecurityUtils.getSubject()`: the state afterwards, and the object. -/
def getSubject (st : SshState Thread Session User) (th : Thread) : SshState Thread Session User × ℕ :=
  match st.bound th with
  | some subject => (st, subject)
  | none =>
    ({ st with
        bound := Function.update st.bound th (some st.nextSubject)
        identity := Function.update st.identity st.nextSubject none
        nextSubject := st.nextSubject + 1 }, st.nextSubject)

def setPc (st : SshState Thread Session User) (th : Thread) (pc : SshPc Session User) :
    SshState Thread Session User := { st with pc := Function.update st.pc th pc }

/-- A thread that inherits the bound object of its creator. -/
def spawn (st : SshState Thread Session User) (bound : Option ℕ) (child : Thread) (worker : Option Session) :
    SshState Thread Session User :=
  { st with
    started := Function.update st.started child true
    bound := Function.update st.bound child bound
    worker := Function.update st.worker child worker
    pc := Function.update st.pc child .idle }

def step (st : SshState Thread Session User) : SshAction Thread Session User → Option (SshState Thread Session User)
  | .newThread creator child =>
    if st.started child then none else some (st.spawn (creator.bind st.bound) child none)
  | .authenticate th session username =>
    match st.started th, st.worker th, st.pc th, st.completedAs session with
    | true, none, .idle, none =>
      let (st', subject) := st.getSubject th
      some (st'.setPc th (.login session username subject))
    | _, _, _, _ => none
  | .login th success =>
    match st.pc th with
    | .login session username subject =>
      if success then
        some ({ st with identity := Function.update st.identity subject (some username) }.setPc th
          (.accept session username))
      else some (st.setPc th .idle)
    | _ => none
  | .accept th accepted completes =>
    match st.pc th with
    | .accept session username =>
      if accepted && completes && (st.completedAs session).isNone then
        some ({ st with completedAs := Function.update st.completedAs session (some username) }.setPc th .idle)
      else some (st.setPc th .idle)
    | _ => none
  | .startShell th session worker =>
    match st.started th, st.worker th, st.pc th, st.completedAs session, st.started worker with
    | true, none, .idle, some _, false => some (st.spawn (st.bound th) worker (some session))
    | _, _, _, _, _ => none
  | .commandLine th command =>
    match st.worker th, st.pc th with
    | some session, .idle => some (st.setPc th (.check session command command.perms true []))
    | _, _ => none
  | .createCommand th session command =>
    match st.started th, st.worker th, st.pc th, st.completedAs session with
    | true, none, .idle, some _ => some (st.setPc th (.check session command command.perms true []))
    | _, _, _, _ => none
  | .check th answer =>
    match st.pc th with
    | .check session command (_ :: perms) ok checkedAs =>
      -- `isPermitted` on the thread's Subject; nobody permits anything to an anonymous one
      let answer := answer && (st.user th).isSome
      some ((st.getSubject th).1.setPc th (.check session command perms (ok && answer) (checkedAs ++ [st.user th])))
    | .check session command [] true checkedAs =>
      if answer && (st.user th).isSome then
        some ((st.getSubject th).1.setPc th (.execute session command (checkedAs ++ [st.user th])))
      else some ((st.getSubject th).1.setPc th .idle)
    | .check _ _ [] false _ => some (st.setPc th .idle)
    | _ => none
  | .raise th =>
    match st.pc th with
    | .check _ _ _ _ _ => some (st.setPc th .idle)
    | _ => none
  | .execute th =>
    match st.pc th with
    | .execute session command checkedAs =>
      let execution : Execution Session User := ⟨session, command, checkedAs⟩
      some ({ st with executed := st.executed ++ [execution] }.setPc th .idle)
    | _ => none

end Model

/-! ### The property -/

/-- Every execution followed a permission check for every entry of `perms` and a role check, all of them made against
the user under whose name the execution's session completed its authentication. -/
def CheckedAsOwner (st : SshState Thread Session User) : Prop :=
  ∀ x ∈ st.executed, ∃ u, st.completedAs x.session = some u ∧
    x.checkedAs = List.replicate (x.command.perms.length + 1) (some u)

/-- The thread works for the session: as its shell, or in the check of one of its requests. -/
inductive Serves (st : SshState Thread Session User) (th : Thread) (session : Session) : Prop
  | shell (h : st.worker th = some session)
  | check {command : DynamyCommandMeta} {perms : List String} {ok : Bool} {checkedAs : List (Option User)}
      (h : st.pc th = .check session command perms ok checkedAs)

/-- The thread's Subject is nobody's, or that of the session's user. -/
def Fits (st : SshState Thread Session User) (th : Thread) (session : Session) : Prop :=
  st.user th = none ∨ st.user th = st.completedAs session

/-- A step that lends no Subject object to a second user: a successful login changes an object only if every thread
bound to it works for sessions of the same user (or for none), and shells and requests of a session start on threads
whose object fits the session. -/
def Undisturbed (st : SshState Thread Session User) : SshAction Thread Session User → Prop
  | .login th true => ∀ session username subject, st.pc th = .login session username subject →
      ∀ th' session', st.bound th' = some subject → st.Serves th' session' → st.completedAs session' = some username
  | .startShell th session _ => st.Fits th session
  | .createCommand th session _ => st.Fits th session
  | _ => True

/-! ### The invariant -/

/-- What the pending work of a thread has established, given who completed as whom. -/
def PcGood (completedAs : Session → Option User) : SshPc Session User → Prop
  | .check session command perms ok checkedAs => ∃ u, completedAs session = some u ∧
      checkedAs.length + perms.length = command.perms.length ∧ (ok = true → ∀ id ∈ checkedAs, id = some u)
  | .execute session command checkedAs => ∃ u, completedAs session = some u ∧
      checkedAs = List.replicate (command.perms.length + 1) (some u)
  | _ => True

structure SshInv (st : SshState Thread Session User) : Prop where
  pcs : ∀ th, PcGood st.completedAs (st.pc th)
  shells : ∀ th session, st.worker th = some session → ∃ u, st.completedAs session = some u
  fits : ∀ th session, st.Serves th session → st.Fits th session
  owner : st.CheckedAsOwner

variable {st st' : SshState Thread Session User} {th : Thread}

theorem inv_start : SshInv (start : SshState Thread Session User) where
  pcs := fun _ => trivial
  shells := fun _ _ h => nomatch h
  fits := fun _ _ h => by rcases h with h | h <;> cases h
  owner := fun _ hx => nomatch hx

theorem SshInv.completed (h : SshInv st) {session : Session} (hs : st.Serves th session) :
    ∃ u, st.completedAs session = some u := by
  rcases hs with hw | hpc
  · exact h.shells th session hw
  · have hgood := h.pcs th
    rw [hpc] at hgood
    obtain ⟨u, hu, -⟩ := hgood
    exact ⟨u, hu⟩

/-- A positive answer was given for the session's user. -/
theorem SshInv.user_eq (h : SshInv st) {session : Session} {command : DynamyCommandMeta} {perms : List String}
    {ok : Bool} {checkedAs : List (Option User)} (hpc : st.pc th = .check session command perms ok checkedAs)
    (hsome : (st.user th).isSome = true) : st.user th = st.completedAs session := by
  rcases h.fits th session (.check hpc) with hf | hf
  · rw [hf] at hsome
    cases hsome
  · exact hf

/-- A successful login that only touches threads of the same user's sessions. -/
theorem SshInv.login (h : SshInv st) {subject : ℕ} {username : User}
    (hsame : ∀ th session, st.bound th = some subject → st.Serves th session →
      st.completedAs session = some username) :
    SshInv { st with identity := Function.update st.identity subject (some username) } := by
  refine ⟨h.pcs, h.shells, fun th session hs => ?_, h.owner⟩
  have hs' : st.Serves th session := by
    rcases hs with hw | hpc
    · exact .shell hw
    · exact .check hpc
  by_cases hb : st.bound th = some subject
  · right
    simpa [user, hb] using (hsame th session hb hs').symm
  · have huser : ∀ σ, st.bound th = some σ → Function.update st.identity subject (some username) σ = st.identity σ :=
      fun σ hσ => Function.update_of_ne (fun he => hb (by rw [hσ, he])) _ _
    have hf := h.fits th session hs'
    simp only [Fits, user] at hf ⊢
    match hσ : st.bound th with
    | none => exact .inl rfl
    | some σ =>
      rw [hσ] at hf
      simpa [huser σ hσ] using hf

theorem SshInv.execute (h : SshInv st) {session : Session} {command : DynamyCommandMeta}
    {checkedAs : List (Option User)} (hpc : st.pc th = .execute session command checkedAs) :
    SshInv { st with executed := st.executed ++ [⟨session, command, checkedAs⟩] } := by
  refine ⟨h.pcs, h.shells, fun th session hs => ?_, fun x hx => ?_⟩
  · rcases hs with hw | hc
    · exact h.fits th session (.shell hw)
    · exact h.fits th session (.check hc)
  · rcases List.mem_append.mp hx with hx | hx
    · exact h.owner x hx
    · obtain rfl := List.mem_singleton.mp hx
      have hgood := h.pcs th
      rw [hpc] at hgood
      exact hgood

/-- A session completes its authentication, once. -/
theorem SshInv.complete [DecidableEq Session] (h : SshInv st) {session : Session} {username : User}
    (hnone : st.completedAs session = none) :
    SshInv { st with completedAs := Function.update st.completedAs session (some username) } := by
  have hkeep : ∀ s u, st.completedAs s = some u →
      Function.update st.completedAs session (some username) s = some u := fun s u hu => by
    rw [Function.update_of_ne (fun he => by rw [he, hnone] at hu; cases hu), hu]
  refine ⟨fun th => ?_, fun th s hw => ?_, fun th s hs => ?_, fun x hx => ?_⟩
  · have hgood := h.pcs th
    match hpc : st.pc th with
    | .idle | .login _ _ _ | .accept _ _ => trivial
    | .check _ _ _ _ _ | .execute _ _ _ =>
      rw [hpc] at hgood
      obtain ⟨u, hu, hrest⟩ := hgood
      exact ⟨u, hkeep _ u hu, hrest⟩
  · obtain ⟨u, hu⟩ := h.shells th s hw
    exact ⟨u, hkeep s u hu⟩
  · have hs' : st.Serves th s := by
      rcases hs with hw | hpc
      · exact .shell hw
      · exact .check hpc
    obtain ⟨u, hu⟩ := h.completed hs'
    rcases h.fits th s hs' with hf | hf
    · exact .inl hf
    · exact .inr (by rw [hu] at hf; exact hf.trans (hkeep s u hu).symm)
  · obtain ⟨u, hu, hc⟩ := h.owner x hx
    exact ⟨u, hkeep _ u hu, hc⟩

variable [DecidableEq Thread]

/-- Binding a fresh Subject makes nobody somebody. -/
theorem getSubject_user (th' : Thread) :
    (st.getSubject th).1.user th' = st.user th' ∨ (st.getSubject th).1.user th' = none := by
  unfold getSubject
  split
  · exact .inl rfl
  · by_cases hth : th' = th
    · subst hth
      right
      simp [user]
    · simp only [user, Function.update_of_ne hth]
      match st.bound th' with
      | none => exact .inl rfl
      | some subject =>
        by_cases hs : subject = st.nextSubject
        · right
          simp [hs]
        · left
          simp [Function.update_of_ne hs]

theorem getSubject_frame (st : SshState Thread Session User) (th : Thread) :
    (st.getSubject th).1.completedAs = st.completedAs ∧ (st.getSubject th).1.worker = st.worker ∧
      (st.getSubject th).1.pc = st.pc ∧ (st.getSubject th).1.executed = st.executed := by
  unfold getSubject
  split <;> exact ⟨rfl, rfl, rfl, rfl⟩

theorem SshInv.getSubject (h : SshInv st) (th : Thread) : SshInv (st.getSubject th).1 := by
  obtain ⟨hcompleted, hworker, hpc, hexecuted⟩ := getSubject_frame st th
  refine ⟨?_, ?_, fun th' session hs => ?_, ?_⟩
  · rw [hcompleted, hpc]
    exact h.pcs
  · rw [hcompleted, hworker]
    exact h.shells
  · have hs' : st.Serves th' session := by
      rcases hs with hw | hc
      · exact .shell (hworker ▸ hw)
      · exact .check (hpc ▸ hc)
    rcases getSubject_user th' with hu | hu
    · rw [Fits, hu, hcompleted]
      exact h.fits th' session hs'
    · exact .inl hu
  · rw [CheckedAsOwner, hcompleted, hexecuted]
    exact h.owner

theorem SshInv.setPc (h : SshInv st) {pc : SshPc Session User} (hgood : PcGood st.completedAs pc)
    (hfits : ∀ session command perms ok checkedAs, pc = .check session command perms ok checkedAs →
      st.Fits th session) : SshInv (st.setPc th pc) := by
  refine ⟨fun th' => ?_, h.shells, fun th' session hs => ?_, h.owner⟩
  · by_cases hth : th' = th
    · subst hth
      simpa [SshState.setPc] using hgood
    · simpa [SshState.setPc, hth] using h.pcs th'
  · rcases hs with hw | @⟨command, perms, ok, checkedAs, hc⟩
    · exact h.fits th' session (.shell hw)
    · by_cases hth : th' = th
      · subst hth
        exact hfits session command perms ok checkedAs (by simpa [SshState.setPc] using hc)
      · exact h.fits th' session (.check (by simpa [SshState.setPc, hth] using hc))

/-- Giving up leaves nothing to check. -/
theorem SshInv.setIdle (h : SshInv st) : SshInv (st.setPc th .idle) :=
  h.setPc trivial fun _ _ _ _ _ hpc => nomatch hpc

theorem SshInv.spawn (h : SshInv st) {bound : Option ℕ} {child : Thread} {worker : Option Session}
    (hw : ∀ session, worker = some session → (∃ u, st.completedAs session = some u) ∧
      (bound.bind st.identity = none ∨ bound.bind st.identity = st.completedAs session)) :
    SshInv (st.spawn bound child worker) := by
  refine ⟨fun th => ?_, fun th session hth => ?_, fun th session hs => ?_, h.owner⟩
  · by_cases hc : th = child
    · subst hc
      simp [SshState.spawn, PcGood]
    · simpa [SshState.spawn, hc] using h.pcs th
  · by_cases hc : th = child
    · subst hc
      exact (hw session (by simpa [SshState.spawn] using hth)).1
    · exact h.shells th session (by simpa [SshState.spawn, hc] using hth)
  · by_cases hc : th = child
    · subst hc
      rcases hs with hth | hpc
      · have := (hw session (by simpa [SshState.spawn] using hth)).2
        simpa [Fits, user, SshState.spawn] using this
      · simp [SshState.spawn] at hpc
    · have hs' : st.Serves th session := by
        rcases hs with hth | hpc
        · exact .shell (by simpa [SshState.spawn, hc] using hth)
        · exact .check (by simpa [SshState.spawn, hc] using hpc)
      simpa [Fits, user, SshState.spawn, hc] using h.fits th session hs'

variable [DecidableEq Session]

theorem SshInv.check (h : SshInv st) {answer : Bool} (hs : st.step (.check th answer) = some st') : SshInv st' := by
  obtain ⟨hcompleted, -, hpcs, -⟩ := getSubject_frame st th
  have hgood := h.pcs th
  simp only [SshState.step] at hs
  split at hs
  · -- one more entry of `perms`
    rename_i session command p perms ok checkedAs hpc
    cases hs
    rw [hpc] at hgood
    obtain ⟨u, hu, hlen, hall⟩ := hgood
    refine (h.getSubject th).setPc ⟨u, by rw [hcompleted, hu], ?_, fun hok id hid => ?_⟩ fun session' _ _ _ _ heq => ?_
    · simp only [List.length_append, List.length_cons, List.length_nil] at hlen ⊢
      omega
    · simp only [Bool.and_eq_true] at hok
      rcases List.mem_append.mp hid with hid | hid
      · exact hall hok.1 id hid
      · rw [List.mem_singleton.mp hid, h.user_eq hpc hok.2.2, hu]
    · obtain rfl : session = session' := by simp_all
      exact (h.getSubject th).fits th session (.check (hpcs ▸ hpc))
  · -- the roles, after all permissions were granted
    rename_i session command checkedAs hpc
    split at hs
    · rename_i hans
      cases hs
      rw [hpc] at hgood
      obtain ⟨u, hu, hlen, hall⟩ := hgood
      refine (h.getSubject th).setPc ⟨u, by rw [hcompleted, hu], ?_⟩ fun _ _ _ _ _ heq => nomatch heq
      rw [List.eq_replicate_iff]
      refine ⟨by simpa using hlen, fun id hid => ?_⟩
      rcases List.mem_append.mp hid with hid | hid
      · exact hall rfl id hid
      · rw [List.mem_singleton.mp hid, h.user_eq hpc (Bool.and_eq_true_iff.mp hans).2, hu]
    · cases hs
      exact (h.getSubject th).setIdle
  · cases hs
    exact h.setIdle
  · cases hs

/-- **One step** that lends no Subject object to a second user keeps the invariant. -/
theorem SshInv.step {a : SshAction Thread Session User} (h : SshInv st) (hok : st.Undisturbed a)
    (hs : st.step a = some st') : SshInv st' := by
  cases a with
  | newThread creator child =>
    simp only [SshState.step, Option.ite_none_left_eq_some, Option.some.injEq] at hs
    rw [← hs.2]
    exact h.spawn fun _ hw => nomatch hw
  | authenticate th session username =>
    simp only [SshState.step] at hs
    split at hs
    · cases hs
      exact (h.getSubject th).setPc trivial fun _ _ _ _ _ hpc => nomatch hpc
    · cases hs
  | login th success =>
    simp only [SshState.step] at hs
    split at hs
    · rename_i session username subject hpc
      cases success with
      | false =>
        cases hs
        exact h.setIdle
      | true =>
        cases hs
        exact (h.login (hok session username subject hpc)).setPc trivial fun _ _ _ _ _ hpc => nomatch hpc
    · cases hs
  | accept th accepted completes =>
    simp only [SshState.step] at hs
    split at hs
    · rename_i session username hpc
      split at hs
      · rename_i hnone
        cases hs
        refine SshInv.setIdle (h.complete ?_)
        simpa using (Bool.and_eq_true_iff.mp hnone).2
      · cases hs
        exact h.setIdle
    · cases hs
  | startShell th session worker =>
    simp only [SshState.step] at hs
    split at hs
    · rename_i u _ _ _ hu _
      cases hs
      refine h.spawn fun session' hw => ?_
      obtain rfl : session = session' := by simpa using hw
      exact ⟨⟨u, hu⟩, hok⟩
    · cases hs
  | commandLine th command =>
    simp only [SshState.step] at hs
    split at hs
    · rename_i session hw _
      cases hs
      obtain ⟨u, hu⟩ := h.shells th session hw
      refine h.setPc ⟨u, hu, by simp, fun _ _ hid => nomatch hid⟩ fun session' _ _ _ _ hpc => ?_
      obtain rfl : session = session' := by simp_all
      exact h.fits th session (.shell hw)
    · cases hs
  | createCommand th session command =>
    simp only [SshState.step] at hs
    split at hs
    · rename_i u _ _ _ hu
      cases hs
      refine h.setPc ⟨u, hu, by simp, fun _ _ hid => nomatch hid⟩ fun session' _ _ _ _ hpc => ?_
      obtain rfl : session = session' := by simp_all
      exact hok
    · cases hs
  | check th answer => exact h.check hs
  | raise th =>
    simp only [SshState.step] at hs
    split at hs
    · cases hs
      exact h.setIdle
    · cases hs
  | execute th =>
    simp only [SshState.step] at hs
    split at hs
    · rename_i session command checkedAs hpc
      cases hs
      exact (h.execute hpc).setIdle
    · cases hs

/-- **Checked as the owner.**  In every state reached by undisturbed steps, every execution followed a complete
check against the user under whose name its session completed its authentication. -/
theorem executed_checked_as_owner (h : Runs step Undisturbed (start : SshState Thread Session User) st) :
    st.CheckedAsOwner :=
  (Runs.invariant inv_start (fun _ _ _ hI hok hs => hI.step hok hs) h).owner

/-! ### A disturbed run -/

section Disturbed

/-- Needs no permission and no role. -/
def whoCommand : DynamyCommandMeta := { nameSpace := "server", name := "who" }

/-- On I/O thread 0: `alice` completes session 0 and gets her shell on thread 1. -/
def aliceStarts : List (SshAction ℕ ℕ String) :=
  [.newThread none 0, .authenticate 0 0 "alice", .login 0 true, .accept 0 true true, .startShell 0 0 1]

/-- Then `bob` completes session 1 on the same I/O thread, and `alice` types a command. -/
def bobThenCommand : List (SshAction ℕ ℕ String) :=
  [.authenticate 0 1 "bob", .login 0 true, .accept 0 true true, .commandLine 1 whoCommand, .check 1 true, .execute 1]

/-- Without `bob` in between, nothing is disturbed. -/
theorem along_alice : Along step Undisturbed (start : SshState ℕ ℕ String)
    (aliceStarts ++ [.commandLine 1 whoCommand, .check 1 true, .execute 1]) := by
  refine .cons rfl trivial <| .cons rfl trivial <| .cons rfl ?_ <| .cons rfl trivial <| .cons rfl (.inr rfl) <|
    .cons rfl trivial <| .cons rfl trivial <| .cons rfl trivial trivial
  -- no thread works for a session yet
  rintro session username subject - th' session' - (hw | hpc)
  · by_cases hth : th' = 0 <;> simp [setPc, spawn, start, hth] at hw
  · by_cases hth : th' = 0 <;> simp [setPc, spawn, start, hth] at hpc

theorem executed_checked_as_owner_alice : ∃ st : SshState ℕ ℕ String,
    st.executed = [⟨0, whoCommand, [some "alice"]⟩] ∧ st.CheckedAsOwner := by
  refine ⟨_, ?_, executed_checked_as_owner (Runs.of_along _ along_alice rfl)⟩
  rfl

/-- The command of the session of `alice` is checked as `bob`. -/
theorem executed_checked_as_stranger :
    ¬ ∀ st : SshState ℕ ℕ String, Reaches step start st → st.CheckedAsOwner := by
  intro h
  obtain ⟨st, hreach, hview⟩ : ∃ st : SshState ℕ ℕ String, Reaches step start st ∧
      (st.executed, st.completedAs 0) = ([⟨0, whoCommand, [some "bob"]⟩], some "alice") :=
    Runs.of_exec_map (aliceStarts ++ bobThenCommand) rfl
  obtain ⟨hex, halice⟩ := Prod.mk.inj hview
  obtain ⟨u, hu, hc⟩ := h st hreach ⟨0, whoCommand, [some "bob"]⟩ (by rw [hex]; exact List.mem_singleton.mpr rfl)
  obtain rfl : "alice" = u := by simpa [halice] using hu
  exact absurd hc (by decide)

end Disturbed

end SshState

end Dynamy.Shell
