import Dynamy.Lib.Prog
import Dynamy.Security.DynamyCredentialsMatcher

/-!
# Dynamy.Shell.Authentication — what a refused login leaves behind

`PasswordAuthentication` and `PublicKeyAuthentication` log the thread's Subject in and then ask a predicate whether it
may come in.  Shiro is not part of the repository: `Authenticator` is what its security manager makes of a token, and
`Subject.login` changes the identity on success only.  A refusal by the predicate comes after that, and nothing logs
the Subject out again: `refusalKeeps_iff` says when a refused call leaves the identity as it was.
-/

namespace Dynamy.Shell

open Dynamy.Java Dynamy.Lib Dynamy.Security

variable {Principals PublicKey : Type}

/-- The identity of the Subject bound to a thread. -/
structure Subject (Principals : Type) where
  principals : Option Principals := none
  authenticated : Bool := false
  deriving DecidableEq

/-- `logger.debug(message, e)` -/
inductive AuthEvent
  | debug (message : String) (e : Throwable)

abbrev SubjectM (Principals : Type) : Type → Type := Prog AuthEvent (Subject Principals) Throwable

/-- What the security manager makes of a token: the principals, or an `AuthenticationException` or another. -/
abbrev Authenticator (Principals PublicKey : Type) : Type := AuthenticationToken PublicKey → Except Throwable Principals

/-- `subject.login(token)` -/
def Subject.login (securityManager : Authenticator Principals PublicKey) (token : AuthenticationToken PublicKey) :
    SubjectM Principals Unit := do
  let principals ← Prog.ofExcept (securityManager token)
  Prog.update fun _ => { principals := some principals, authenticated := true }

variable (securityManager : Authenticator Principals PublicKey) (f : Subject Principals → Except Throwable Bool)

/-- The `authenticate` of both classes, which differ in the token. -/
def authenticateToken (token : AuthenticationToken PublicKey) : SubjectM Principals Bool :=
  Prog.attempt
    (do
      Subject.login securityManager token
      let subject ← Prog.read
      if subject.authenticated then Prog.ofExcept (f subject) else return false)
    fun e => do
      Prog.emit (.debug "Exception occured, cannot authenticate" e)
      return false

def PasswordAuthentication.authenticate (username password : Option String) : SubjectM Principals Bool :=
  authenticateToken securityManager f (.dynamy username password none)

def PublicKeyAuthentication.authenticate (username : Option String) (key : Option PublicKey) :
    SubjectM Principals Bool :=
  authenticateToken securityManager f (.dynamy username none key)

/-- `checkPermission`, given what the realm says of the Subject's permissions. -/
def SystemShellService.checkPermission (isPermitted : Subject Principals → String → Except Throwable Bool) :
    Subject Principals → Except Throwable Bool := fun s => isPermitted s "dynamy:host:access"

/-! ### One call -/

/-- The Subject after a successful login. -/
def loggedIn (principals : Principals) : Subject Principals := { principals := some principals, authenticated := true }

variable {securityManager f} {token : AuthenticationToken PublicKey} {before : Subject Principals}

theorem run_login_ok {principals : Principals} (h : securityManager token = .ok principals) :
    (Subject.login securityManager token).run before = ⟨.ok (), loggedIn principals, []⟩ := by
  rw [Subject.login, h]
  rfl

theorem run_login_raises {e : Throwable} (h : securityManager token = .error e) :
    (Subject.login securityManager token).run before = ⟨.error e, before, []⟩ := by
  rw [Subject.login, h]
  rfl

/-- A login that raises is logged and refused, and the Subject is as before. -/
theorem run_authenticateToken_raises {e : Throwable} (h : securityManager token = .error e) :
    (authenticateToken securityManager f token).run before =
      ⟨.ok false, before, [.debug "Exception occured, cannot authenticate" e]⟩ := by
  rw [authenticateToken, Prog.run_attempt, Prog.run_bind_of_error (run_login_raises h)]
  rfl

/-- After a login the predicate decides, and the Subject stays logged in. -/
theorem run_authenticateToken_ok {principals : Principals} (h : securityManager token = .ok principals) :
    (authenticateToken securityManager f token).run before =
      match f (loggedIn principals) with
      | .ok accepted => ⟨.ok accepted, loggedIn principals, []⟩
      | .error e => ⟨.ok false, loggedIn principals, [.debug "Exception occured, cannot authenticate" e]⟩ := by
  have hbody : (do
      Subject.login securityManager token
      let subject ← Prog.read
      if subject.authenticated then Prog.ofExcept (f subject) else return false : SubjectM Principals Bool).run before =
        ⟨f (loggedIn principals), loggedIn principals, []⟩ := by
    rw [Prog.run_bind_of_ok (run_login_ok h), Prog.run_read_bind, loggedIn, if_pos rfl, Prog.run_ofExcept]
  rw [authenticateToken, Prog.run_attempt, hbody]
  cases f (loggedIn principals) with
  | ok accepted => rfl
  | error e => rfl

/-- `authenticate` raises nothing. -/
theorem authenticateToken_returns (before : Subject Principals) :
    ∃ accepted, ((authenticateToken securityManager f token).run before).result = .ok accepted := by
  cases hlogin : securityManager token with
  | error e => exact ⟨false, by rw [run_authenticateToken_raises hlogin]⟩
  | ok principals =>
    rw [run_authenticateToken_ok hlogin]
    cases f (loggedIn principals) with
    | ok accepted => exact ⟨accepted, rfl⟩
    | error e => exact ⟨false, rfl⟩

/-! ### Refusals -/

/-- If the call returns `false`, the Subject is as before. -/
def RefusalKeeps (call : SubjectM Principals Bool) (before : Subject Principals) : Prop :=
  (call.run before).result = .ok false → (call.run before).state = before

variable (securityManager f) in
/-- The login raises, or its Subject is accepted, or it makes no difference. -/
def NothingToUndo (token : AuthenticationToken PublicKey) (before : Subject Principals) : Prop :=
  ∀ principals, securityManager token = .ok principals →
    f (loggedIn principals) = .ok true ∨ before = loggedIn principals

/-- After a login the Subject is the one that it makes, and the call refuses what the predicate does not accept. -/
theorem authenticateToken_ok (f : Subject Principals → Except Throwable Bool) (before : Subject Principals)
    {principals : Principals} (h : securityManager token = .ok principals) :
    ((authenticateToken securityManager f token).run before).state = loggedIn principals ∧
      (((authenticateToken securityManager f token).run before).result = .ok false ↔
        f (loggedIn principals) ≠ .ok true) := by
  rw [run_authenticateToken_ok h]
  cases f (loggedIn principals) with
  | ok accepted => cases accepted <;> simp
  | error e => simp

theorem authenticateToken_refusalKeeps_iff :
    RefusalKeeps (authenticateToken securityManager f token) before ↔ NothingToUndo securityManager f token before := by
  unfold RefusalKeeps NothingToUndo
  cases hlogin : securityManager token with
  | error e =>
    rw [run_authenticateToken_raises hlogin]
    exact iff_of_true (fun _ => rfl) fun principals hprincipals => by cases hprincipals
  | ok principals =>
    obtain ⟨hstate, hrefused⟩ := authenticateToken_ok f before hlogin
    rw [hstate, hrefused]
    constructor
    · rintro hkeeps _ ⟨⟩
      by_cases haccepts : f (loggedIn principals) = .ok true
      · exact .inl haccepts
      · exact .inr (hkeeps haccepts).symm
    · intro h hrefuses
      exact ((h principals rfl).resolve_left hrefuses).symm

/-- **Refused logins.**  Whoever the Subject was before, a call of either class that returns `false` leaves its
identity as it was if and only if the login raised, or the predicate accepts the Subject that the login makes, or that
Subject was the one before. -/
theorem refusalKeeps_iff (securityManager : Authenticator Principals PublicKey)
    (f : Subject Principals → Except Throwable Bool) (username password : Option String) (key : Option PublicKey)
    (before : Subject Principals) :
    (RefusalKeeps (PasswordAuthentication.authenticate securityManager f username password) before ↔
        NothingToUndo securityManager f (.dynamy username password none) before) ∧
      (RefusalKeeps (PublicKeyAuthentication.authenticate securityManager f username key) before ↔
        NothingToUndo securityManager f (.dynamy username none key) before) :=
  ⟨authenticateToken_refusalKeeps_iff, authenticateToken_refusalKeeps_iff⟩

/-- A user whose credentials are right and who may not enter the host stays logged in on the thread. -/
theorem refusal_not_kept : ¬ ∀ (securityManager : Authenticator String Unit)
    (f : Subject String → Except Throwable Bool) (username password : Option String) (before : Subject String),
      RefusalKeeps (PasswordAuthentication.authenticate securityManager f username password) before := by
  intro h
  have hkept := h (fun _ => .ok "alice") (SystemShellService.checkPermission fun _ _ => .ok false) (some "alice")
    (some "secret") {} rfl
  cases hkept

end Dynamy.Shell
