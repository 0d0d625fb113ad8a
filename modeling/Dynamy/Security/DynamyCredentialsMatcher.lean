import Dynamy.Security.PublicKeyStringDecoder

/-!
# Dynamy.Security.DynamyCredentialsMatcher — matching a token against stored credentials

Tokens, the authentication info and `doCredentialsMatch`.  `getCredentials` returns an untyped object that the
matcher takes apart by type patterns; a typed pattern does not match `null`, so a `null` component sends the
whole pair to the default case (`tokenParts`, `infoParts`).

The password service is Shiro's and not part of the repository: `PasswordService` is a parameter and
`PasswordService.Documented` is what the results below assume of it.
-/

namespace Dynamy.Security

open Dynamy.Java Dynamy.Lib

/-- `passwordsMatch(submitted, saved)`. -/
structure PasswordService where
  passwordsMatch : Option String → Option String → Bool

/-- What `DefaultPasswordService` documents about empty passwords and hashes. -/
structure PasswordService.Documented (svc : PasswordService) : Prop where
  saved_empty : ∀ submitted saved, nullOrEmpty saved →
    (svc.passwordsMatch submitted saved = true ↔ nullOrEmpty submitted)
  submitted_empty : ∀ submitted saved, ¬ nullOrEmpty saved → nullOrEmpty submitted →
    svc.passwordsMatch submitted saved = false

/-- The object that `token.getCredentials()` returns. -/
inductive TokenCredentials (PublicKey : Type)
  | pair (password : Option String) (key : Option PublicKey)
  | chars (password : Option (List Char))

/-- The tokens that `DynamyRealm.supports` admits. -/
inductive AuthenticationToken (PublicKey : Type)
  | dynamy (username password : Option String) (key : Option PublicKey)
  | usernamePassword (username : Option String) (password : Option (List Char))

namespace AuthenticationToken

variable {PublicKey : Type}

def getPrincipal : AuthenticationToken PublicKey → Option String
  | dynamy username _ _ => username
  | usernamePassword username _ => username

def getCredentials : AuthenticationToken PublicKey → TokenCredentials PublicKey
  | dynamy _ password key => .pair password key
  | usernamePassword _ password => .chars password

/-- The password that a token carries, as a string. -/
def password : AuthenticationToken PublicKey → Option String
  | dynamy _ password _ => password
  | usernamePassword _ password => password.map String.ofList

/-- The key that a token carries. -/
def key : AuthenticationToken PublicKey → Option PublicKey
  | dynamy _ _ key => key
  | usernamePassword _ _ => none

end AuthenticationToken

/-- `DynamyAuthenticationInfo`; its credentials are the pair of the stored password and the key lines. -/
structure DynamyAuthenticationInfo where
  principal : Option String
  credentials : Option String × Option (List String)
  realmName : String

variable {PublicKey : Type}

/-- `val (tokenPassword, tokenKey) = token.getCredentials() match {..}` -/
def tokenParts : TokenCredentials PublicKey → Option String × Option PublicKey
  | .pair none (some key) => (none, some key)
  | .pair (some password) none => (some password, none)
  | .chars (some password) => (some (String.ofList password), none)
  | _ => (none, none)

/-- `val (infoPassword, infoTrusted) = info.getCredentials() match {..}` -/
def infoParts : Option String × Option (List String) → Option String × Option (List String)
  | (some password, some trusted) => (some password, some trusted)
  | _ => (none, some [])

section Match

variable [DecidableEq PublicKey] (kp : KeyProvider PublicKey) (svc : PasswordService)

/-- The loop of `keysMatch`: every line is decoded when it is reached, with one decoder. -/
def keysMatchLoop (key : PublicKey) : List String → DecoderM Bool
  | [] => return false
  | trusted :: rest => do
    let trustedKey ← decodePublicKey kp trusted
    if key = trustedKey then return true else keysMatchLoop key rest

def keysMatch (key : Option PublicKey) (trustedList : Option (List String)) : Except Throwable Bool :=
  match trustedList, key with
  | some lines, some k => ((keysMatchLoop kp k lines).run {}).result
  | _, _ => .ok false

def matchSimpleAuthenticationInfo (token : AuthenticationToken PublicKey) (info : DynamyAuthenticationInfo) :
    Except Throwable Bool := do
  let (tokenPassword, tokenKey) := tokenParts token.getCredentials
  let (infoPassword, infoTrusted) := infoParts info.credentials
  if ← keysMatch kp tokenKey infoTrusted then return true
  return svc.passwordsMatch tokenPassword infoPassword

/-- `doCredentialsMatch`; `none` is an info object of another class, or none at all. -/
def doCredentialsMatch (token : AuthenticationToken PublicKey) :
    Option DynamyAuthenticationInfo → Except Throwable Bool
  | some s => matchSimpleAuthenticationInfo kp svc token s
  | none => .ok false

end Match

/-! ### The patterns -/

/-- A token counts with its password only if it carries no key, and with its key only if it carries no password. -/
theorem tokenParts_eq (token : AuthenticationToken PublicKey) : tokenParts token.getCredentials =
    (if token.key.isNone then token.password else none, if token.password.isNone then token.key else none) := by
  rcases token with ⟨_, _ | p, _ | k⟩ | ⟨_, _ | p⟩ <;> rfl

@[simp] theorem infoParts_some (h : String) (lines : List String) :
    infoParts (some h, some lines) = (some h, some lines) := rfl

/-- With a `NULL` password the key lines are dropped as well. -/
@[simp] theorem infoParts_none (lines : Option (List String)) : infoParts (none, lines) = (none, some []) := by
  cases lines <;> rfl

/-! ### The key loop -/

section KeysMatch

variable [DecidableEq PublicKey] {kp : KeyProvider PublicKey} {key : PublicKey}

theorem keysMatchLoop_cons (trusted : String) (rest : List String) (d : Decoder) :
    ((keysMatchLoop kp key (trusted :: rest)).run d).result =
      match decoded kp trusted with
      | .ok k => if key = k then .ok true
          else ((keysMatchLoop kp key rest).run ((decodePublicKey kp trusted).run {}).state).result
      | .error e => .error e := by
  rw [keysMatchLoop, Prog.run_bind, run_decodePublicKey]
  unfold decoded
  match (decodePublicKey kp trusted).run {} with
  | ⟨.ok k, d', es⟩ => by_cases hk : key = k <;> simp [hk]
  | ⟨.error e, d', es⟩ => rfl

/-- A match is a line that decodes to the key. -/
theorem keysMatchLoop_true {lines : List String} {d : Decoder}
    (h : ((keysMatchLoop kp key lines).run d).result = .ok true) : ∃ line ∈ lines, decoded kp line = .ok key := by
  induction lines generalizing d with
  | nil => simp [keysMatchLoop] at h
  | cons line rest ih =>
    rw [keysMatchLoop_cons] at h
    cases hd : decoded kp line with
    | error e => simp [hd] at h
    | ok k =>
      by_cases hk : key = k
      · exact ⟨line, by simp, by rw [hd, hk]⟩
      · simp only [hd, hk, if_false] at h
        obtain ⟨l, hl, hdl⟩ := ih h
        exact ⟨l, by simp [hl], hdl⟩

/-- Without a match every line was decoded, to another key. -/
theorem keysMatchLoop_false {lines : List String} {d : Decoder} :
    ((keysMatchLoop kp key lines).run d).result = .ok false ↔
      ∀ line ∈ lines, ∃ k, decoded kp line = .ok k ∧ k ≠ key := by
  induction lines generalizing d with
  | nil => simp [keysMatchLoop]
  | cons line rest ih =>
    rw [keysMatchLoop_cons]
    cases hd : decoded kp line with
    | error e => simp [hd]
    | ok k =>
      by_cases hk : key = k
      · simp [hd, hk]
      · simp [hd, hk, ih, Ne.symm hk]

/-- The loop throws only at a line that does not decode. -/
theorem keysMatchLoop_error {lines : List String} {d : Decoder} {e : Throwable}
    (h : ((keysMatchLoop kp key lines).run d).result = .error e) : ∃ line ∈ lines, decoded kp line = .error e := by
  induction lines generalizing d with
  | nil => simp [keysMatchLoop] at h
  | cons line rest ih =>
    rw [keysMatchLoop_cons] at h
    cases hd : decoded kp line with
    | error e' =>
      simp only [hd, Except.error.injEq] at h
      exact ⟨line, by simp, by rw [hd, h]⟩
    | ok k =>
      by_cases hk : key = k
      · simp [hd, hk] at h
      · simp only [hd, hk, if_false] at h
        obtain ⟨l, hl, hdl⟩ := ih h
        exact ⟨l, by simp [hl], hdl⟩

variable {tokenKey : Option PublicKey} {lines : List String}

theorem keysMatch_true (h : keysMatch kp tokenKey (some lines) = .ok true) :
    ∃ k, tokenKey = some k ∧ ∃ line ∈ lines, decoded kp line = .ok k := by
  cases tokenKey with
  | none => simp [keysMatch] at h
  | some k => exact ⟨k, rfl, keysMatchLoop_true h⟩

@[simp] theorem keysMatch_nil : keysMatch kp tokenKey (some []) = .ok false := by cases tokenKey <;> rfl

@[simp] theorem keysMatch_none : keysMatch kp none (some lines) = .ok false := rfl

end KeysMatch

/-! ### Acceptance -/

section Accept

variable [DecidableEq PublicKey] {kp : KeyProvider PublicKey} {svc : PasswordService}

/-- A token is accepted by its key, or, when no key line matched, by the password service. -/
theorem doCredentialsMatch_true {token : AuthenticationToken PublicKey} {info : DynamyAuthenticationInfo} :
    doCredentialsMatch kp svc token (some info) = .ok true ↔
      keysMatch kp (tokenParts token.getCredentials).2 (infoParts info.credentials).2 = .ok true ∨
        keysMatch kp (tokenParts token.getCredentials).2 (infoParts info.credentials).2 = .ok false ∧
          svc.passwordsMatch (tokenParts token.getCredentials).1 (infoParts info.credentials).1 = true := by
  simp only [doCredentialsMatch, matchSimpleAuthenticationInfo]
  match keysMatch kp (tokenParts token.getCredentials).2 (infoParts info.credentials).2 with
  | .ok true => simp [bind, Except.bind, pure, Except.pure]
  | .ok false => simp [bind, Except.bind, pure, Except.pure]
  | .error e => simp [bind, Except.bind]

end Accept

end Dynamy.Security
