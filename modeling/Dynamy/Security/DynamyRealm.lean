import Dynamy.Security.DynamyCredentialsMatcher
import Dynamy.Security.OsgiJdbcSecurityAccess
import Mathlib.Data.Finset.Dedup

/-!
# Dynamy.Security.DynamyRealm — from a token to the login decision

`doGetAuthenticationInfo` asks three queries, each on a connection of its own, so each sees the database as it is
at that moment: `QueryStates` holds the three states.  `authenticate` puts the matcher behind it, as Shiro does.
-/

namespace Dynamy.Security

open Dynamy.Java Dynamy.Lib

/-- The database as `userExists`, `getPrincipalPassword` and `getPrincipalKeys` find it. -/
structure QueryStates where
  atExists : Database
  atPassword : Database
  atKeys : Database

/-- All three queries find the same state. -/
def QueryStates.still (db : Database) : QueryStates := ⟨db, db, db⟩

variable {PublicKey : Type}

/-- `getName()`: Shiro names a realm by its class and an instance number. -/
def getName : String := "dynamy.security.realms.DynamyRealm_0"

def doGetAuthenticationInfo (qs : QueryStates) (token : AuthenticationToken PublicKey) :
    Except Throwable (Option DynamyAuthenticationInfo) := do
  let principal := token.getPrincipal
  if ← qs.atExists.userExists principal then
    let password ← qs.atPassword.getPrincipalPassword principal
    let keys ← qs.atKeys.getPrincipalKeys principal
    return some ⟨principal, (password, some keys), getName⟩
  else return none

/-- `SimpleAuthorizationInfo`, built from two sets. -/
structure SimpleAuthorizationInfo (Permission : Type) where
  roles : Finset String
  objectPermissions : Finset Permission
  deriving DecidableEq

/-- `doGetAuthorizationInfo` on the list of a principal collection. -/
def doGetAuthorizationInfo {Permission : Type} [DecidableEq Permission]
    (newWildcardPermission : String → Except Throwable Permission) (securityAccess : Tables)
    (principals : List String) : Except Throwable (SimpleAuthorizationInfo Permission) := do
  let permissionCollections ← principals.mapM fun stringPrincipal =>
    securityAccess.getPermissions newWildcardPermission (some stringPrincipal)
  let rolesCollections ← principals.mapM fun stringPrincipal => securityAccess.getRoles (some stringPrincipal)
  let permissions := permissionCollections.flatten
  let roles := rolesCollections.flatten
  return { roles := roles.toFinset, objectPermissions := permissions.toFinset }

/-- The login decision: the realm's info, then the matcher. -/
def authenticate [DecidableEq PublicKey] (kp : KeyProvider PublicKey) (svc : PasswordService) (qs : QueryStates)
    (token : AuthenticationToken PublicKey) : Except Throwable Bool := do
  let info ← doGetAuthenticationInfo qs token
  doCredentialsMatch kp svc token info

/-- The key lines that a state yields for a name: none for a name that no row has. -/
def Database.keyLinesOf (db : Database) (principal : Option String) : List String :=
  match db.findUser principal with
  | some u => db.keyLines u
  | none => []

/-- The info that the realm builds from a stored password and key lines. -/
def infoOf (token : AuthenticationToken PublicKey) (stored : Option String) (lines : List String) :
    DynamyAuthenticationInfo := ⟨token.getPrincipal, (stored, some lines), getName⟩

variable {qs : QueryStates} {token : AuthenticationToken PublicKey}

theorem doGetAuthenticationInfo_eq : doGetAuthenticationInfo qs token =
    .ok (if (qs.atExists.findUser token.getPrincipal).isSome then
      some (infoOf token ((qs.atPassword.findUser token.getPrincipal).bind UserRow.password)
        (qs.atKeys.keyLinesOf token.getPrincipal)) else none) := by
  simp only [doGetAuthenticationInfo, Database.userExists_eq, Database.getPrincipalPassword_eq,
    Database.getPrincipalKeys_eq]
  cases (qs.atExists.findUser token.getPrincipal).isSome <;> rfl

variable [DecidableEq PublicKey] {kp : KeyProvider PublicKey} {svc : PasswordService}

/-- A name that the first query does not find is refused. -/
theorem authenticate_of_absent (h : qs.atExists.findUser token.getPrincipal = none) :
    authenticate kp svc qs token = .ok false := by
  unfold authenticate
  rw [doGetAuthenticationInfo_eq, h]
  rfl

/-- A name that the first query finds is judged by what the other two return. -/
theorem authenticate_of_present {u : UserRow} (h : qs.atExists.findUser token.getPrincipal = some u) :
    authenticate kp svc qs token = doCredentialsMatch kp svc token (some (infoOf token
      ((qs.atPassword.findUser token.getPrincipal).bind UserRow.password)
      (qs.atKeys.keyLinesOf token.getPrincipal))) := by
  unfold authenticate
  rw [doGetAuthenticationInfo_eq, h]
  rfl

end Dynamy.Security
