import Dynamy.Java
import Mathlib.Data.List.Nodup

/-!
# Dynamy.Security.OsgiJdbcSecurityAccess — the security tables and their queries

The tables of changeSet 1 with their constraints (`Schema`), a `Database` as tables that satisfy them, the
statements other clients run against it (`Change`, `Database.commit`), and the five default queries of
`OsgiJdbcSecurityAccess` with the loops that read their result sets.  Columns that no query reads (`ACTIVE`,
`DESCRIPTION`) are left out; `USERNAME = ?` with a `null` argument selects nothing.
-/

namespace Dynamy.Security

open Dynamy.Java

/-! ### Tables -/

/-- `DYNAMY_USERS`; the password hash may be `NULL`. -/
structure UserRow where
  id : ℕ
  username : String
  password : Option String
  deriving DecidableEq, Repr

/-- `DYNAMY_AUTHORIZED_KEYS`. -/
structure KeyRow where
  key : String
  userId : ℕ
  deriving DecidableEq, Repr

/-- `DYNAMY_ROLES`. -/
structure RoleRow where
  id : ℕ
  name : String
  deriving DecidableEq, Repr

/-- `DYNAMY_USER_ROLE`. -/
structure UserRoleRow where
  userId : ℕ
  roleId : ℕ
  deriving DecidableEq, Repr

/-- `DYNAMY_ROLE_PERMISSION`. -/
structure RolePermissionRow where
  roleId : ℕ
  permission : String
  deriving DecidableEq, Repr

/-- `DYNAMY_USER_PERMISSION`. -/
structure UserPermissionRow where
  userId : ℕ
  permission : String
  deriving DecidableEq, Repr

structure Tables where
  users : List UserRow := []
  authorizedKeys : List KeyRow := []
  roles : List RoleRow := []
  userRoles : List UserRoleRow := []
  rolePermissions : List RolePermissionRow := []
  userPermissions : List UserPermissionRow := []
  deriving DecidableEq, Repr

/-- The primary keys, unique columns and foreign keys of changeSet 1. -/
structure Schema (t : Tables) : Prop where
  userId : (t.users.map UserRow.id).Nodup
  username : (t.users.map UserRow.username).Nodup
  key : t.authorizedKeys.Nodup
  keyUser : ∀ k ∈ t.authorizedKeys, k.userId ∈ t.users.map UserRow.id
  roleId : (t.roles.map RoleRow.id).Nodup
  roleName : (t.roles.map RoleRow.name).Nodup
  userRole : t.userRoles.Nodup
  userRoleRefs : ∀ r ∈ t.userRoles, r.userId ∈ t.users.map UserRow.id ∧ r.roleId ∈ t.roles.map RoleRow.id
  rolePermission : t.rolePermissions.Nodup
  rolePermissionRole : ∀ r ∈ t.rolePermissions, r.roleId ∈ t.roles.map RoleRow.id
  userPermission : t.userPermissions.Nodup
  userPermissionUser : ∀ r ∈ t.userPermissions, r.userId ∈ t.users.map UserRow.id

instance (t : Tables) : Decidable (Schema t) :=
  decidable_of_iff
    (((t.users.map UserRow.id).Nodup ∧ (t.users.map UserRow.username).Nodup ∧ t.authorizedKeys.Nodup ∧
        (∀ k ∈ t.authorizedKeys, k.userId ∈ t.users.map UserRow.id)) ∧
      ((t.roles.map RoleRow.id).Nodup ∧ (t.roles.map RoleRow.name).Nodup ∧ t.userRoles.Nodup ∧
        (∀ r ∈ t.userRoles, r.userId ∈ t.users.map UserRow.id ∧ r.roleId ∈ t.roles.map RoleRow.id)) ∧
      (t.rolePermissions.Nodup ∧ (∀ r ∈ t.rolePermissions, r.roleId ∈ t.roles.map RoleRow.id)) ∧
      t.userPermissions.Nodup ∧ (∀ r ∈ t.userPermissions, r.userId ∈ t.users.map UserRow.id))
    ⟨fun ⟨⟨a, b, c, d⟩, ⟨e, f, g, h⟩, ⟨i, j⟩, k, l⟩ => ⟨a, b, c, d, e, f, g, h, i, j, k, l⟩,
      fun s => ⟨⟨s.1, s.2, s.3, s.4⟩, ⟨s.5, s.6, s.7, s.8⟩, ⟨s.9, s.10⟩, s.11, s.12⟩⟩

/-- A state of the database: tables that meet the schema. -/
structure Database extends Tables where
  schema : Schema toTables

/-! ### Statements of other clients -/

/-- One statement on users or keys. -/
inductive Change
  | insertUser (r : UserRow)
  | updateUser (id : ℕ) (r : UserRow)
  | deleteUser (id : ℕ)
  | insertKey (k : KeyRow)
  | updateKey (k k' : KeyRow)
  | deleteKey (k : KeyRow)
  deriving DecidableEq, Repr

def Tables.change (t : Tables) : Change → Tables
  | .insertUser r => { t with users := t.users ++ [r] }
  | .updateUser id r => { t with users := t.users.map fun u => if u.id = id then r else u }
  | .deleteUser id => { t with users := t.users.filter fun u => u.id ≠ id }
  | .insertKey k => { t with authorizedKeys := t.authorizedKeys ++ [k] }
  | .updateKey k k' => { t with authorizedKeys := t.authorizedKeys.map fun x => if x = k then k' else x }
  | .deleteKey k => { t with authorizedKeys := t.authorizedKeys.filter fun x => x ≠ k }

/-- A statement that would violate a constraint is refused and changes nothing. -/
def Database.commit (db : Database) (c : Change) : Database :=
  if h : Schema (db.toTables.change c) then ⟨db.toTables.change c, h⟩ else db

/-- The state after some statements. -/
def Database.commits (db : Database) (cs : List Change) : Database := cs.foldl Database.commit db

/-- The states a database goes through while some statements run, the first and the last included. -/
def Database.history (db : Database) : List Change → List Database
  | [] => [db]
  | c :: cs => db :: (db.commit c).history cs

theorem Database.mem_history_self (db : Database) (cs : List Change) : db ∈ db.history cs := by
  cases cs <;> simp [Database.history]

theorem Database.commits_mem_history (db : Database) (cs : List Change) : db.commits cs ∈ db.history cs := by
  induction cs generalizing db with
  | nil => simp [Database.history, Database.commits]
  | cons c cs ih => exact List.mem_cons_of_mem _ (ih (db.commit c))

/-! ### Queries -/

/-- The text of `existsQuery`, which two error messages quote. -/
def existsQueryText : String := "SELECT COUNT(*) FROM DYNAMY_USERS WHERE USERNAME = ?"

namespace Tables

variable (t : Tables) (principal : Option String)

/-- The rows of `DYNAMY_USERS` that `USERNAME = ?` selects. -/
def usersNamed : List UserRow := t.users.filter fun u => some u.username = principal

/-- `SELECT COUNT(*) FROM DYNAMY_USERS WHERE USERNAME = ?` -/
def existsQuery : List ℕ := [(t.usersNamed principal).length]

/-- `SELECT PASSWORD FROM DYNAMY_USERS WHERE USERNAME = ?` -/
def passwordQuery : List (Option String) := (t.usersNamed principal).map UserRow.password

/-- `SELECT KEY FROM DYNAMY_AUTHORIZED_KEYS AK INNER JOIN DYNAMY_USERS U ON AK.USER_ID = U.ID WHERE U.USERNAME = ?` -/
def keysQuery : List String := t.authorizedKeys.flatMap fun ak =>
  (t.users.filter fun u => ak.userId = u.id ∧ some u.username = principal).map fun _ => ak.key

/-- `SELECT R.NAME FROM DYNAMY_ROLES R INNER JOIN DYNAMY_USER_ROLE UR ON R.ID = UR.ROLE_ID INNER JOIN DYNAMY_USERS U
ON U.ID = UR.USER_ID WHERE USERNAME = ?` -/
def rolesQuery : List String := t.roles.flatMap fun r =>
  (t.userRoles.filter fun ur => r.id = ur.roleId).flatMap fun ur =>
    (t.users.filter fun u => u.id = ur.userId ∧ some u.username = principal).map fun _ => r.name

/-- The two arms of the `UNION` of `permissionQuery`: permission and user name. -/
def permissionView : List (String × String) :=
  ((t.rolePermissions.flatMap fun rp => (t.roles.filter fun r => rp.roleId = r.id).flatMap fun r =>
      (t.userRoles.filter fun ur => r.id = ur.roleId).flatMap fun ur =>
        (t.users.filter fun u => u.id = ur.userId).map fun u => (rp.permission, u.username)) ++
    (t.userPermissions.flatMap fun up =>
      (t.users.filter fun u => up.userId = u.id).map fun u => (up.permission, u.username))).dedup

/-- `SELECT DISTINCT PERMISSION FROM (.. UNION ..) WHERE USERNAME = ?` -/
def permissionQuery : List String :=
  ((t.permissionView.filter fun pu => some pu.2 = principal).map Prod.fst).dedup

/-- The rows of the loop `while (rs.next()) { x = ..; if (rs.next()) throw .. }` over a result set. -/
def singleRow {α β : Type} (initial : β) (get : α → β) : List α → Except Throwable β
  | [] => .ok initial
  | [r] => .ok (get r)
  | _ :: _ :: _ => .error ⟨.runtime, some ("Got more than one result for query " ++ existsQueryText)⟩

def userExists : Except Throwable Bool := singleRow false (· == 1) (t.existsQuery principal)

def getPrincipalPassword : Except Throwable (Option String) := singleRow none id (t.passwordQuery principal)

def getPrincipalKeys : Except Throwable (List String) := .ok (t.keysQuery principal)

end Tables

namespace Tables

variable {Permission : Type} (newWildcardPermission : String → Except Throwable Permission)

def getPermissions (t : Tables) (principal : Option String) : Except Throwable (List Permission) :=
  (t.permissionQuery principal).mapM newWildcardPermission

def getRoles (t : Tables) (principal : Option String) : Except Throwable (List String) :=
  .ok (t.rolesQuery principal)

end Tables

/-! ### What the queries return on a database -/

/-- A list with pairwise different `f`-values has at most one element of a given `f`-value. -/
theorem filter_eq_find?_of_nodup {α β : Type} [DecidableEq β] (f : α → β) (b : β) :
    ∀ l : List α, (l.map f).Nodup → l.filter (fun a => f a = b) = (l.find? fun a => f a = b).toList
  | [], _ => rfl
  | a :: l, h => by
    rw [List.map_cons, List.nodup_cons] at h
    have ih := filter_eq_find?_of_nodup f b l h.2
    by_cases hb : f a = b
    · subst hb
      have hnone : l.filter (fun x => f x = f a) = [] := by
        rw [List.filter_eq_nil_iff]
        intro x hx hfx
        exact h.1 (List.mem_map.mpr ⟨x, hx, by simpa using hfx⟩)
      simp [hnone]
    · simp [hb, ih]

namespace Database

variable (db : Database)

/-- The user with a given name, of which there is at most one. -/
def findUser (principal : Option String) : Option UserRow := db.users.find? fun u => some u.username = principal

/-- The key lines of a user. -/
def keyLines (u : UserRow) : List String :=
  (db.authorizedKeys.filter fun ak => ak.userId = u.id).map KeyRow.key

variable {db} {principal : Option String} {u : UserRow}

theorem usersNamed_eq : db.usersNamed principal = (db.findUser principal).toList := by
  unfold Tables.usersNamed findUser
  have h : (db.users.map fun u => some u.username).Nodup := by
    have := db.schema.username.map fun _ _ h => Option.some.inj h
    rwa [List.map_map] at this
  exact filter_eq_find?_of_nodup (fun u : UserRow => some u.username) principal db.users h

theorem findUser_eq_some : db.findUser principal = some u ↔ u ∈ db.users ∧ some u.username = principal := by
  have h : db.usersNamed principal = (db.findUser principal).toList := usersNamed_eq
  constructor
  · intro hu
    exact ⟨List.mem_of_find?_eq_some hu, by simpa using List.find?_some hu⟩
  · rintro ⟨hu, hn⟩
    have hmem : u ∈ db.usersNamed principal := List.mem_filter.mpr ⟨hu, by simpa using hn⟩
    rw [h] at hmem
    simpa using hmem

theorem userExists_eq : db.userExists principal = .ok (db.findUser principal).isSome := by
  unfold Tables.userExists Tables.existsQuery
  rw [usersNamed_eq]
  cases db.findUser principal <;> rfl

theorem getPrincipalPassword_eq :
    db.getPrincipalPassword principal = .ok ((db.findUser principal).bind UserRow.password) := by
  unfold Tables.getPrincipalPassword Tables.passwordQuery
  rw [usersNamed_eq]
  cases db.findUser principal <;> rfl

theorem getPrincipalKeys_eq : db.getPrincipalKeys principal =
    .ok (match db.findUser principal with | some u => db.keyLines u | none => []) := by
  unfold Tables.getPrincipalKeys Tables.keysQuery keyLines
  congr 1
  have hjoin : ∀ ak : KeyRow,
      (db.users.filter fun u => ak.userId = u.id ∧ some u.username = principal) =
        (db.findUser principal).toList.filter fun u => ak.userId = u.id := by
    intro ak
    rw [← usersNamed_eq, Tables.usersNamed, List.filter_filter]
    simp
  simp only [hjoin]
  cases db.findUser principal with
  | none => simp
  | some u =>
    simp only [Option.toList_some]
    induction db.authorizedKeys with
    | nil => rfl
    | cons ak aks ih =>
      rw [List.flatMap_cons, ih]
      by_cases hk : ak.userId = u.id <;> simp [hk]

end Database

end Dynamy.Security
