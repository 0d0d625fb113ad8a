import Dynamy.Security.DynamyRealm

/-!
# Dynamy.Security.Grants — who holds which role and which permission

`Assigned` and `Granted` say on the tables what a user holds: the roles that the user-role table assigns, and the
permissions of those roles and of the user.  The queries return exactly that for one name, and the realm's
authorization info is the union over the names it is asked about.
-/

namespace Dynamy.Security

open Dynamy.Java

/-! ### What a user holds -/

namespace Tables

variable (t : Tables)

/-- The role is assigned to the user. -/
def Assigned (u : UserRow) (r : RoleRow) : Prop := r ∈ t.roles ∧ ⟨u.id, r.id⟩ ∈ t.userRoles

/-- The permission is granted to the user, directly or through an assigned role. -/
def Granted (u : UserRow) (permission : String) : Prop :=
  ⟨u.id, permission⟩ ∈ t.userPermissions ∨ ∃ r, t.Assigned u r ∧ ⟨r.id, permission⟩ ∈ t.rolePermissions

/-- Some permission row of the tables has the string. -/
def Mentions (permission : String) : Prop :=
  permission ∈ t.userPermissions.map UserPermissionRow.permission ∨
    permission ∈ t.rolePermissions.map RolePermissionRow.permission

variable {t}

theorem Granted.mentions {u : UserRow} {permission : String} (h : t.Granted u permission) : t.Mentions permission := by
  rcases h with h | ⟨r, -, h⟩
  · exact .inl (List.mem_map.mpr ⟨_, h, rfl⟩)
  · exact .inr (List.mem_map.mpr ⟨_, h, rfl⟩)

/-! ### What the queries return -/

/-- **Roles of a name**: the join finds exactly the roles assigned to the users of that name. -/
theorem mem_rolesQuery {principal : Option String} {name : String} : name ∈ t.rolesQuery principal ↔
    ∃ u ∈ t.users, some u.username = principal ∧ ∃ r, t.Assigned u r ∧ r.name = name := by
  simp only [rolesQuery, List.mem_flatMap, List.mem_map, List.mem_filter, decide_eq_true_eq]
  constructor
  · rintro ⟨r, hr, ⟨userId, roleId⟩, ⟨hur, rfl⟩, u, ⟨hu, rfl, hname⟩, rfl⟩
    exact ⟨u, hu, hname, r, ⟨hr, hur⟩, rfl⟩
  · rintro ⟨u, hu, hname, r, ⟨hr, hur⟩, rfl⟩
    exact ⟨r, hr, ⟨u.id, r.id⟩, ⟨hur, rfl⟩, u, ⟨hu, rfl, hname⟩, rfl⟩

/-- The two arms of the union: what roles grant and what users are granted, each with the user's name. -/
theorem mem_permissionView {permission username : String} : (permission, username) ∈ t.permissionView ↔
    ∃ u ∈ t.users, u.username = username ∧ t.Granted u permission := by
  simp only [permissionView, List.mem_dedup, List.mem_append, List.mem_flatMap, List.mem_map, List.mem_filter,
    decide_eq_true_eq, Prod.mk.injEq]
  constructor
  · rintro (⟨⟨roleId, p⟩, hrp, r, ⟨hr, rfl⟩, ⟨userId, roleId'⟩, ⟨hur, rfl⟩, u, ⟨hu, rfl⟩, rfl, rfl⟩ |
      ⟨⟨userId, p⟩, hup, u, ⟨hu, rfl⟩, rfl, rfl⟩)
    · exact ⟨u, hu, rfl, .inr ⟨r, ⟨hr, hur⟩, hrp⟩⟩
    · exact ⟨u, hu, rfl, .inl hup⟩
  · rintro ⟨u, hu, rfl, hup | ⟨r, ⟨hr, hur⟩, hrp⟩⟩
    · exact .inr ⟨⟨u.id, permission⟩, hup, u, ⟨hu, rfl⟩, rfl, rfl⟩
    · exact .inl ⟨⟨r.id, permission⟩, hrp, r, ⟨hr, rfl⟩, ⟨u.id, r.id⟩, ⟨hur, rfl⟩, u, ⟨hu, rfl⟩, rfl, rfl⟩

/-- **Permissions of a name**: exactly those granted to the users of that name. -/
theorem mem_permissionQuery {principal : Option String} {permission : String} :
    permission ∈ t.permissionQuery principal ↔
      ∃ u ∈ t.users, some u.username = principal ∧ t.Granted u permission := by
  simp only [permissionQuery, List.mem_dedup, List.mem_map, List.mem_filter, decide_eq_true_eq, Prod.exists]
  constructor
  · rintro ⟨p, username, ⟨hview, hname⟩, rfl⟩
    obtain ⟨u, hu, rfl, hgranted⟩ := mem_permissionView.mp hview
    exact ⟨u, hu, hname, hgranted⟩
  · rintro ⟨u, hu, hname, hgranted⟩
    exact ⟨permission, u.username, ⟨mem_permissionView.mpr ⟨u, hu, rfl, hgranted⟩, hname⟩, rfl⟩

end Tables

/-! ### The authorization info -/

/-- A loop that fails nowhere collects the results of its steps. -/
theorem mapM_ok {α β : Type} {f : α → Except Throwable β} {l : List α} (h : ∀ a ∈ l, ∃ b, f a = .ok b) :
    ∃ bs, l.mapM f = .ok bs ∧ ∀ b, b ∈ bs ↔ ∃ a ∈ l, f a = .ok b := by
  induction l with
  | nil => exact ⟨[], rfl, by simp⟩
  | cons a l ih =>
    obtain ⟨b, hb⟩ := h a List.mem_cons_self
    obtain ⟨bs, hbs, hmem⟩ := ih fun a ha => h a (List.mem_cons_of_mem _ ha)
    refine ⟨b :: bs, ?_, fun c => ?_⟩
    · rw [List.mapM_cons, hb, hbs]
      rfl
    · simp only [List.mem_cons, hmem, exists_eq_or_imp, hb, Except.ok.injEq]
      exact or_congr_left eq_comm

section Info

variable {Permission : Type} [DecidableEq Permission] {newWildcardPermission : String → Except Throwable Permission}

/-- **The authorization info is what the users hold.**  Where `WildcardPermission` accepts every permission string of
the database, the info for some names has exactly the names of the roles assigned to the users of those names, and
exactly the permissions granted to them directly or through their roles. -/
theorem doGetAuthorizationInfo_exact (db : Database)
    (hperm : ∀ permission, db.Mentions permission → ∃ p, newWildcardPermission permission = .ok p)
    (principals : List String) :
    ∃ info, doGetAuthorizationInfo newWildcardPermission db.toTables principals = .ok info ∧
      (∀ name, name ∈ info.roles ↔
        ∃ u ∈ db.users, u.username ∈ principals ∧ ∃ r, db.Assigned u r ∧ r.name = name) ∧
      ∀ p, p ∈ info.objectPermissions ↔
        ∃ u ∈ db.users, u.username ∈ principals ∧
          ∃ permission, db.Granted u permission ∧ newWildcardPermission permission = .ok p := by
  have hone : ∀ principal ∈ principals, ∃ ps, db.getPermissions newWildcardPermission (some principal) = .ok ps ∧
      ∀ p, p ∈ ps ↔ ∃ permission ∈ db.permissionQuery (some principal), newWildcardPermission permission = .ok p := by
    intro principal _
    refine mapM_ok fun permission hmem => hperm permission ?_
    obtain ⟨u, -, -, hgranted⟩ := Tables.mem_permissionQuery.mp hmem
    exact hgranted.mentions
  obtain ⟨collections, hcollections, hmem⟩ := mapM_ok fun principal hp =>
    let ⟨ps, hps, _⟩ := hone principal hp
    ⟨ps, hps⟩
  obtain ⟨roles, hroles, hmemRoles⟩ := mapM_ok (f := fun principal => db.getRoles (some principal)) (l := principals)
    fun principal _ => ⟨_, rfl⟩
  refine ⟨⟨roles.flatten.toFinset, collections.flatten.toFinset⟩, ?_, fun name => ?_, fun p => ?_⟩
  · rw [doGetAuthorizationInfo, hcollections, hroles]
    rfl
  · simp only [List.mem_toFinset, List.mem_flatten, hmemRoles, Tables.getRoles, Except.ok.injEq]
    constructor
    · rintro ⟨_, ⟨principal, hp, rfl⟩, hname⟩
      obtain ⟨u, hu, huname, hrole⟩ := Tables.mem_rolesQuery.mp hname
      exact ⟨u, hu, Option.some.inj huname ▸ hp, hrole⟩
    · rintro ⟨u, hu, hp, hrole⟩
      exact ⟨_, ⟨u.username, hp, rfl⟩, Tables.mem_rolesQuery.mpr ⟨u, hu, rfl, hrole⟩⟩
  · simp only [List.mem_toFinset, List.mem_flatten, hmem]
    constructor
    · rintro ⟨ps, ⟨principal, hp, hps⟩, hin⟩
      obtain ⟨ps', hps', hmem'⟩ := hone principal hp
      obtain rfl : ps = ps' := Except.ok.inj (hps.symm.trans hps')
      obtain ⟨permission, hquery, hnew⟩ := (hmem' p).mp hin
      obtain ⟨u, hu, huname, hgranted⟩ := Tables.mem_permissionQuery.mp hquery
      exact ⟨u, hu, Option.some.inj huname ▸ hp, permission, hgranted, hnew⟩
    · rintro ⟨u, hu, hp, permission, hgranted, hnew⟩
      obtain ⟨ps, hps, hmem'⟩ := hone u.username hp
      have hquery := Tables.mem_permissionQuery.mpr ⟨u, hu, rfl, hgranted⟩
      exact ⟨ps, ⟨u.username, hp, hps⟩, (hmem' p).mpr ⟨permission, hquery, hnew⟩⟩

end Info

/-! ### A permission granted twice -/

/-- Permission strings by their parts and subparts; a blank string is refused. -/
def wildcardParts (permission : String) : Except Throwable (List (List String)) :=
  if trim permission = "" then .error ⟨.illegalArgument, none⟩
  else .ok ((splitChar ':' permission).map (splitChar ','))

/-- The user `admin` holds `log:list` directly and as an operator, `guest` holds nothing. -/
def operatorDb : Database :=
  ⟨{ users := [⟨1, "admin", none⟩, ⟨2, "guest", none⟩]
     roles := [⟨1, "operator"⟩, ⟨2, "auditor"⟩]
     userRoles := [⟨1, 1⟩]
     rolePermissions := [⟨1, "log:list"⟩, ⟨2, "log:read"⟩]
     userPermissions := [⟨1, "log:list"⟩] }, by decide⟩

theorem operatorDb_mentions (permission : String) (h : operatorDb.Mentions permission) :
    ∃ p, wildcardParts permission = .ok p := by
  have hcases : permission = "log:list" ∨ permission = "log:read" := by
    simp only [Tables.Mentions, operatorDb, List.map_cons, List.map_nil, List.mem_cons, List.not_mem_nil, or_false] at h
    tauto
  rcases hcases with rfl | rfl <;> exact ⟨_, rfl⟩

theorem doGetAuthorizationInfo_exact_operator :
    ∃ info, doGetAuthorizationInfo wildcardParts operatorDb.toTables ["admin", "guest"] = .ok info ∧
      (∀ name, name ∈ info.roles ↔
        ∃ u ∈ operatorDb.users, u.username ∈ ["admin", "guest"] ∧ ∃ r, operatorDb.Assigned u r ∧ r.name = name) ∧
      ∀ p, p ∈ info.objectPermissions ↔
        ∃ u ∈ operatorDb.users, u.username ∈ ["admin", "guest"] ∧
          ∃ permission, operatorDb.Granted u permission ∧ wildcardParts permission = .ok p :=
  doGetAuthorizationInfo_exact operatorDb operatorDb_mentions ["admin", "guest"]

end Dynamy.Security
