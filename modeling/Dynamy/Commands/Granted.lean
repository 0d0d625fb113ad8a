import Dynamy.Commands.Activator
import Dynamy.Security.ExecuteQuery
import Dynamy.Security.Grants
import Dynamy.Shell.Moments

/-!
# Dynamy.Commands.Granted — from an operation on a bundle back to a row of the tables

The checks of a session go to the Subject, from there to the realm and over JDBC to the tables.  Shiro is in between and
is not part of the repository; `Shiro.isPermitted` is what its documentation says of a realm without an authorization
cache (`shiro.ini` names no cache manager): the permission is resolved, the realm is asked anew for the authorization
info of the principals, and one of its permissions has to imply the one asked for.  So for every operation on a bundle a
row of the tables granted the permission, as a query found it between the moment the request was read and the moment its
command was executed (`operations_granted`); for what `osgi:install` does beside the installation it is the permission to
install.  With a cache the query may have been made long before.
-/

namespace Dynamy.Commands

open Dynamy.Java Dynamy.Lib Dynamy.Osgi Dynamy.Security Dynamy.Shell

/-- What is behind the checks of a session: the principals of its Subject and JDBC at each moment, and what wildcard
permissions are. -/
structure Shiro (Permission Conn Stat : Type) where
  newWildcardPermission : String → Except Throwable Permission
  implies : Permission → Permission → Bool
  principals : ℕ → List String
  jdbc : ℕ → Jdbc Conn Stat
  jdbcState : ℕ → JdbcState Stat

namespace Shiro

variable {Permission Conn Stat : Type} [DecidableEq Permission] (shiro : Shiro Permission Conn Stat) (n : ℕ)

/-- The realm is asked at this moment. -/
def authorization : Outcome (JdbcEvent Conn Stat) (JdbcState Stat) Throwable (SimpleAuthorizationInfo Permission) :=
  (DynamyRealm.doGetAuthorizationInfo shiro.jdbc shiro.newWildcardPermission (shiro.principals n)).run (shiro.jdbcState n)

/-- `subject.isPermitted(perm)`, without a cache -/
def isPermitted (perm : String) : Except Throwable Bool := do
  let permission ← shiro.newWildcardPermission perm
  let info ← (shiro.authorization n).result
  return decide (∃ p ∈ info.objectPermissions, shiro.implies p permission = true)

/-- In tables that a query of the realm found at this moment, a user with the name of a principal is granted a
permission, directly or through a role, that implies this one. -/
def Grants (perm : String) : Prop :=
  ∃ db ∈ Security.executed (shiro.authorization n).events, ∃ u ∈ db.users, u.username ∈ shiro.principals n ∧
    ∃ granted p q, db.Granted u granted ∧ shiro.newWildcardPermission granted = .ok p ∧
      shiro.newWildcardPermission perm = .ok q ∧ shiro.implies p q = true

variable {shiro n} {perm : String}

/-- What a loop collected comes from one of its steps. -/
theorem exists_of_mem_mapM {α β : Type} {f : α → Except Throwable β} {b : β} : ∀ {l : List α} {bs : List β},
    l.mapM f = .ok bs → b ∈ bs → ∃ a ∈ l, f a = .ok b
  | [], _, h, hb => by
    cases h
    cases hb
  | a :: l, bs, h, hb => by
    rw [List.mapM_cons] at h
    obtain ⟨b', hb', h⟩ := of_bind_eq_ok h
    obtain ⟨bs', hbs', h⟩ := of_bind_eq_ok h
    cases h
    rcases List.mem_cons.mp hb with rfl | hb
    · exact ⟨a, List.mem_cons_self, hb'⟩
    · obtain ⟨a', ha', hf⟩ := exists_of_mem_mapM hbs' hb
      exact ⟨a', List.mem_cons_of_mem a ha', hf⟩

/-- A permission of the info comes from a row that was found. -/
theorem exists_granted {info : SimpleAuthorizationInfo Permission} (hinfo : (shiro.authorization n).result = .ok info)
    {p : Permission} (hp : p ∈ info.objectPermissions) :
    ∃ db ∈ Security.executed (shiro.authorization n).events, ∃ u ∈ db.users, u.username ∈ shiro.principals n ∧
      ∃ granted, db.Granted u granted ∧ shiro.newWildcardPermission granted = .ok p := by
  have hexact : Exact (GrantsAt shiro.newWildcardPermission (shiro.principals n)) (.ok info)
      (shiro.authorization n).events :=
    hinfo ▸ exact_doGetAuthorizationInfo shiro.jdbc shiro.newWildcardPermission (shiro.principals n) (shiro.jdbcState n)
  obtain ⟨dbs, roleStates, hexecuted, hr, -⟩ := (hexact.answered hexact.failures_of_ok).states
  obtain ⟨collections, hcollections, hr⟩ := of_bind_eq_ok hr.symm
  obtain ⟨roles, -, hr⟩ := of_bind_eq_ok hr
  cases hr
  obtain ⟨permissions, hpermissions, hp⟩ := List.mem_flatten.mp (List.mem_toFinset.mp hp)
  obtain ⟨⟨principal, db⟩, hzip, hdb⟩ := exists_of_mem_mapM hcollections hpermissions
  obtain ⟨granted, hgranted, hnew⟩ := exists_of_mem_mapM hdb hp
  obtain ⟨u, hu, hname, hrow⟩ := Tables.mem_permissionQuery.mp hgranted
  obtain ⟨hprincipal, hstate⟩ := List.of_mem_zip hzip
  refine ⟨db, ?_, u, hu, Option.some.inj hname ▸ hprincipal, granted, hrow, hnew⟩
  rw [hexecuted]
  exact List.mem_append_left _ hstate

/-- **A check that succeeds** rests on a row. -/
theorem grants_of_isPermitted (h : shiro.isPermitted n perm = .ok true) : shiro.Grants n perm := by
  obtain ⟨q, hq, h⟩ := of_bind_eq_ok h
  obtain ⟨info, hinfo, h⟩ := of_bind_eq_ok h
  obtain ⟨p, hp, himplies⟩ := of_decide_eq_true (Except.ok.inj h)
  obtain ⟨db, hdb, u, hu, hname, granted, hrow, hnew⟩ := exists_granted hinfo hp
  exact ⟨db, hdb, u, hu, hname, granted, p, q, hrow, hnew, hq, himplies⟩

end Shiro

variable {Ref Cmd Permission Conn Stat : Type} [DecidableEq Permission]

theorem timeline_of_session {env : Env Ref Cmd} {s : ShellState} {es : List (ShellEvent Cmd)}
    (hes : SessionTrace env s es) : ∃ finish ts, Timeline (AnsweredAt env) s.clock finish es ts := by
  cases hes with
  | interactive fuel =>
    obtain ⟨-, ts, hts⟩ := timed_run fuel s
    exact ⟨_, ts, hts⟩
  | requests exitCallback texts =>
    obtain ⟨-, ts, hts⟩ := timed_execRequests exitCallback texts s
    exact ⟨_, ts, hts⟩

/-- **No grant, no operation.**  In a session with any registered commands, those of the console among them, each of whose
checks asks the realm, which caches nothing: the events have moments, in order, and whatever the execution of a console
command does to the framework, a row of the tables granted it (or the installation that it is beside) to a principal of
the Subject, at a moment between the line of the request and the execution. -/
theorem operations_granted {env : Env Ref Cmd} {console : ConsoleCommand → Cmd}
    (hconsole : ∀ c, env.annotationOf (console c) = some c.annotation) {shiro : Shiro Permission Conn Stat}
    (hshiro : ∀ n perm, (env.world n).isPermitted perm = shiro.isPermitted n perm) {s : ShellState}
    {es : List (ShellEvent Cmd)} (hes : SessionTrace env s es) {pre post : List (ShellEvent Cmd)} {c : ConsoleCommand}
    {args : List String} (hexecute : es = pre ++ .execute (console c) args :: post) {ops : List Operation}
    (hops : Performed c args ops) {op : Operation} (hop : op ∈ ops) :
    ∃ finish ts, Timeline (AnsweredAt env) s.clock finish es ts ∧
      ∃ before text request, pre = before ++ .line text :: request ∧ (∀ text', .line text' ∉ request) ∧
        ∃ asked n ran, ts[before.length]? = some asked ∧ ts[pre.length]? = some ran ∧ asked ≤ n ∧ n ≤ ran ∧
          ∃ perm, op.CoveredBy perm ∧ shiro.Grants n perm := by
  obtain ⟨before, text, word, c', hpre⟩ := licence_of_execute hconsole hes hexecute
  obtain ⟨finish, ts, hts⟩ := timeline_of_session hes
  refine ⟨finish, ts, hts, before, text, lookupsAndChecks word c' (console c) c.annotation, hpre,
    not_line_mem_lookupsAndChecks, ?_⟩
  obtain ⟨perm, hperm, hcovered⟩ := hops.permissions hop
  have hmem : .isPermitted perm true ∈ lookupsAndChecks word c' (console c) c.annotation :=
    isPermitted_mem_lookupsAndChecks hperm
  obtain ⟨k, hk, hcheck⟩ := List.mem_iff_getElem.mp hmem
  have hlength : pre.length = before.length + 1 + (lookupsAndChecks word c' (console c) c.annotation).length := by
    rw [hpre]
    simp [licence, lookupsAndChecks]
    omega
  have hat : es[before.length + 1 + k]? = some (.isPermitted perm true) := by
    have hes : es = (before ++ [.line text]) ++ (lookupsAndChecks word c' (console c) c.annotation ++
        .execute (console c) args :: post) := by
      rw [hexecute, hpre]
      simp [licence, lookupsAndChecks]
    rw [hes, List.getElem?_append_right (by simp), List.getElem?_append_left (by simpa using hk)]
    simp [hk, hcheck]
  obtain ⟨asked, n, ran, hasked, hran, hle, hle', hanswer⟩ := hts.between (i := before.length) (by omega)
    (k := pre.length) (by omega) (by rw [hexecute]; simp) hat
  have hpermitted : shiro.isPermitted n perm = .ok true := by
    rw [← hshiro]
    exact hanswer
  exact ⟨asked, n, ran, hasked, hran, hle, hle', perm, hcovered, Shiro.grants_of_isPermitted hpermitted⟩

/-! ### One request -/

/-- `admin` may stop bundles. -/
def adminDb : Database :=
  ⟨{ users := [⟨1, "admin", none⟩], userPermissions := [⟨1, "dynamy:osgi:stop"⟩] }, by decide⟩

/-- The Subject of `admin`; a permission implies itself, and JDBC raises nothing. -/
def adminShiro : Shiro String Unit Unit where
  newWildcardPermission := .ok
  implies p q := p == q
  principals _ := ["admin"]
  jdbc _ := ⟨.ok (some ()), fun _ _ => .ok (some ()), fun _ => none, adminDb⟩
  jdbcState _ := {}

/-- The bundle 5 is stopped at the row of `admin`. -/
theorem operations_granted_stop : ∃ finish ts,
    Timeline (AnsweredAt (only .stop adminShiro.isPermitted)) 0 finish
      [.line (some "osgi:stop 5"), .found "osgi:stop" (some .stop), .found "osgi:stop" (some .stop),
        .isPermitted "dynamy:osgi:stop" true, .hasAllRoles [] true, .execute .stop ["osgi:stop", "5"], .println none] ts ∧
      ∃ n, adminShiro.Grants n "dynamy:osgi:stop" := by
  have hconsole : ∀ c : ConsoleCommand, (only .stop adminShiro.isPermitted).annotationOf (id c) = some c.annotation :=
    fun _ => rfl
  have hshiro : ∀ n perm, ((only .stop adminShiro.isPermitted).world n).isPermitted perm = adminShiro.isPermitted n perm :=
    fun _ _ => rfl
  have hwords : splitSpaces "osgi:stop 5" = ["osgi:stop", "5"] := by decide
  have hname : splitChar ':' "osgi:stop" = ["osgi", "stop"] := by decide
  have hexecute : ((execRequests (only .stop adminShiro.isPermitted) false ["osgi:stop 5"]).run {}).events =
      [.line (some "osgi:stop 5"), .found "osgi:stop" (some .stop), .found "osgi:stop" (some .stop),
        .isPermitted "dynamy:osgi:stop" true, .hasAllRoles [] true] ++
      .execute (id .stop) ["osgi:stop", "5"] :: [.println none] := events_only hwords hname rfl rfl fun _ => rfl
  obtain ⟨finish, ts, hts, -, -, -, -, -, -, n, -, -, -, -, -, perm, hcovered, hgrants⟩ := operations_granted hconsole hshiro
    (.requests false ["osgi:stop 5"]) hexecute (.onBundles (stillConsole [5]) .stop ["osgi:stop", "5"] 0)
    (show Operation.onBundle .stop ∈ _ by decide)
  obtain rfl : "dynamy:osgi:stop" = perm := by
    rcases hcovered with hperm | ⟨hbeside, -⟩
    · exact Option.some.inj hperm
    · cases hbeside
  rw [hexecute] at hts
  exact ⟨finish, ts, hts, n, hgrants⟩

end Dynamy.Commands
