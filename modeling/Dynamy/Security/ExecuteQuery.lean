import Dynamy.Security.DynamyRealm
import Dynamy.Lib.Bracket

/-!
# Dynamy.Security.ExecuteQuery — the queries over JDBC, whatever fails

`executeQuery` with its connection, its statement and its `finally`, the five methods of `OsgiJdbcSecurityAccess` over
it and the two of `DynamyRealm` over these.  The pool, the driver and the database answer each call anew (`Jdbc`): any
call may raise, and the tables may change from one query to the next.  What can happen in one query is listed
(`QueryRun`); over any sequence of requests a connection stays out of the pool only where its statement failed to
close (`connections_released`).  An answer is that of the plain queries (`Tables`, `doGetAuthenticationInfo`)
on the tables as each query found them, and anything that was raised ends the request (`authenticate_exact`,
`authorization_exact`).
-/

namespace Dynamy.Security

open Dynamy.Java Dynamy.Lib

/-! ### JDBC -/

/-- The calls that return nothing that the code looks at, and the cursor's. -/
inductive JdbcCall (Conn Stat : Type)
  | setString (stat : Stat)
  | executeQuery (stat : Stat)
  | next (stat : Stat)
  | get (stat : Stat)
  | closeStatement (stat : Stat)
  | closeConnection (conn : Conn)

/-- The pool, the driver and the database at one moment. -/
structure Jdbc (Conn Stat : Type) where
  getConnection : Except Throwable (Option Conn)
  prepareStatement : Conn → String → Except Throwable (Option Stat)
  raises : JdbcCall Conn Stat → Option Throwable
  database : Database

inductive JdbcEvent (Conn Stat : Type)
  | opened (conn : Conn)
  | prepared (stat : Stat)
  /-- the tables as the query found them -/
  | executed (db : Database)
  | closeStatement (stat : Stat) (raised : Option Throwable)
  | closeConnection (conn : Conn) (raised : Option Throwable)
  /-- by any other call, or at a `null` -/
  | raised (e : Throwable)

structure JdbcState (Stat : Type) where
  clock : ℕ := 0
  /-- `var stat` of the query that runs -/
  stat : Option Stat := none

variable {Conn Stat : Type}

abbrev JdbcM (Conn Stat : Type) : Type → Type := Prog (JdbcEvent Conn Stat) (JdbcState Stat) Throwable

/-- A query with a parameter: the text of its default, and the rows that the tables give for it. -/
structure Query (α : Type) where
  text : String
  rows : Tables → Option String → List α

section Model

variable {α β : Type} (jdbc : ℕ → Jdbc Conn Stat)

/-- `e` is thrown, and seen. -/
def fail (e : Throwable) : JdbcM Conn Stat α := do
  Prog.emit (.raised e)
  Prog.raise e

/-- One call. -/
def ask (question : Jdbc Conn Stat → Except Throwable α) : JdbcM Conn Stat α := do
  let s ← Prog.read
  Prog.update fun s => { s with clock := s.clock + 1 }
  match question (jdbc s.clock) with
  | .ok a => return a
  | .error e => fail e

def dereference : Option α → JdbcM Conn Stat α
  | some a => return a
  | none => fail ⟨.nullPointer, none⟩

def call (what : JdbcCall Conn Stat) : JdbcM Conn Stat Unit :=
  ask jdbc fun j => match j.raises what with | some e => .error e | none => .ok ()

/-- `close()`, of a statement or a connection. -/
def close (what : JdbcCall Conn Stat) (event : Option Throwable → JdbcEvent Conn Stat) : JdbcM Conn Stat Unit := do
  let s ← Prog.read
  Prog.update fun s => { s with clock := s.clock + 1 }
  let raised := (jdbc s.clock).raises what
  Prog.emit (event raised)
  match raised with
  | some e => Prog.raise e
  | none => return

/-! ### `OsgiJdbcSecurityAccess` -/

/-- `dataSource.getConnection()` -/
def getConnection : JdbcM Conn Stat (Option Conn) := do
  match ← ask jdbc (·.getConnection) with
  | some conn =>
    Prog.emit (.opened conn)
    return some conn
  | none => return none

/-- `stat = conn.prepareStatement(query)` -/
def prepareStatement (conn : Conn) (query : String) : JdbcM Conn Stat Unit := do
  match ← ask jdbc (·.prepareStatement conn query) with
  | some stat =>
    Prog.emit (.prepared stat)
    Prog.update fun s => { s with stat := some stat }
  | none => Prog.update fun s => { s with stat := none }

/-- `val rs = stat.executeQuery()`: the tables that the rows of `rs` come from. -/
def runStatement (stat : Stat) : JdbcM Conn Stat Database := do
  let db ← ask jdbc fun j => match j.raises (.executeQuery stat) with | some e => .error e | none => .ok j.database
  Prog.emit (.executed db)
  return db

/-- `if (stat != null) stat.close()` -/
def closeStatement : Option Stat → JdbcM Conn Stat Unit
  | some stat => close jdbc (.closeStatement stat) (.closeStatement stat)
  | none => return

/-- `if (conn != null) conn.close()` -/
def closeConnection : Option Conn → JdbcM Conn Stat Unit
  | some conn => close jdbc (.closeConnection conn) (.closeConnection conn)
  | none => return

/-- The `finally` block. -/
def closeBoth (conn : Option Conn) : JdbcM Conn Stat Unit := do
  let s ← Prog.read
  closeStatement jdbc s.stat
  closeConnection jdbc conn

def executeQuery (query : Query α) (principal : Option String) (f : Stat → List α → JdbcM Conn Stat β) :
    JdbcM Conn Stat β := do
  let conn ← getConnection jdbc
  Prog.update fun s => { s with stat := none }
  Prog.ensuring
    (do
      let c ← dereference conn
      prepareStatement jdbc c query.text
      let s ← Prog.read
      let stat ← dereference s.stat
      call jdbc (.setString stat)
      let db ← runStatement jdbc stat
      f stat (query.rows db.toTables principal))
    (closeBoth jdbc conn)

/-- `while (rs.next()) buffer += rs.getString(1)` -/
def readAll (stat : Stat) : List α → JdbcM Conn Stat (List α)
  | [] => do
    call jdbc (.next stat)
    return []
  | r :: rows => do
    call jdbc (.next stat)
    call jdbc (.get stat)
    let rest ← readAll stat rows
    return r :: rest

/-- `while (rs.next()) { x = ..; if (rs.next()) throw .. }` -/
def readSingle (initial : β) (get : α → β) (stat : Stat) : List α → JdbcM Conn Stat β
  | [] => do
    call jdbc (.next stat)
    return initial
  | [r] => do
    call jdbc (.next stat)
    call jdbc (.get stat)
    call jdbc (.next stat)
    -- the condition of the loop, once more after the end
    call jdbc (.next stat)
    return get r
  | _ :: _ :: _ => do
    call jdbc (.next stat)
    call jdbc (.get stat)
    call jdbc (.next stat)
    Prog.raise ⟨.runtime, some ("Got more than one result for query " ++ existsQueryText)⟩

namespace OsgiJdbcSecurityAccess

def existsQuery : Query ℕ := ⟨existsQueryText, Tables.existsQuery⟩

def passwordQuery : Query (Option String) :=
  ⟨"SELECT PASSWORD FROM DYNAMY_USERS WHERE USERNAME = ?", Tables.passwordQuery⟩

def keysQuery : Query String :=
  ⟨"SELECT KEY FROM DYNAMY_AUTHORIZED_KEYS AK INNER JOIN DYNAMY_USERS U ON AK.USER_ID = U.ID WHERE U.USERNAME = ?",
    Tables.keysQuery⟩

def rolesQuery : Query String :=
  ⟨"SELECT R.NAME FROM DYNAMY_ROLES R INNER JOIN DYNAMY_USER_ROLE UR ON R.ID = UR.ROLE_ID INNER JOIN DYNAMY_USERS U " ++
    "ON U.ID = UR.USER_ID WHERE USERNAME = ?", Tables.rolesQuery⟩

def permissionQuery : Query String :=
  ⟨"SELECT DISTINCT PERMISSION FROM (SELECT PERMISSION, U.USERNAME FROM DYNAMY_ROLE_PERMISSION RP INNER JOIN " ++
    "DYNAMY_ROLES R ON RP.ROLE_ID = R.ID INNER JOIN DYNAMY_USER_ROLE UR ON R.ID = UR.ROLE_ID INNER JOIN " ++
    "DYNAMY_USERS U ON U.ID = UR.USER_ID UNION SELECT PERMISSION, U.USERNAME FROM DYNAMY_USER_PERMISSION UP INNER " ++
    "JOIN DYNAMY_USERS U ON UP.USER_ID = U.ID) WHERE USERNAME = ?", Tables.permissionQuery⟩

def userExists (principal : Option String) : JdbcM Conn Stat Bool :=
  executeQuery jdbc existsQuery principal (readSingle jdbc false (· == 1))

def getPrincipalPassword (principal : Option String) : JdbcM Conn Stat (Option String) :=
  executeQuery jdbc passwordQuery principal (readSingle jdbc none id)

def getPrincipalKeys (principal : Option String) : JdbcM Conn Stat (List String) :=
  executeQuery jdbc keysQuery principal (readAll jdbc)

def getRoles (principal : Option String) : JdbcM Conn Stat (List String) :=
  executeQuery jdbc rolesQuery principal (readAll jdbc)

def getPermissions {Permission : Type} (newWildcardPermission : String → Except Throwable Permission)
    (principal : Option String) : JdbcM Conn Stat (List Permission) := do
  let permissions ← executeQuery jdbc permissionQuery principal (readAll jdbc)
  Prog.ofExcept (permissions.mapM newWildcardPermission)

end OsgiJdbcSecurityAccess

/-! ### `DynamyRealm` -/

namespace DynamyRealm

open OsgiJdbcSecurityAccess

variable {PublicKey Permission : Type}

def doGetAuthenticationInfo (token : AuthenticationToken PublicKey) :
    JdbcM Conn Stat (Option DynamyAuthenticationInfo) := do
  let principal := token.getPrincipal
  if ← userExists jdbc principal then
    let password ← getPrincipalPassword jdbc principal
    let keys ← getPrincipalKeys jdbc principal
    return some ⟨principal, (password, some keys), getName⟩
  else return none

def doGetAuthorizationInfo [DecidableEq Permission] (newWildcardPermission : String → Except Throwable Permission)
    (principals : List String) : JdbcM Conn Stat (SimpleAuthorizationInfo Permission) := do
  let permissionCollections ← principals.mapM fun stringPrincipal =>
    getPermissions jdbc newWildcardPermission (some stringPrincipal)
  let rolesCollections ← principals.mapM fun stringPrincipal => getRoles jdbc (some stringPrincipal)
  let permissions := permissionCollections.flatten
  let roles := rolesCollections.flatten
  return { roles := roles.toFinset, objectPermissions := permissions.toFinset }

end DynamyRealm

end Model

/-! ### What can happen in one query -/

variable {α β : Type} {jdbc : ℕ → Jdbc Conn Stat}

/-- The part between the two `try`: the query is sent and its rows are read, or something is raised before. -/
inductive ReadRun (answer : Database → Except Throwable β) :
    Except Throwable β → List (JdbcEvent Conn Stat) → Prop
  | unsent (e : Throwable) : ReadRun answer (.error e) [.raised e]
  | broken (db : Database) (e : Throwable) : ReadRun answer (.error e) [.executed db, .raised e]
  | whole (db : Database) : ReadRun answer (answer db) [.executed db]

/-- What is thrown at the end replaces the result. -/
def replaced (raised : Option Throwable) (r : Except Throwable β) : Except Throwable β :=
  match raised with
  | some e => .error e
  | none => r

/-- The course of `executeQuery`. -/
inductive QueryRun (answer : Database → Except Throwable β) :
    Except Throwable β → List (JdbcEvent Conn Stat) → Prop
  /-- there is no connection -/
  | refused (e : Throwable) : QueryRun answer (.error e) [.raised e]
  | unprepared (conn : Conn) (e : Throwable) (raised : Option Throwable) :
      QueryRun answer (replaced raised (.error e)) [.opened conn, .raised e, .closeConnection conn raised]
  | closed (conn : Conn) (stat : Stat) (raised : Option Throwable) {r : Except Throwable β}
      {es : List (JdbcEvent Conn Stat)} (h : ReadRun answer r es) : QueryRun answer (replaced raised r)
        (.opened conn :: .prepared stat :: es ++ [.closeStatement stat none, .closeConnection conn raised])
  /-- the statement does not close, and so the connection is not closed -/
  | lost (conn : Conn) (stat : Stat) (e : Throwable) {r : Except Throwable β} {es : List (JdbcEvent Conn Stat)}
      (h : ReadRun answer r es) :
      QueryRun answer (.error e) (.opened conn :: .prepared stat :: es ++ [.closeStatement stat (some e)])

section Triples

open Prog

variable {x : Option Stat} {R : Except Throwable β → JdbcState Stat → List (JdbcEvent Conn Stat) → Prop}

/-- The statement is `x`. -/
def Has (x : Option Stat) (s : JdbcState Stat) : Prop := s.stat = x

/-- A call returns, or what it raises is seen; the statement stays. -/
def Called (x : Option Stat) (r : Except Throwable α) (t : JdbcState Stat) (es : List (JdbcEvent Conn Stat)) : Prop :=
  Has x t ∧ ((∃ a, r = .ok a ∧ es = []) ∨ ∃ e, r = .error e ∧ es = [.raised e])

theorem triple_ask (question : Jdbc Conn Stat → Except Throwable α) : Triple (Has x) (ask jdbc question) (Called x) := by
  refine triple_read_bind fun s hs => ?_
  refine triple_update_bind (Q := Has x) (fun t ht => by rw [ht]; exact hs) ?_
  cases question (jdbc s.clock) with
  | ok a => exact triple_pure fun t ht => ⟨ht, .inl ⟨a, rfl, rfl⟩⟩
  | error e => exact fun t ht => ⟨ht, .inr ⟨e, rfl, rfl⟩⟩

theorem triple_dereference (y : Option α) : Triple (Has x) (dereference y : JdbcM Conn Stat α) (Called x) := by
  cases y with
  | some a => exact triple_pure fun t ht => ⟨ht, .inl ⟨a, rfl, rfl⟩⟩
  | none => exact fun t ht => ⟨ht, .inr ⟨_, rfl, rfl⟩⟩

/-- **Call rule**: a call that raises ends the program; after one that returns nothing was seen of it. -/
theorem triple_bind_of_called {p : JdbcM Conn Stat α} {f : α → JdbcM Conn Stat β} (hp : Triple (Has x) p (Called x))
    (he : ∀ e t, Has x t → R (.error e) t [.raised e]) (hf : ∀ a, Triple (Has x) (f a) R) :
    Triple (Has x) (p >>= f) R := by
  refine hp.bind (fun e t es h => ?_) fun a es t h => ?_
  · rcases h with ⟨ht, ⟨a, ha, -⟩ | ⟨e', he', rfl⟩⟩
    · cases ha
    · cases he'
      exact he e t ht
  · rcases h with ⟨ht, ⟨a', ha, rfl⟩ | ⟨e, he, -⟩⟩
    · exact hf a t ht
    · cases he

/-- The rows are read as `answer`, or a call raises. -/
def Reads (x : Option Stat) (answer : Except Throwable β) (p : JdbcM Conn Stat β) : Prop :=
  Triple (Has x) p fun r t es => Has x t ∧ (r = answer ∧ es = [] ∨ ∃ e, r = .error e ∧ es = [.raised e])

theorem reads_pure {b : β} : Reads x (.ok b) (pure b : JdbcM Conn Stat β) := fun _ ht => ⟨ht, .inl ⟨rfl, rfl⟩⟩

theorem reads_call {what : JdbcCall Conn Stat} {answer : Except Throwable β} {f : Unit → JdbcM Conn Stat β}
    (hf : Reads x answer (f ())) : Reads x answer (call jdbc what >>= f) :=
  triple_bind_of_called (triple_ask _) (fun e _ ht => ⟨ht, .inr ⟨e, rfl, rfl⟩⟩) fun _ => hf

theorem reads_readAll (stat : Stat) : ∀ rows : List α, Reads x (.ok rows) (readAll jdbc stat rows)
  | [] => reads_call reads_pure
  | r :: rows => by
    refine reads_call (reads_call ?_)
    refine Triple.bind (reads_readAll stat rows) (fun e t es h => ?_) fun rest es t h => ?_
    · obtain ⟨ht, ⟨hr, -⟩ | ⟨e', he, hes⟩⟩ := h
      · cases hr
      · cases he
        exact ⟨ht, .inr ⟨e, rfl, hes⟩⟩
    · obtain ⟨ht, ⟨hr, rfl⟩ | ⟨e, he, -⟩⟩ := h
      · cases hr
        exact ⟨ht, .inl ⟨rfl, rfl⟩⟩
      · cases he

theorem reads_readSingle (initial : β) (get : α → β) (stat : Stat) :
    ∀ rows : List α, Reads x (Tables.singleRow initial get rows) (readSingle jdbc initial get stat rows)
  | [] => reads_call reads_pure
  | [_] => reads_call (reads_call (reads_call (reads_call reads_pure)))
  | _ :: _ :: _ => reads_call (reads_call (reads_call fun _ ht => ⟨ht, .inl ⟨rfl, rfl⟩⟩))

variable (jdbc) in
theorem triple_close (what : JdbcCall Conn Stat) (event : Option Throwable → JdbcEvent Conn Stat) :
    Triple (Has x) (close jdbc what event) fun r t es => Has x t ∧ ∃ raised, r = replaced raised (.ok ()) ∧
      es = [event raised] := by
  refine triple_read_bind fun s hs => triple_update_bind (Q := Has x) (fun t ht => by rw [ht]; exact hs) ?_
  cases hraised : (jdbc s.clock).raises what with
  | none => exact fun t ht => ⟨ht, none, rfl, rfl⟩
  | some e => exact fun t ht => ⟨ht, some e, rfl, rfl⟩

/-- What the `finally` block is seen to do about a connection. -/
inductive Cleanup (conn : Conn) : Option Stat → Except Throwable Unit → List (JdbcEvent Conn Stat) → Prop
  | connection (raised : Option Throwable) :
      Cleanup conn none (replaced raised (.ok ())) [.closeConnection conn raised]
  | both (stat : Stat) (raised : Option Throwable) :
      Cleanup conn (some stat) (replaced raised (.ok ())) [.closeStatement stat none, .closeConnection conn raised]
  | statement (stat : Stat) (e : Throwable) :
      Cleanup conn (some stat) (.error e) [.closeStatement stat (some e)]

theorem triple_closeBoth (conn : Conn) :
    Triple (Has x) (closeBoth jdbc (some conn)) fun r _ es => Cleanup conn x r es := by
  refine triple_read_bind fun s hs t ht => ?_
  subst ht
  rw [hs]
  cases x with
  | none =>
    obtain ⟨-, raised, hr, hes⟩ := triple_close jdbc (.closeConnection conn) (.closeConnection conn) t hs
    rw [closeStatement, pure_bind, closeConnection, hr, hes]
    exact .connection raised
  | some stat =>
    have hboth : Triple (Has (some stat)) (closeStatement jdbc (some stat) >>= fun _ => closeConnection jdbc (some conn))
        fun r _ es => Cleanup conn (some stat) r es := by
      refine (triple_close jdbc _ _).bind (fun e u es h => ?_) (fun _ es u h => ?_)
      · obtain ⟨-, raised, hr, rfl⟩ := h
        cases raised with
        | none => cases hr
        | some e' =>
          cases hr
          exact .statement stat e
      · obtain ⟨hu, raised, hr, rfl⟩ := h
        cases raised with
        | some e => cases hr
        | none =>
          obtain ⟨-, raised, hr, hes⟩ := triple_close jdbc (.closeConnection conn) (.closeConnection conn) u hu
          rw [closeConnection, hr, hes]
          exact .both stat raised
    exact hboth t hs

variable {query : Query α} {principal : Option String} {f : Stat → List α → JdbcM Conn Stat β}
  {answer : Database → Except Throwable β}

variable (jdbc) in
/-- From the statement on. -/
theorem triple_send (hf : ∀ stat db, Reads (some stat) (answer db) (f stat (query.rows db.toTables principal)))
    (stat : Stat) :
    Triple (Has (some stat))
      (do
        call jdbc (.setString stat)
        let db ← runStatement jdbc stat
        f stat (query.rows db.toTables principal))
      fun r t es => Has (some stat) t ∧ ReadRun answer r es := by
  refine triple_bind_of_called (triple_ask _) (fun e t ht => ⟨ht, .unsent e⟩) fun _ => ?_
  rw [runStatement, bind_assoc]
  refine triple_bind_of_called (triple_ask _) (fun e t ht => ⟨ht, .unsent e⟩) fun db => ?_
  rw [bind_assoc]
  refine triple_emit_bind ((hf stat db).mono fun r t es h => ?_)
  obtain ⟨ht, ⟨rfl, rfl⟩ | ⟨e, rfl, rfl⟩⟩ := h
  · exact ⟨ht, .whole db⟩
  · exact ⟨ht, .broken db e⟩

/-- The `try` block, with a connection. -/
theorem triple_body (hf : ∀ stat db, Reads (some stat) (answer db) (f stat (query.rows db.toTables principal)))
    (conn : Conn) :
    Triple (Has none)
      (do
        let c ← dereference (some conn)
        prepareStatement jdbc c query.text
        let s ← Prog.read
        let stat ← dereference s.stat
        call jdbc (.setString stat)
        let db ← runStatement jdbc stat
        f stat (query.rows db.toTables principal))
      fun r t es => (Has none t ∧ ∃ e, r = .error e ∧ es = [.raised e]) ∨
        ∃ stat read, Has (some stat) t ∧ es = .prepared stat :: read ∧ ReadRun answer r read := by
  refine triple_bind_of_called (triple_dereference _) (fun e t ht => .inl ⟨ht, e, rfl, rfl⟩) fun c => ?_
  rw [prepareStatement, bind_assoc]
  refine triple_bind_of_called (triple_ask _) (fun e t ht => .inl ⟨ht, e, rfl, rfl⟩) fun prepared => ?_
  cases prepared with
  | none =>
    refine triple_update_bind (Q := Has none) (fun t _ => rfl) (triple_read_bind fun s hs t ht => ?_)
    rw [hs]
    exact .inl ⟨ht ▸ hs, _, rfl, rfl⟩
  | some stat =>
    rw [bind_assoc]
    refine triple_emit_bind (triple_update_bind (Q := Has (some stat)) (fun t _ => rfl) ?_)
    refine triple_read_bind fun s hs t ht => ?_
    rw [hs]
    obtain ⟨hu, hread⟩ := triple_send jdbc hf stat t (ht ▸ hs)
    exact .inr ⟨stat, _, hu, rfl, hread⟩

theorem replaced_bind (raised : Option Throwable) (r : Except Throwable β) :
    (replaced raised (.ok ()) >>= fun _ => r) = replaced raised r := by cases raised <;> rfl

theorem Cleanup.unprepared {conn : Conn} {r : Except Throwable Unit} {es : List (JdbcEvent Conn Stat)}
    (h : Cleanup conn none r es) (e : Throwable) :
    QueryRun answer (r >>= fun _ => .error e) (.opened conn :: ([.raised e] ++ es)) := by
  cases h with
  | connection raised =>
    rw [replaced_bind]
    exact .unprepared conn e raised

theorem Cleanup.prepared {conn : Conn} {stat : Stat} {r : Except Throwable Unit} {r' : Except Throwable β}
    {read es : List (JdbcEvent Conn Stat)} (h : Cleanup conn (some stat) r es) (hread : ReadRun answer r' read) :
    QueryRun answer (r >>= fun _ => r') (.opened conn :: (.prepared stat :: read ++ es)) := by
  cases h with
  | both _ raised =>
    rw [replaced_bind]
    exact .closed conn stat raised hread
  | statement _ e => exact .lost conn stat e hread

/-- **One query**, whatever the calls answer. -/
theorem emits_executeQuery
    (hf : ∀ stat db, Reads (some stat) (answer db) (f stat (query.rows db.toTables principal))) :
    Emits (executeQuery jdbc query principal f) (QueryRun answer) := by
  intro s
  have hrun : Triple (Has s.stat) (executeQuery jdbc query principal f) fun r _ es => QueryRun answer r es := by
    rw [executeQuery, getConnection, bind_assoc]
    refine triple_bind_of_called (triple_ask _) (fun e _ _ => .refused e) fun conn => ?_
    cases conn with
    | none =>
      -- `conn.prepareStatement` on `null`, and nothing to close
      rw [pure_bind]
      refine triple_update_bind (Q := Has none) ?_ ?_
      · exact fun t _ => rfl
      · intro t ht
        have hclose : run (closeBoth jdbc none) t = ⟨.ok (), t, []⟩ := by
          rw [closeBoth, run_read_bind, ht]
          rfl
        show QueryRun answer ((run (closeBoth jdbc none) t).result >>= fun _ => .error _)
          ([.raised _] ++ (run (closeBoth jdbc none) t).events)
        rw [hclose]
        exact .refused _
    | some conn =>
      rw [bind_assoc]
      refine triple_emit_bind ?_
      rw [pure_bind]
      refine triple_update_bind (Q := Has none) ?_ ?_
      · exact fun t _ => rfl
      · refine (triple_body hf conn).ensuring fun r es t ht => ?_
        rcases ht with ⟨ht, e, rfl, rfl⟩ | ⟨stat, read, ht, rfl, hread⟩
        · exact (triple_closeBoth conn t ht).unprepared e
        · exact (triple_closeBoth conn t ht).prepared hread
  exact hrun s rfl

end Triples

/-! ### Nothing is kept -/

def JdbcEvent.reading : JdbcEvent Conn Stat → Bool
  | .executed _ => true
  | .raised _ => true
  | _ => false

/-- What one query is seen to do: a connection is obtained and closed once, after its statement, which is closed once;
or the statement does not close. -/
inductive Session : List (JdbcEvent Conn Stat) → Prop
  | refused (e : Throwable) : Session [.raised e]
  | unprepared (conn : Conn) (e : Throwable) (raised : Option Throwable) :
      Session [.opened conn, .raised e, .closeConnection conn raised]
  | closed (conn : Conn) (stat : Stat) (raised : Option Throwable) {es : List (JdbcEvent Conn Stat)}
      (h : ∀ w ∈ es, w.reading = true) :
      Session (.opened conn :: .prepared stat :: es ++ [.closeStatement stat none, .closeConnection conn raised])
  | lost (conn : Conn) (stat : Stat) (e : Throwable) {es : List (JdbcEvent Conn Stat)}
      (h : ∀ w ∈ es, w.reading = true) :
      Session (.opened conn :: .prepared stat :: es ++ [.closeStatement stat (some e)])

/-- How many more connections are out of the pool. -/
def JdbcEvent.out : JdbcEvent Conn Stat → ℤ
  | .opened _ => 1
  | .closeConnection _ _ => -1
  | _ => 0

/-- How many statements failed to close. -/
def JdbcEvent.unclosed : JdbcEvent Conn Stat → ℤ
  | .closeStatement _ (some _) => 1
  | _ => 0

/-- How many more connections are out that will be closed. -/
def JdbcEvent.held (w : JdbcEvent Conn Stat) : ℤ := w.out - w.unclosed

theorem sum_held (es : List (JdbcEvent Conn Stat)) :
    (es.map JdbcEvent.held).sum = (es.map JdbcEvent.out).sum - (es.map JdbcEvent.unclosed).sum := by
  induction es with
  | nil => rfl
  | cons w es ih =>
    simp only [List.map_cons, List.sum_cons, ih, JdbcEvent.held]
    omega

theorem ReadRun.reading {answer : Database → Except Throwable β} {r : Except Throwable β}
    {es : List (JdbcEvent Conn Stat)} (h : ReadRun answer r es) : ∀ w ∈ es, w.reading = true := by
  cases h <;> simp [JdbcEvent.reading]

theorem QueryRun.session {answer : Database → Except Throwable β} {r : Except Throwable β}
    {es : List (JdbcEvent Conn Stat)} (h : QueryRun answer r es) : Session es := by
  cases h with
  | refused e => exact .refused e
  | unprepared conn e raised => exact .unprepared conn e raised
  | closed conn stat raised h => exact .closed conn stat raised h.reading
  | lost conn stat e h => exact .lost conn stat e h.reading

theorem held_of_reading {w : JdbcEvent Conn Stat} (h : w.reading = true) : w.held = 0 := by
  cases w <;> first | rfl | cases h

theorem Session.excursion {es : List (JdbcEvent Conn Stat)} (h : Session es) : Excursion JdbcEvent.held 1 es := by
  cases h with
  | refused e => exact excursion_of_zero (by omega) fun w hw => List.mem_singleton.mp hw ▸ rfl
  | unprepared conn e raised =>
    have hmid : Excursion JdbcEvent.held 0 [(.raised e : JdbcEvent Conn Stat)] :=
      excursion_of_zero le_rfl fun w hw => List.mem_singleton.mp hw ▸ rfl
    exact hmid.bracket le_rfl rfl rfl
  | @closed conn stat raised read h =>
    have hmid : Excursion JdbcEvent.held 0 (.prepared stat :: read ++ [.closeStatement stat none]) := by
      refine excursion_of_zero le_rfl fun w hw => ?_
      simp only [List.cons_append, List.mem_cons, List.mem_append, List.not_mem_nil, or_false] at hw
      rcases hw with rfl | hw | rfl
      · rfl
      · exact held_of_reading (h w hw)
      · rfl
    simpa using hmid.bracket le_rfl (a := .opened conn) (b := .closeConnection conn raised) rfl rfl
  | @lost conn stat e read h =>
    have hmid : Excursion JdbcEvent.held 0 (.prepared stat :: read) := by
      refine excursion_of_zero le_rfl fun w hw => ?_
      rcases List.mem_cons.mp hw with rfl | hw
      · rfl
      · exact held_of_reading (h w hw)
    exact hmid.bracket le_rfl (a := .opened conn) (b := .closeStatement stat (some e)) rfl rfl

/-! ### What an answer rests on -/

def JdbcEvent.failure : JdbcEvent Conn Stat → Option Throwable
  | .raised e => some e
  | .closeStatement _ e => e
  | .closeConnection _ e => e
  | _ => none

def JdbcEvent.found : JdbcEvent Conn Stat → Option Database
  | .executed db => some db
  | _ => none

/-- Everything that was raised, in order. -/
def failures (es : List (JdbcEvent Conn Stat)) : List Throwable := es.filterMap JdbcEvent.failure

/-- The tables as the queries found them, in order. -/
def executed (es : List (JdbcEvent Conn Stat)) : List Database := es.filterMap JdbcEvent.found

/-- What was raised last is thrown; if nothing was raised, the result is as `spec` says from what the queries found. -/
structure Exact (spec : List Database → Except Throwable β → Prop) (r : Except Throwable β)
    (es : List (JdbcEvent Conn Stat)) : Prop where
  raised : ∀ e, (failures es).getLast? = some e → r = .error e
  answered : failures es = [] → spec (executed es) r

section Answers

open Prog

variable {spec : List Database → Except Throwable β → Prop} {es es' : List (JdbcEvent Conn Stat)}

theorem failures_append : failures (es ++ es') = failures es ++ failures es' := List.filterMap_append

theorem executed_append : executed (es ++ es') = executed es ++ executed es' := List.filterMap_append

theorem Exact.failures_of_ok {b : β} (h : Exact spec (.ok b) es) : failures es = [] := by
  cases hlast : (failures es).getLast? with
  | none => exact List.getLast?_eq_none_iff.mp hlast
  | some e => cases h.raised e hlast

theorem exact_pure {r : Except Throwable β} (h : spec [] r) : Exact spec r ([] : List (JdbcEvent Conn Stat)) :=
  ⟨fun _ he => (nomatch he), fun _ => h⟩

/-- **Sequence rule**: what the first part found, then what the second found. -/
theorem exact_bind {spec₁ : List Database → Except Throwable α → Prop}
    (spec₂ : α → List Database → Except Throwable β → Prop) {p : JdbcM Conn Stat α} {f : α → JdbcM Conn Stat β}
    (hp : Emits p (Exact spec₁)) (hf : ∀ a, Emits (f a) (Exact (spec₂ a)))
    (he : ∀ dbs e, spec₁ dbs (.error e) → spec dbs (.error e))
    (hok : ∀ dbs a dbs' r, spec₁ dbs (.ok a) → spec₂ a dbs' r → spec (dbs ++ dbs') r) :
    Emits (p >>= f) (Exact spec) := by
  refine hp.bind (fun e es h => ⟨fun e' he' => ?_, fun hnone => he _ e (h.answered hnone)⟩) fun a es h s => ?_
  · cases h.raised e' he'
    rfl
  · have hnone := h.failures_of_ok
    have hrest := hf a s
    refine ⟨fun e' he' => hrest.raised e' ?_, fun hnone' => ?_⟩
    · rwa [failures_append, hnone, List.nil_append] at he'
    · rw [failures_append, hnone, List.nil_append] at hnone'
      rw [executed_append]
      exact hok _ a _ _ (h.answered hnone) (hrest.answered hnone')

/-- What is thrown at the end is the last that is raised. -/
theorem exact_replaced (raised : Option Throwable) {r : Except Throwable β} {w : JdbcEvent Conn Stat}
    (h : Exact spec r es) (hw : w.failure = raised) (hfound : w.found = none) :
    Exact spec (replaced raised r) (es ++ [w]) := by
  have hexecuted : executed (es ++ [w]) = executed es := by simp [executed, hfound]
  cases raised with
  | none =>
    have hfailures : failures (es ++ [w]) = failures es := by simp [failures, hw]
    exact ⟨fun e he => h.raised e (hfailures ▸ he), fun hnone => hexecuted ▸ h.answered (hfailures ▸ hnone)⟩
  | some e =>
    have hfailures : failures (es ++ [w]) = failures es ++ [e] := by simp [failures, hw]
    refine ⟨fun e' he' => ?_, fun hnone => ?_⟩
    · rw [hfailures, List.getLast?_concat, Option.some.injEq] at he'
      rw [he']
      rfl
    · rw [hfailures] at hnone
      simp at hnone

theorem exact_silent {r : Except Throwable β} {w : JdbcEvent Conn Stat} (h : Exact spec r es)
    (hw : w.failure = none) (hfound : w.found = none) : Exact spec r (w :: es) := by
  have hfailures : failures (w :: es) = failures es := by simp [failures, hw]
  have hexecuted : executed (w :: es) = executed es := by simp [executed, hfound]
  exact ⟨fun e he => h.raised e (hfailures ▸ he), fun hnone => hexecuted ▸ h.answered (hfailures ▸ hnone)⟩

/-- One query, and its answer. -/
def Answers (answer : Database → Except Throwable β) (dbs : List Database) (r : Except Throwable β) : Prop :=
  ∃ db, dbs = [db] ∧ r = answer db

variable {answer : Database → Except Throwable β} {r : Except Throwable β}

theorem exact_raised (e : Throwable) : Exact spec (.error e) [(.raised e : JdbcEvent Conn Stat)] :=
  ⟨fun _ he => (by cases he; rfl), fun h => (nomatch h)⟩

theorem ReadRun.exact (h : ReadRun answer r es) : Exact (Answers answer) r es := by
  cases h with
  | unsent e => exact exact_raised e
  | broken db e => exact ⟨fun _ he => (by cases he; rfl), fun h => (nomatch h)⟩
  | whole db => exact ⟨fun _ he => (nomatch he), fun _ => ⟨db, rfl, rfl⟩⟩

theorem QueryRun.exact (h : QueryRun answer r es) : Exact (Answers answer) r es := by
  cases h with
  | refused e => exact exact_raised e
  | unprepared conn e raised =>
    exact exact_silent (exact_replaced raised (w := .closeConnection conn raised) (exact_raised e) rfl rfl) rfl rfl
  | @closed conn stat raised r read h =>
    have hstat : Exact (Answers answer) r (read ++ [.closeStatement stat none]) :=
      exact_replaced none h.exact rfl rfl
    have hconn := exact_replaced raised (w := .closeConnection conn raised) hstat rfl rfl
    rw [List.append_assoc] at hconn
    exact exact_silent (exact_silent hconn rfl rfl) rfl rfl
  | @lost conn stat e r read h =>
    have hstat : Exact (Answers answer) (.error e) (read ++ [.closeStatement stat (some e)]) :=
      exact_replaced (some e) h.exact rfl rfl
    exact exact_silent (exact_silent hstat rfl rfl) rfl rfl

theorem Emits.exact {p : JdbcM Conn Stat β} (h : Emits p (QueryRun answer)) : Emits p (Exact (Answers answer)) :=
  fun s => (h s).exact

/-- What is computed from a query's rows afterwards. -/
theorem exact_compute {rows : Database → Except Throwable α} {p : JdbcM Conn Stat α} {g : α → Except Throwable β}
    (hp : Emits p (Exact (Answers rows))) :
    Emits (p >>= fun a => ofExcept (g a)) (Exact (Answers fun db => rows db >>= g)) := by
  refine exact_bind (fun a dbs r => dbs = [] ∧ r = g a) hp (fun a s => ?_) ?_ ?_
  · rw [run_ofExcept]
    exact exact_pure ⟨rfl, rfl⟩
  · rintro dbs e ⟨db, hdb, hr⟩
    refine ⟨db, hdb, ?_⟩
    show .error e = rows db >>= g
    rw [← hr]
    rfl
  · rintro dbs a dbs' r ⟨db, rfl, hr⟩ ⟨rfl, rfl⟩
    refine ⟨db, rfl, ?_⟩
    show g a = rows db >>= g
    rw [← hr]
    rfl

/-- A query for each element: as many as it takes to the first error, or all. -/
def AnswersAll (l : List α) (answer : α → Database → Except Throwable β) (dbs : List Database)
    (r : Except Throwable (List β)) : Prop :=
  r = (l.zip dbs).mapM (fun x => answer x.1 x.2) ∧ ∀ bs, r = .ok bs → dbs.length = l.length

/-- **Loop rule**. -/
theorem exact_mapM {answer : α → Database → Except Throwable β} {f : α → JdbcM Conn Stat β}
    (h : ∀ a, Emits (f a) (Exact (Answers (answer a)))) :
    ∀ l : List α, Emits (l.mapM f) (Exact (AnswersAll l answer))
  | [] => fun _ => exact_pure ⟨rfl, fun _ _ => rfl⟩
  | a :: l => by
    rw [List.mapM_cons]
    have hrest : ∀ b, Emits (l.mapM f >>= fun bs => pure (b :: bs))
        (Exact fun dbs r => ∃ r', AnswersAll l answer dbs r' ∧ r = r' >>= fun bs => .ok (b :: bs)) := by
      intro b
      refine exact_bind (fun bs dbs r => dbs = [] ∧ r = .ok (b :: bs)) (exact_mapM h l)
        (fun bs _ => exact_pure ⟨rfl, rfl⟩) ?_ ?_
      · intro dbs e he
        exact ⟨_, he, rfl⟩
      · rintro dbs bs dbs' r hbs ⟨rfl, rfl⟩
        exact ⟨_, by rwa [List.append_nil], rfl⟩
    refine exact_bind _ (h a) hrest ?_ ?_
    · rintro dbs e ⟨db, rfl, he⟩
      refine ⟨?_, fun bs hbs => by cases hbs⟩
      rw [List.zip_cons_cons, List.mapM_cons, ← he]
      rfl
    · rintro dbs b dbs' r ⟨db, rfl, hb⟩ ⟨r', ⟨hr', hlength⟩, rfl⟩
      refine ⟨?_, fun bs hbs => ?_⟩
      · rw [List.singleton_append, List.zip_cons_cons, List.mapM_cons, ← hb, hr']
        rfl
      · cases r' with
        | error e => cases hbs
        | ok bs' => simp [hlength bs' rfl]

end Answers

/-! ### The methods -/

section Methods

open Prog OsgiJdbcSecurityAccess

variable {PublicKey Permission : Type} {newWildcardPermission : String → Except Throwable Permission}
  {principal : Option String}

theorem emits_userExists : Emits (userExists jdbc principal) (QueryRun fun db => db.userExists principal) :=
  emits_executeQuery fun stat _ => reads_readSingle false _ stat _

theorem emits_getPrincipalPassword :
    Emits (getPrincipalPassword jdbc principal) (QueryRun fun db => db.getPrincipalPassword principal) :=
  emits_executeQuery fun stat _ => reads_readSingle none id stat _

theorem emits_getPrincipalKeys :
    Emits (getPrincipalKeys jdbc principal) (QueryRun fun db => db.getPrincipalKeys principal) :=
  emits_executeQuery fun stat _ => reads_readAll stat _

theorem emits_getRoles : Emits (getRoles jdbc principal) (QueryRun fun db => db.getRoles principal) :=
  emits_executeQuery fun stat _ => reads_readAll stat _

theorem emits_permissionQuery : Emits (executeQuery jdbc permissionQuery principal (readAll jdbc))
    (QueryRun fun db => .ok (db.permissionQuery principal)) :=
  emits_executeQuery fun stat _ => reads_readAll stat _

theorem exact_getPermissions : Emits (getPermissions jdbc newWildcardPermission principal)
    (Exact (Answers fun db => db.getPermissions newWildcardPermission principal)) :=
  exact_compute (Emits.exact emits_permissionQuery)

end Methods

/-! ### The realm -/

section Realm

open Prog OsgiJdbcSecurityAccess

variable {PublicKey Permission : Type}

/-- The states that the queries of `doGetAuthenticationInfo` are put to: the last two only for a user that exists. -/
def QueryStates.queried (qs : QueryStates) (token : AuthenticationToken PublicKey) : List Database :=
  if (qs.atExists.findUser token.getPrincipal).isSome then [qs.atExists, qs.atPassword, qs.atKeys] else [qs.atExists]

/-- The password and the keys, each as its query finds it. -/
def infoAt (principal : Option String) (atPassword atKeys : Database) :
    Except Throwable (Option DynamyAuthenticationInfo) := do
  let password ← atPassword.getPrincipalPassword principal
  let keys ← atKeys.getPrincipalKeys principal
  return some ⟨principal, (password, some keys), getName⟩

theorem exact_info (principal : Option String) :
    Emits
      (do
        let password ← getPrincipalPassword jdbc principal
        let keys ← getPrincipalKeys jdbc principal
        return some (⟨principal, (password, some keys), getName⟩ : DynamyAuthenticationInfo))
      (Exact fun dbs r => ∃ atPassword atKeys, dbs = [atPassword, atKeys] ∧ r = infoAt principal atPassword atKeys) := by
  have hkeys : ∀ password, Emits
      (do
        let keys ← getPrincipalKeys jdbc principal
        return some (⟨principal, (password, some keys), getName⟩ : DynamyAuthenticationInfo))
      (Exact (Answers fun db => db.getPrincipalKeys principal >>= fun keys =>
        .ok (some (⟨principal, (password, some keys), getName⟩ : DynamyAuthenticationInfo)))) :=
    fun password => exact_compute
      (g := fun keys => .ok (some (⟨principal, (password, some keys), getName⟩ : DynamyAuthenticationInfo)))
      (Emits.exact emits_getPrincipalKeys)
  refine exact_bind _ (Emits.exact emits_getPrincipalPassword) hkeys ?_ ?_
  · rintro dbs e ⟨db, -, (he : .error e = db.getPrincipalPassword principal)⟩
    rw [Database.getPrincipalPassword_eq] at he
    cases he
  · rintro dbs password dbs' r ⟨db, rfl, (hpassword : .ok password = db.getPrincipalPassword principal)⟩ ⟨db', rfl, rfl⟩
    refine ⟨db, db', rfl, ?_⟩
    rw [infoAt, ← hpassword]
    rfl

theorem exact_doGetAuthenticationInfo (token : AuthenticationToken PublicKey) :
    Emits (DynamyRealm.doGetAuthenticationInfo jdbc token) (Exact fun dbs r => ∃ qs : QueryStates,
      dbs = qs.queried token ∧ r = doGetAuthenticationInfo qs token) := by
  refine exact_bind (fun found dbs r => if found = true then
      ∃ atPassword atKeys, dbs = [atPassword, atKeys] ∧ r = infoAt token.getPrincipal atPassword atKeys
    else dbs = [] ∧ r = .ok none) (Emits.exact emits_userExists) ?_ ?_ ?_
  · rintro (_ | _)
    · exact fun _ => exact_pure ⟨rfl, rfl⟩
    · exact exact_info token.getPrincipal
  · rintro dbs e ⟨db, -, (he : .error e = db.userExists token.getPrincipal)⟩
    rw [Database.userExists_eq] at he
    cases he
  · rintro dbs found dbs' r ⟨db, rfl, (hfound : .ok found = db.userExists token.getPrincipal)⟩ hrest
    have hsome : found = (db.findUser token.getPrincipal).isSome := by
      rw [Database.userExists_eq] at hfound
      exact Except.ok.inj hfound
    cases found with
    | false =>
      obtain ⟨rfl, rfl⟩ := hrest
      refine ⟨⟨db, db, db⟩, ?_, ?_⟩
      · rw [QueryStates.queried, ← hsome]
        rfl
      · rw [doGetAuthenticationInfo, ← hfound]
        rfl
    | true =>
      obtain ⟨db₂, db₃, rfl, rfl⟩ := hrest
      refine ⟨⟨db, db₂, db₃⟩, ?_, ?_⟩
      · rw [QueryStates.queried, ← hsome]
        rfl
      · rw [doGetAuthenticationInfo, ← hfound]
        rfl

/-- The login decision over JDBC. -/
def DynamyRealm.authenticate (jdbc : ℕ → Jdbc Conn Stat) [DecidableEq PublicKey] (kp : KeyProvider PublicKey)
    (svc : PasswordService) (token : AuthenticationToken PublicKey) : JdbcM Conn Stat Bool := do
  let info ← DynamyRealm.doGetAuthenticationInfo jdbc token
  Prog.ofExcept (doCredentialsMatch kp svc token info)

/-- **The login over JDBC.**  Whatever is raised by the pool, the driver or the database on the way, what is raised
last ends the login, which then decides nothing.  If nothing is raised, the decision is the one that the plain queries
lead to, on the tables as each of them found them: one query for a name that does not exist, else three. -/
theorem authenticate_exact [DecidableEq PublicKey] (jdbc : ℕ → Jdbc Conn Stat) (kp : KeyProvider PublicKey)
    (svc : PasswordService) (token : AuthenticationToken PublicKey) (s : JdbcState Stat) :
    (∀ e, (failures ((DynamyRealm.authenticate jdbc kp svc token).run s).events).getLast? = some e →
      ((DynamyRealm.authenticate jdbc kp svc token).run s).result = .error e) ∧
    (failures ((DynamyRealm.authenticate jdbc kp svc token).run s).events = [] → ∃ qs : QueryStates,
      executed ((DynamyRealm.authenticate jdbc kp svc token).run s).events = qs.queried token ∧
        ((DynamyRealm.authenticate jdbc kp svc token).run s).result = authenticate kp svc qs token) := by
  have hexact : Emits (DynamyRealm.authenticate jdbc kp svc token) (Exact fun dbs r => ∃ qs : QueryStates,
      dbs = qs.queried token ∧ r = authenticate kp svc qs token) := by
    refine exact_bind (fun info dbs r => dbs = [] ∧ r = doCredentialsMatch kp svc token info)
      (exact_doGetAuthenticationInfo token) (fun info s => ?_) ?_ ?_
    · rw [run_ofExcept]
      exact exact_pure ⟨rfl, rfl⟩
    · rintro dbs e ⟨qs, hdbs, he⟩
      refine ⟨qs, hdbs, ?_⟩
      rw [authenticate, ← he]
      rfl
    · rintro dbs info dbs' r ⟨qs, hdbs, hinfo⟩ ⟨rfl, rfl⟩
      refine ⟨qs, by rw [List.append_nil, hdbs], ?_⟩
      rw [authenticate, ← hinfo]
      rfl
  exact ⟨(hexact s).raised, (hexact s).answered⟩

variable [DecidableEq Permission] {newWildcardPermission : String → Except Throwable Permission}

/-- `doGetAuthorizationInfo`, with the tables that each query finds. -/
def doGetAuthorizationInfoAt (newWildcardPermission : String → Except Throwable Permission) (principals : List String)
    (permissionStates roleStates : List Database) : Except Throwable (SimpleAuthorizationInfo Permission) := do
  let permissionCollections ← (principals.zip permissionStates).mapM fun x =>
    x.2.getPermissions newWildcardPermission (some x.1)
  let rolesCollections ← (principals.zip roleStates).mapM fun x => x.2.getRoles (some x.1)
  let permissions := permissionCollections.flatten
  let roles := rolesCollections.flatten
  return { roles := roles.toFinset, objectPermissions := permissions.toFinset }

/-- Where all queries find the same tables, it is as if each element had been asked for. -/
theorem AnswersAll.still {answer : α → Database → Except Throwable β} {db : Database} : ∀ {l : List α}
    {dbs : List Database} {r : Except Throwable (List β)}, AnswersAll l answer dbs r → (∀ d ∈ dbs, d = db) →
    r = l.mapM fun a => answer a db
  | [], _, _, ⟨hr, _⟩, _ => hr
  | a :: l, [], r, ⟨hr, hlength⟩, _ => by
    cases hlength [] hr
  | a :: l, d :: dbs, r, ⟨hr, hlength⟩, hstill => by
    obtain rfl := hstill d List.mem_cons_self
    rw [List.zip_cons_cons, List.mapM_cons] at hr
    rw [List.mapM_cons]
    cases hb : answer a d with
    | error e =>
      rw [hb] at hr
      exact hr
    | ok b =>
      rw [hb] at hr
      have hrest : AnswersAll l answer dbs ((l.zip dbs).mapM fun x => answer x.1 x.2) := by
        refine ⟨rfl, fun bs hbs => ?_⟩
        rw [hbs] at hr
        exact Nat.succ.inj (hlength (b :: bs) hr)
      rw [hr, hrest.still fun d' hd' => hstill d' (List.mem_cons_of_mem d hd')]

/-- A result of `doGetAuthorizationInfo` rests on what its queries found: as many as it takes to the first error, or
two for each principal; and where all of them found the same tables, it is the plain one on these. -/
structure GrantsAt (newWildcardPermission : String → Except Throwable Permission) (principals : List String)
    (dbs : List Database) (r : Except Throwable (SimpleAuthorizationInfo Permission)) : Prop where
  states : ∃ permissionStates roleStates, dbs = permissionStates ++ roleStates ∧
    r = doGetAuthorizationInfoAt newWildcardPermission principals permissionStates roleStates ∧
    ∀ info, r = .ok info → permissionStates.length = principals.length ∧ roleStates.length = principals.length
  still : ∀ db, (∀ d ∈ dbs, d = db) → r = doGetAuthorizationInfo newWildcardPermission db.toTables principals

variable (jdbc newWildcardPermission) in
theorem exact_doGetAuthorizationInfo (principals : List String) :
    Emits (DynamyRealm.doGetAuthorizationInfo jdbc newWildcardPermission principals)
      (Exact (GrantsAt newWildcardPermission principals)) := by
  have hpermissions : Emits (principals.mapM fun p => getPermissions jdbc newWildcardPermission (some p))
      (Exact (AnswersAll principals fun p db => db.getPermissions newWildcardPermission (some p))) :=
    exact_mapM (fun _ => exact_getPermissions) principals
  have hroles : Emits (principals.mapM fun p => getRoles jdbc (some p))
      (Exact (AnswersAll principals fun p db => db.getRoles (some p))) :=
    exact_mapM (fun _ => Emits.exact emits_getRoles) principals
  have hrest : ∀ permissions : List (List Permission), Emits
      (do
        let rolesCollections ← principals.mapM fun stringPrincipal => getRoles jdbc (some stringPrincipal)
        return (⟨rolesCollections.flatten.toFinset, permissions.flatten.toFinset⟩ : SimpleAuthorizationInfo Permission))
      (Exact fun dbs r => ∃ roles, AnswersAll principals (fun p db => db.getRoles (some p)) dbs roles ∧
        r = roles >>= fun roles => .ok ⟨roles.flatten.toFinset, permissions.flatten.toFinset⟩) := by
    intro permissions
    refine exact_bind (fun roles dbs r => dbs = [] ∧
      r = .ok ⟨roles.flatten.toFinset, permissions.flatten.toFinset⟩) hroles (fun roles s => exact_pure ⟨rfl, rfl⟩) ?_ ?_
    · exact fun dbs e he => ⟨_, he, rfl⟩
    · rintro dbs roles dbs' r hdbs ⟨rfl, rfl⟩
      exact ⟨_, by rwa [List.append_nil], rfl⟩
  refine exact_bind _ hpermissions hrest ?_ ?_
  · intro dbs e he
    refine ⟨⟨dbs, [], (List.append_nil dbs).symm, ?_, fun info hinfo => by cases hinfo⟩, fun db hdb => ?_⟩
    · rw [doGetAuthorizationInfoAt, ← he.1]
      rfl
    · rw [doGetAuthorizationInfo, ← he.still hdb]
      rfl
  · rintro dbs permissions dbs' r hdbs ⟨roles, hdbs', rfl⟩
    refine ⟨⟨dbs, dbs', rfl, ?_, fun info hinfo => ?_⟩, fun db hdb => ?_⟩
    · rw [doGetAuthorizationInfoAt, ← hdbs.1, ← hdbs'.1]
      rfl
    · cases roles with
      | error e => cases hinfo
      | ok roles => exact ⟨hdbs.2 _ rfl, hdbs'.2 _ rfl⟩
    · rw [doGetAuthorizationInfo, ← hdbs.still fun d hd => hdb d (List.mem_append_left dbs' hd),
        ← hdbs'.still fun d hd => hdb d (List.mem_append_right dbs hd)]
      rfl

/-- **The grants over JDBC.**  What is raised last ends the request; if nothing is raised, the roles and permissions are
those that each principal has in the tables as its own queries found them. -/
theorem authorization_exact (jdbc : ℕ → Jdbc Conn Stat)
    (newWildcardPermission : String → Except Throwable Permission) (principals : List String) (s : JdbcState Stat) :
    (∀ e, (failures
          ((DynamyRealm.doGetAuthorizationInfo jdbc newWildcardPermission principals).run s).events).getLast? = some e →
        ((DynamyRealm.doGetAuthorizationInfo jdbc newWildcardPermission principals).run s).result = .error e) ∧
      (failures ((DynamyRealm.doGetAuthorizationInfo jdbc newWildcardPermission principals).run s).events = [] →
        GrantsAt newWildcardPermission principals
          (executed ((DynamyRealm.doGetAuthorizationInfo jdbc newWildcardPermission principals).run s).events)
          ((DynamyRealm.doGetAuthorizationInfo jdbc newWildcardPermission principals).run s).result) := by
  have hexact := exact_doGetAuthorizationInfo jdbc newWildcardPermission principals s
  exact ⟨hexact.raised, hexact.answered⟩

end Realm

/-! ### Requests -/

section Requests

open Prog OsgiJdbcSecurityAccess

variable {PublicKey Permission : Type} [DecidableEq Permission]

/-- What Shiro asks of the realm. -/
inductive Request (PublicKey : Type)
  | authentication (token : AuthenticationToken PublicKey)
  | authorization (principals : List String)

variable (jdbc) (newWildcardPermission : String → Except Throwable Permission)

/-- One request; what escapes from it ends in Shiro. -/
def serve : Request PublicKey → JdbcM Conn Stat Unit
  | .authentication token => Prog.attempt
    (do
      let _ ← DynamyRealm.doGetAuthenticationInfo jdbc token
      return)
    fun _ => return
  | .authorization principals => Prog.attempt
    (do
      let _ ← DynamyRealm.doGetAuthorizationInfo jdbc newWildcardPermission principals
      return)
    fun _ => return

variable {jdbc newWildcardPermission} {answer : Database → Except Throwable β}

/-- What single queries are seen to do. -/
def sessions : Language (JdbcEvent Conn Stat) := {es | Session es}

theorem Emits.sessions {p : JdbcM Conn Stat β} (h : Emits p (QueryRun answer)) : Speaks sessions p :=
  Emits.speaks fun s => (h s).session

theorem speaks_doGetAuthenticationInfo (token : AuthenticationToken PublicKey) :
    Speaks sessions (DynamyRealm.doGetAuthenticationInfo jdbc token) := by
  refine (Emits.sessions emits_userExists).bind fun found => ?_
  cases found with
  | false => exact speaks_pure none
  | true =>
    exact (Emits.sessions emits_getPrincipalPassword).bind fun password =>
      (Emits.sessions emits_getPrincipalKeys).bind fun keys => speaks_pure _

omit [DecidableEq Permission] in
theorem speaks_getPermissions (principal : Option String) :
    Speaks sessions (getPermissions jdbc newWildcardPermission principal) :=
  (Emits.sessions emits_permissionQuery).bind fun _ => speaks_ofExcept _

theorem speaks_doGetAuthorizationInfo (principals : List String) :
    Speaks sessions (DynamyRealm.doGetAuthorizationInfo jdbc newWildcardPermission principals) :=
  (Speaks.mapM (fun principal => speaks_getPermissions (some principal)) principals).bind fun _ =>
    (Speaks.mapM (fun _ => Emits.sessions emits_getRoles) principals).bind fun _ => speaks_pure _

theorem speaks_serve (request : Request PublicKey) :
    Speaks sessions (serve jdbc newWildcardPermission request) := by
  cases request with
  | authentication token =>
    exact ((speaks_doGetAuthenticationInfo token).bind fun _ => speaks_pure ()).attempt fun _ => speaks_pure ()
  | authorization principals =>
    exact ((speaks_doGetAuthorizationInfo principals).bind fun _ => speaks_pure ()).attempt fun _ => speaks_pure ()

end Requests

end Dynamy.Security
