import Dynamy.Lib.Bracket
import Dynamy.Services.NamingService

/-!
# Dynamy.Services.Registrations — which data sources `init` registers

Every entry of the configuration is loaded within a handler of its own, so an entry that cannot be loaded leaves the
others as they are: an entry is registered, under its name and with what its pool asks for, exactly if none of the
operations on its own objects raises (`Loaded`), and the registrations are made in the order of the configuration
(`init_registers`).
-/

namespace Dynamy.Services

open Dynamy.Java Dynamy.Lib Prog

namespace DBPoolConfig

variable (pool : DBPoolConfig)

/-- The settings of the data source of an XA pool, over that of the driver. -/
def xaSettings (raw : ℕ) (properties : List (String × String)) : List Setting :=
  [.datasourceBean ⟨raw, pool.driverClass, properties⟩, .maxConnectionsPerPartition pool.maxConnectionsPerPartition,
    .minConnectionsPerPartition pool.minConnectionsPerPartition]

/-- What is asked of the outside for the data source of the driver. -/
def rawOperations (raw : ℕ) (properties : List (String × String)) : List Operation :=
  .newInstance raw pool.driverClass :: properties.map fun property => .setProperty raw property.1 property.2

end DBPoolConfig

namespace NamingService

/-- What is asked of it for a pool's data source until it is registered. -/
def poolOperations (id : ℕ) (settings : List Setting) : List Operation :=
  .newDataSource id :: settings.map (.set id) ++ [.registerService id]

variable (o : Outside)

/-- Nothing of this raises. -/
def Succeeds (ops : List Operation) : Prop := ∀ op ∈ ops, o.raises op = none

/-- The settings that a pool's data source gets, and its number, if there are `n` objects already; an XA pool needs
properties, and the data source of the driver comes first. -/
inductive Prepared (pool : DBPoolConfig) (n : ℕ) : List Setting → ℕ → Prop
  | plain (h : pool.xaPool = false) : Prepared pool n (plainSettings pool) n
  | xa {properties : List (String × String)} (h : pool.xaPool = true) (hproperties : pool.properties = some properties)
      (hops : Succeeds o (pool.rawOperations n properties)) : Prepared pool n (pool.xaSettings n properties) (n + 1)

/-- What becomes of an entry, if there are `n` objects before it: its registration, or nothing, and how many objects
there are then. -/
inductive Loaded (n : ℕ) : Option String × Option DBPoolConfig → List ServiceRegistration → ℕ → Prop
  | unconfigured {name : Option String} : Loaded n (name, none) [] n
  | unprepared {name : Option String} {pool : DBPoolConfig} (h : ∀ settings id, ¬ Prepared o pool n settings id) :
      Loaded n (name, some pool) [] (n + 1)
  | refused {name : Option String} {pool : DBPoolConfig} {settings : List Setting} {id : ℕ}
      (h : Prepared o pool n settings id) (hops : name = none ∨ ¬ Succeeds o (poolOperations id settings)) :
      Loaded n (name, some pool) [] (id + 1)
  | registered {name : String} {pool : DBPoolConfig} {settings : List Setting} {id : ℕ} (number : ℕ)
      (h : Prepared o pool n settings id) (hops : Succeeds o (poolOperations id settings)) :
      Loaded n (some name, some pool)
        [⟨number, o.isXADataSource ⟨id, pool.xaPool, settings⟩, name, ⟨id, pool.xaPool, settings⟩⟩] (id + 1)

/-- The entries, one after the other. -/
inductive AllLoaded : ℕ → List (Option String × Option DBPoolConfig) → List ServiceRegistration → Prop
  | nil {n : ℕ} : AllLoaded n [] []
  | cons {n m : ℕ} {entry : Option String × Option DBPoolConfig} {data : List (Option String × Option DBPoolConfig)}
      {piece pieces : List ServiceRegistration} (h : Loaded o n entry piece m) (hrest : AllLoaded m data pieces) :
      AllLoaded n (entry :: data) (piece ++ pieces)

variable {o} {n : ℕ}

/-! ### The parts -/

/-- From `n` objects on, `p` ends with a result, a number of objects and events that satisfy `S`. -/
abbrev Counts {α : Type} (n : ℕ) (p : NamingProg α) (S : Except Throwable α → ℕ → List NamingEvent → Prop) : Prop :=
  Triple (fun s => s.created = n) p fun r t es => S r t.created es

/-- The result tells whether all of `ops` went well. -/
def Asks {α : Type} (o : Outside) (ops : List Operation) (a : α) (r : Except Throwable α) : Prop :=
  r = .ok a ∧ Succeeds o ops ∨ (∃ e, r = .error e) ∧ ¬ Succeeds o ops

/-- `p` asks for `ops`, creates nothing and is not seen. -/
abbrev Asking {α : Type} (o : Outside) (n : ℕ) (p : NamingProg α) (ops : List Operation) (a : α) : Prop :=
  Counts n p fun r m es => Asks o ops a r ∧ m = n ∧ es = []

theorem Succeeds.append {ops ops' : List Operation} : Succeeds o (ops ++ ops') ↔ Succeeds o ops ∧ Succeeds o ops' :=
  List.forall_mem_append

theorem succeeds_singleton {op : Operation} : Succeeds o [op] ↔ o.raises op = none := List.forall_mem_singleton

theorem asking_pure {α : Type} (a : α) : Asking o n (pure a) [] a :=
  triple_pure fun _ hs => ⟨.inl ⟨rfl, fun _ h => (List.not_mem_nil h).elim⟩, hs, rfl⟩

theorem asking_perform (op : Operation) : Asking o n (perform o op) [op] () := by
  intro s hs
  cases h : o.raises op with
  | none =>
    rw [run_perform h]
    exact ⟨.inl ⟨rfl, succeeds_singleton.mpr h⟩, hs, rfl⟩
  | some e =>
    rw [run_perform_raises h]
    exact ⟨.inr ⟨⟨e, rfl⟩, fun hsucceeds => by rw [succeeds_singleton.mp hsucceeds] at h; cases h⟩, hs, rfl⟩

/-- One after the other. -/
theorem Asking.seq {α β : Type} {p : NamingProg α} {f : α → NamingProg β} {ops ops' : List Operation} {a : α} {b : β}
    (hp : Asking o n p ops a) (hf : Asking o n (f a) ops' b) : Asking o n (p >>= f) (ops ++ ops') b := by
  refine hp.bind ?_ ?_
  · rintro e t es ⟨⟨h, -⟩ | ⟨-, hfails⟩, hcreated, hes⟩
    · cases h
    · exact ⟨.inr ⟨⟨e, rfl⟩, fun h => hfails (Succeeds.append.mp h).1⟩, hcreated, hes⟩
  · rintro a' es t ⟨⟨h, hops⟩ | ⟨⟨e, h⟩, -⟩, hcreated, rfl⟩
    · cases h
      obtain ⟨⟨h, hops'⟩ | ⟨h, hfails⟩, hcreated', hes⟩ := hf t hcreated
      · exact ⟨.inl ⟨h, Succeeds.append.mpr ⟨hops, hops'⟩⟩, hcreated', hes⟩
      · exact ⟨.inr ⟨h, fun h => hfails (Succeeds.append.mp h).2⟩, hcreated', hes⟩
    · cases h

/-- An object gets its number. -/
theorem counts_fresh_bind {β : Type} {f : ℕ → NamingProg β} {S : Except Throwable β → ℕ → List NamingEvent → Prop}
    (h : Counts (n + 1) (f n) S) : Counts n (fresh >>= f) S := by
  rintro s rfl
  exact h { s with created := s.created + 1 } rfl

theorem asking_configure (id : ℕ) (aware : Bool) : ∀ settings before : List Setting,
    Asking o n (configure o ⟨id, aware, before⟩ settings) (settings.map (.set id)) ⟨id, aware, before ++ settings⟩
  | [], before => by
    rw [List.append_nil]
    exact asking_pure _
  | setting :: rest, before => by
    have hrest := asking_configure id aware rest (before ++ [setting])
    rw [List.append_assoc] at hrest
    exact (asking_perform (.set id setting)).seq hrest

theorem asking_setProperties (id : ℕ) (driverClass : Option String) : ∀ properties before : List (String × String),
    Asking o n (setProperties o ⟨id, driverClass, before⟩ properties)
      (properties.map fun property => .setProperty id property.1 property.2) ⟨id, driverClass, before ++ properties⟩
  | [], before => by
    rw [List.append_nil]
    exact asking_pure _
  | (name, value) :: rest, before => by
    have hrest := asking_setProperties id driverClass rest (before ++ [(name, value)])
    rw [List.append_assoc] at hrest
    exact (asking_perform (.setProperty id name value)).seq hrest

/-- A new data source and its settings. -/
theorem counts_configured (aware : Bool) (settings : List Setting) :
    Counts n (newDataSource o aware >>= fun ds => configure o ds settings) fun r m es =>
      Asks o (.newDataSource n :: settings.map (.set n)) ⟨n, aware, settings⟩ r ∧ m = n + 1 ∧ es = [] := by
  unfold newDataSource
  rw [bind_assoc]
  refine counts_fresh_bind ?_
  have hconfigure : Asking o (n + 1) (configure o ⟨n, aware, []⟩ settings) (settings.map (.set n)) ⟨n, aware, settings⟩ :=
    asking_configure n aware settings []
  rw [bind_assoc]
  exact (asking_perform (.newDataSource n)).seq (f := fun _ => pure _ >>= _) hconfigure

theorem counts_loadPool (pool : DBPoolConfig) : Counts n (loadPool o pool) fun r m es => m = n + 1 ∧ es = [] ∧
    ((∃ properties, pool.properties = some properties ∧ r = .ok ⟨n, pool.driverClass, properties⟩ ∧
        Succeeds o (pool.rawOperations n properties)) ∨
      (∃ e, r = .error e) ∧ ∀ properties, pool.properties = some properties →
        ¬ Succeeds o (pool.rawOperations n properties)) := by
  unfold loadPool
  refine counts_fresh_bind ?_
  cases hproperties : pool.properties with
  | none =>
    refine (asking_perform (.newInstance n pool.driverClass)).bind ?_ ?_
    · rintro e t es ⟨-, hcreated, rfl⟩
      exact ⟨hcreated, rfl, .inr ⟨⟨e, rfl⟩, nofun⟩⟩
    · rintro _ es t ⟨-, hcreated, rfl⟩
      exact ⟨hcreated, rfl, .inr ⟨⟨_, rfl⟩, nofun⟩⟩
  | some properties =>
    have hset : Asking o (n + 1) (ofExcept (deref (some properties)) >>= fun properties =>
        setProperties o ⟨n, pool.driverClass, []⟩ properties)
        (properties.map fun property => .setProperty n property.1 property.2) ⟨n, pool.driverClass, properties⟩ :=
      asking_setProperties n pool.driverClass properties []
    have hasking : Asking o (n + 1) (perform o (.newInstance n pool.driverClass) >>= fun _ =>
        ofExcept (deref (some properties)) >>= fun properties => setProperties o ⟨n, pool.driverClass, []⟩ properties)
        (pool.rawOperations n properties) ⟨n, pool.driverClass, properties⟩ :=
      (asking_perform (.newInstance n pool.driverClass)).seq hset
    refine hasking.mono fun r t es ⟨hasks, hcreated, hes⟩ => ⟨hcreated, hes, ?_⟩
    rcases hasks with ⟨hr, hops⟩ | ⟨hr, hfails⟩
    · exact .inl ⟨properties, rfl, hr, hops⟩
    · exact .inr ⟨hr, fun properties' h => by cases h; exact hfails⟩

/-- What is built for a pool. -/
theorem counts_buildPool (pool : DBPoolConfig) : Counts n (buildPool o pool) fun r m es => es = [] ∧
    ((∃ settings id, Prepared o pool n settings id ∧ m = id + 1 ∧
        Asks o (.newDataSource id :: settings.map (.set id)) ⟨id, pool.xaPool, settings⟩ r) ∨
      (∀ settings id, ¬ Prepared o pool n settings id) ∧ m = n + 1 ∧ ∃ e, r = .error e) := by
  unfold buildPool
  split
  · rename_i hxa
    refine (counts_loadPool pool).bind ?_ ?_
    · rintro e t es ⟨hcreated, rfl, ⟨properties, -, h, -⟩ | ⟨-, hfails⟩⟩
      · cases h
      · refine ⟨rfl, .inr ⟨fun settings id hprepared => ?_, hcreated, e, rfl⟩⟩
        cases hprepared with
        | plain h => rw [hxa] at h; cases h
        | xa _ hproperties hops => exact hfails _ hproperties hops
    · rintro rawDS es t ⟨hcreated, rfl, ⟨properties, hproperties, h, hops⟩ | ⟨⟨e, h⟩, -⟩⟩
      · cases h
        obtain ⟨hasks, hm, hes⟩ := counts_configured (o := o) true (pool.xaSettings n properties) t hcreated
        rw [hxa]
        exact ⟨hes, .inl ⟨_, _, .xa hxa hproperties hops, hm, hasks⟩⟩
      · cases h
  · rename_i hxa
    have hplain := Bool.eq_false_of_not_eq_true hxa
    refine (counts_configured false (plainSettings pool)).mono fun r t es ⟨hasks, hm, hes⟩ => ?_
    rw [hplain]
    exact ⟨hes, .inl ⟨_, _, .plain hplain, hm, hasks⟩⟩

/-! ### One entry -/

theorem counts_registerService (xa : Bool) (name : String) (ds : BoneCPDataSource) :
    Counts n (registerService o xa name ds) fun r m es => m = n ∧
      ((o.raises (.registerService ds.id) = none ∧ r = .ok () ∧ ∃ number, es = [.registered ⟨number, xa, name, ds⟩]) ∨
        o.raises (.registerService ds.id) ≠ none ∧ (∃ e, r = .error e) ∧ es = []) := by
  intro s hs
  unfold registerService
  cases h : o.raises (.registerService ds.id) with
  | some e =>
    rw [run_bind_of_error (run_perform_raises h s)]
    exact ⟨hs, .inr ⟨nofun, ⟨e, rfl⟩, rfl⟩⟩
  | none =>
    rw [run_bind_of_ok (run_perform h s)]
    exact ⟨hs, .inl ⟨rfl, rfl, s.registrations, rfl⟩⟩

/-- A name is there: the data source is registered, or refused. -/
theorem counts_createDataSource (name : String) (ds : BoneCPDataSource) :
    Counts n (createDataSource o (some name) ds) fun r m es => m = n ∧
      ((o.raises (.registerService ds.id) = none ∧ r = .ok ds ∧
          ∃ number, es.filterMap NamingEvent.registration = [⟨number, o.isXADataSource ds, name, ds⟩]) ∨
        o.raises (.registerService ds.id) ≠ none ∧ (∃ e, r = .error e) ∧
          es.filterMap NamingEvent.registration = []) := by
  have hregister : (if o.isXADataSource ds then registerService o true name ds else registerService o false name ds) =
      registerService o (o.isXADataSource ds) name ds := by
    cases o.isXADataSource ds <;> rfl
  unfold createDataSource
  refine triple_emit_bind ?_
  show Triple _ (_ >>= fun _ => _) _
  rw [deref_some, ofExcept_ok_bind, hregister]
  refine (counts_registerService _ name ds).bind ?_ ?_
  · rintro e t es ⟨hcreated, ⟨-, h, -⟩ | ⟨hfails, -, rfl⟩⟩
    · cases h
    · exact ⟨hcreated, .inr ⟨hfails, ⟨e, rfl⟩, rfl⟩⟩
  · rintro _ es t ⟨hcreated, ⟨hnone, -, number, rfl⟩ | ⟨-, ⟨e, h⟩, -⟩⟩
    · exact ⟨hcreated, .inl ⟨hnone, rfl, number, rfl⟩⟩
    · cases h

/-- The body of the handler. -/
theorem counts_loadBody (name : Option String) (pool : Option DBPoolConfig) : Counts n
    (do
      let pool ← ofExcept (deref pool)
      let ds ← buildPool o pool
      let f ← createDataSource o name ds
      pure [f] : NamingProg (List BoneCPDataSource)) fun r m es =>
      (∃ piece, Loaded o n (name, pool) piece m ∧ r = .ok (piece.map ServiceRegistration.service) ∧
        es.filterMap NamingEvent.registration = piece) ∨
      Loaded o n (name, pool) [] m ∧ (∃ e, r = .error e) ∧ es.filterMap NamingEvent.registration = [] := by
  cases pool with
  | none =>
    rintro s rfl
    exact .inr ⟨.unconfigured, ⟨_, rfl⟩, rfl⟩
  | some pool =>
    rw [deref_some, ofExcept_ok_bind]
    refine (counts_buildPool pool).bind ?_ ?_
    · rintro e t es ⟨rfl, ⟨settings, id, hprepared, hm, hasks⟩ | ⟨hunprepared, hm, -⟩⟩
      · rcases hasks with ⟨h, -⟩ | ⟨-, hfails⟩
        · cases h
        · rw [hm]
          exact .inr ⟨.refused hprepared (.inr fun h => hfails (Succeeds.append.mp h).1), ⟨e, rfl⟩, rfl⟩
      · rw [hm]
        exact .inr ⟨.unprepared hunprepared, ⟨e, rfl⟩, rfl⟩
    · rintro ds es t ⟨rfl, ⟨settings, id, hprepared, hm, hasks⟩ | ⟨-, -, e, h⟩⟩
      · rcases hasks with ⟨h, hops⟩ | ⟨⟨e, h⟩, -⟩
        · cases h
          cases name with
          | none =>
            refine .inr ⟨?_, ⟨_, rfl⟩, rfl⟩
            have hcreated : (run (createDataSource o none ⟨id, pool.xaPool, settings⟩ >>= fun f => pure [f]) t).state = t :=
              rfl
            rw [hcreated, hm]
            exact .refused hprepared (.inl rfl)
          | some name =>
            have hcreate := counts_createDataSource (o := o) (n := id + 1) name ⟨id, pool.xaPool, settings⟩
            obtain ⟨r', ⟨hcreated, ⟨hnone, rfl, number, hes⟩ | ⟨hfails, ⟨e, rfl⟩, hes⟩⟩, hr⟩ :=
              hcreate.map (g := fun f => [f]) t hm
            · have hall : Succeeds o (poolOperations id settings) :=
                Succeeds.append.mpr ⟨hops, succeeds_singleton.mpr hnone⟩
              refine .inl ⟨[⟨number, _, name, _⟩], ?_, hr, hes⟩
              rw [hcreated]
              exact .registered number hprepared hall
            · refine .inr ⟨?_, ⟨e, hr⟩, hes⟩
              rw [hcreated]
              exact .refused hprepared (.inr fun h => hfails (succeeds_singleton.mp (Succeeds.append.mp h).2))
        · cases h
      · cases h

theorem counts_loadEntry (entry : Option String × Option DBPoolConfig) :
    Counts n (loadEntry o entry.1 entry.2) fun r m es => ∃ piece, Loaded o n entry piece m ∧
      r = .ok (piece.map ServiceRegistration.service) ∧ es.filterMap NamingEvent.registration = piece := by
  unfold loadEntry
  refine (counts_loadBody entry.1 entry.2).attempt ?_ ?_
  · rintro ds t es (⟨piece, hloaded, h, hes⟩ | ⟨-, ⟨e, h⟩, -⟩)
    · exact ⟨piece, hloaded, h, hes⟩
    · cases h
  · rintro e es t (⟨piece, -, h, -⟩ | ⟨hloaded, -, hes⟩)
    · cases h
    · refine ⟨[], hloaded, rfl, ?_⟩
      show (es ++ []).filterMap _ = []
      rw [List.append_nil]
      exact hes

/-- **The entries**, one after the other. -/
theorem counts_loadEntries : ∀ (data : List (Option String × Option DBPoolConfig)) {n : ℕ},
    Counts n (loadEntries o data) fun r _ es => ∃ pieces, AllLoaded o n data pieces ∧
      r = .ok (pieces.map ServiceRegistration.service) ∧ es.filterMap NamingEvent.registration = pieces
  | [], _ => triple_pure fun _ _ => ⟨[], .nil, rfl, rfl⟩
  | (name, pool) :: rest, n => by
    unfold loadEntries
    refine (counts_loadEntry (name, pool)).bind (fun e t es ⟨_, _, h, _⟩ => nomatch h) ?_
    rintro funcs es t ⟨piece, hloaded, h, hes⟩
    cases h
    have hrest := counts_loadEntries rest (n := t.created)
    obtain ⟨r', ⟨pieces, hall, rfl, hes'⟩, hr⟩ :=
      hrest.map (g := fun more => piece.map ServiceRegistration.service ++ more) t rfl
    refine ⟨piece ++ pieces, .cons hloaded hall, ?_, ?_⟩
    · rw [hr, List.map_append]
      rfl
    · rw [List.filterMap_append, hes, hes']

/-! ### The whole -/

theorem emits_probe (f : BoneCPDataSource) : Emits (probe o f) fun r es => r = .ok () ∧ es = [] := by
  unfold probe
  intro s
  have hbody : Asking o s.created (perform o (.getConnection f.id) >>= fun _ => perform o (.closeConnection f.id))
      [.getConnection f.id, .closeConnection f.id] () :=
    (asking_perform (.getConnection f.id)).seq (asking_perform (.closeConnection f.id))
  refine Triple.attempt (R := fun r _ es => r = .ok () ∧ es = []) hbody ?_ ?_ s rfl
  · rintro _ t es ⟨-, -, rfl⟩
    exact ⟨rfl, rfl⟩
  · rintro e es t ⟨-, -, rfl⟩
    exact ⟨rfl, rfl⟩

theorem emits_probes : ∀ l : List BoneCPDataSource, Emits (each (probe o) l) fun r es => r = .ok () ∧ es = []
  | [] => emits_pure ⟨rfl, rfl⟩
  | f :: l => (emits_probe f).bind (fun e es ⟨h, _⟩ => nomatch h) fun _ es ⟨_, hes⟩ => by
    subst hes
    exact emits_probes l

theorem counts_loadDS (ds : BoneCPDataSource) : Counts n (loadDS o ds) fun r _ es =>
    (r = .ok () ∧ ∃ data, o.getDb = .ok (some data) ∧ AllLoaded o n data (es.filterMap NamingEvent.registration)) ∨
      (∃ e, r = .error e) ∧ (∀ data, o.getDb ≠ .ok (some data)) ∧ es = [] := by
  unfold loadDS
  cases hdb : o.getDb with
  | error e => exact fun s _ => .inr ⟨⟨e, rfl⟩, nofun, rfl⟩
  | ok db =>
    cases db with
    | none => exact fun s _ => .inr ⟨⟨_, rfl⟩, nofun, rfl⟩
    | some data =>
      rw [ofExcept_ok_bind, deref_some, ofExcept_ok_bind]
      refine (counts_loadEntries data).bind (fun e t es ⟨_, _, h, _⟩ => nomatch h) ?_
      rintro funcs es t ⟨pieces, hall, -, hes⟩
      obtain ⟨hr, hnone⟩ := emits_probes (o := o) funcs t
      refine .inl ⟨hr, data, rfl, ?_⟩
      rw [hnone, List.append_nil, hes]
      exact hall

/-- The local data source, with what is set on it. -/
def localDs (o : Outside) : BoneCPDataSource := ⟨0, false, localSettings o⟩

/-- What is registered, if `init` ends with `r`. -/
def InitRegisters (o : Outside) (r : Except Throwable Unit) (registered : List ServiceRegistration) : Prop :=
  (¬ Succeeds o (poolOperations 0 (localSettings o)) ∧ (∃ e, r = .error e) ∧ registered = []) ∨
    Succeeds o (poolOperations 0 (localSettings o)) ∧ ∃ number pieces,
      registered = ⟨number, o.isXADataSource (localDs o), "jdbc/dynamyServices", localDs o⟩ :: pieces ∧
      ((r = .ok () ∧ ∃ data, o.getDb = .ok (some data) ∧ AllLoaded o 1 data pieces) ∨
        (∃ e, r = .error e) ∧ (∀ data, o.getDb ≠ .ok (some data)) ∧ pieces = [])

theorem counts_registerLocal (hops : Succeeds o (.newDataSource 0 :: (localSettings o).map (.set 0))) :
    Counts 1 (createDataSource o (some "jdbc/dynamyServices") (localDs o) >>= fun _ => loadDS o (localDs o))
      fun r _ es => InitRegisters o r (es.filterMap NamingEvent.registration) := by
  refine (counts_createDataSource "jdbc/dynamyServices" (localDs o)).bind ?_ ?_
  · rintro e t es ⟨-, ⟨-, h, -⟩ | ⟨hfails, -, hes⟩⟩
    · cases h
    · refine .inl ⟨fun h => hfails ?_, ⟨e, rfl⟩, hes⟩
      exact succeeds_singleton.mp (Succeeds.append.mp h).2
  · rintro f es t ⟨hcreated, ⟨hnone, -, number, hes⟩ | ⟨-, ⟨e, h⟩, -⟩⟩
    · have hall : Succeeds o (poolOperations 0 (localSettings o)) :=
        Succeeds.append.mpr ⟨hops, succeeds_singleton.mpr hnone⟩
      refine .inr ⟨hall, number, _, by rw [List.filterMap_append, hes]; rfl, ?_⟩
      rcases counts_loadDS (o := o) (localDs o) t hcreated with ⟨hr, data, hdb, hloaded⟩ | ⟨hr, hdb, hes'⟩
      · exact .inl ⟨hr, data, hdb, hloaded⟩
      · exact .inr ⟨hr, hdb, by rw [hes']; rfl⟩
    · cases h

/-- **What `init` registers**: the local data source, if no operation on it raises, and then, in the order of the
configuration, each entry of which no operation on its own objects raises, under its own name and with what its pool asks
for; an entry that fails takes nothing from the others.  `init` returns exactly if the local data source is registered
and the configuration is there. -/
theorem init_registers (o : Outside) : InitRegisters o (initialised o).result (registered o) := by
  have hinit : Counts 0 (init o) fun r _ es => InitRegisters o r (es.filterMap NamingEvent.registration) := by
    unfold init
    refine (counts_configured false (localSettings o)).bind ?_ ?_
    · rintro e t es ⟨⟨h, -⟩ | ⟨-, hfails⟩, -, rfl⟩
      · cases h
      · exact .inl ⟨fun h => hfails (Succeeds.append.mp h).1, ⟨e, rfl⟩, rfl⟩
    · rintro ds es t ⟨⟨h, hops⟩ | ⟨⟨e, h⟩, -⟩, hcreated, rfl⟩
      · cases h
        exact counts_registerLocal hops t hcreated
      · cases h
  exact hinit start rfl

end NamingService

end Dynamy.Services
