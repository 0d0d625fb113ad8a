import Dynamy.Java
import Dynamy.Lib.Prog
import Mathlib.Data.List.Nodup

/-!
# Dynamy.Services.NamingService — the data sources of the server, from `init` to `shutdown`

`init` builds the local data source and one for each entry of the configuration, hands them to `createDataSource`,
which registers them as services, and probes them; `shutdown` closes what is in `dataSources` and unregisters what is
in `sr`.  What may fail is an operation of the outside (`Outside.raises`): each is asked once for each object.

Nothing ever enters `dataSources`.  `releases_iff` says that `shutdown` therefore releases everything only where
`init` acquired nothing, and `unregistersEach_iff` what holds of the registrations alone: all of them are in `sr`, but
the loop over them ends at the first one that raises.
-/

namespace Dynamy.Services

open Dynamy.Java Dynamy.Lib Prog

/-- What `loadDS` and `loadPool` read of a pool's configuration, with its defaults. -/
structure DBPoolConfig where
  xaPool : Bool := false
  minConnectionsPerPartition : ℤ := 1
  maxConnectionsPerPartition : ℤ := 2
  jdbcUrl : Option String := none
  driverClass : Option String := none
  username : Option String := none
  password : Option String := none
  connectionTimeoutInMs : ℤ := 0
  properties : Option (List (String × String)) := none
  deriving DecidableEq

/-- A data source of the driver, with the properties that were set on it. -/
structure XADataSource where
  id : ℕ
  driverClass : Option String
  properties : List (String × String) := []
  deriving DecidableEq

/-- A setter of `BoneCPDataSource` and its argument. -/
inductive Setting
  | driverClass (name : Option String)
  | jdbcUrl (url : Option String)
  | username (name : Option String)
  | password (text : Option String)
  | classLoader
  | maxConnectionsPerPartition (n : ℤ)
  | minConnectionsPerPartition (n : ℤ)
  | connectionTimeoutInMs (ms : ℤ)
  /-- an `XADataSourceWrapper` -/
  | datasourceBean (rawDS : XADataSource)
  deriving DecidableEq

/-- A pool: a `BoneCPDataSource`, which may be a `TransactionAwareDS`, with what was set on it. -/
structure BoneCPDataSource where
  id : ℕ
  transactionAware : Bool
  settings : List Setting := []
  deriving DecidableEq

/-- What `bc.registerService` returns. -/
structure ServiceRegistration where
  id : ℕ
  /-- under the class `XADataSource`, or else `DataSource` -/
  xa : Bool
  name : String
  service : BoneCPDataSource
  deriving DecidableEq

/-- What the program asks of the outside; the number is that of the object. -/
inductive Operation
  | newDataSource (id : ℕ)
  | set (id : ℕ) (setting : Setting)
  /-- `Class.forName(driverClass, ..).newInstance.asInstanceOf[XADataSource]` -/
  | newInstance (id : ℕ) (driverClass : Option String)
  | setProperty (id : ℕ) (name value : String)
  | registerService (id : ℕ)
  | getConnection (id : ℕ)
  | closeConnection (id : ℕ)
  | close (id : ℕ)
  | unregister (id : ℕ)

structure Outside where
  /-- what an operation raises, if it fails -/
  raises : Operation → Option Throwable
  /-- `getConfigService.getConfig.getDb`, in the order of its entries -/
  getDb : Except Throwable (Option (List (Option String × Option DBPoolConfig)))
  /-- `System.getProperty("prog.home")` -/
  home : Option String
  /-- the class of the data source implements `javax.sql.XADataSource` -/
  isXADataSource : BoneCPDataSource → Bool

/-- The service, and how many objects and registrations there are so far. -/
structure NamingService where
  dataSources : List (String × BoneCPDataSource)
  sr : List ServiceRegistration
  created : ℕ
  registrations : ℕ

inductive NamingEvent
  /-- `createDataSource` is called with the data source -/
  | handed (ds : BoneCPDataSource)
  | registered (r : ServiceRegistration)
  | close (ds : BoneCPDataSource)
  | unregister (r : ServiceRegistration)
  deriving DecidableEq

def NamingEvent.registration : NamingEvent → Option ServiceRegistration
  | .registered r => some r
  | _ => none

abbrev NamingProg (α : Type) := Prog NamingEvent NamingService Throwable α

namespace NamingService

def start : NamingService := ⟨[], [], 0, 0⟩

variable (o : Outside)

def perform (operation : Operation) : NamingProg Unit :=
  match o.raises operation with
  | some e => raise e
  | none => pure ()

/-- The number of a new object. -/
def fresh : NamingProg ℕ := do
  let s ← read
  update fun s => { s with created := s.created + 1 }
  pure s.created

/-- `new BoneCPDataSource()` or `new TransactionAwareDS()`. -/
def newDataSource (transactionAware : Bool) : NamingProg BoneCPDataSource := do
  let id ← fresh
  perform o (.newDataSource id)
  pure { id := id, transactionAware := transactionAware }

/-- The setters, in order. -/
def configure (ds : BoneCPDataSource) : List Setting → NamingProg BoneCPDataSource
  | [] => pure ds
  | setting :: rest => do
    perform o (.set ds.id setting)
    configure { ds with settings := ds.settings ++ [setting] } rest

def localSettings : List Setting :=
  [.driverClass (some "org.h2.Driver"),
    .jdbcUrl (some ("jdbc:h2:" ++ o.home.getD "null" ++ "/storage/users/db;AUTO_SERVER=TRUE")),
    .username (some "sa"), .password (some ""), .classLoader]

def buildLocalDs : NamingProg BoneCPDataSource := do
  let ds ← newDataSource o false
  configure o ds (localSettings o)

def setProperties (ds : XADataSource) : List (String × String) → NamingProg XADataSource
  | [] => pure ds
  | (name, value) :: rest => do
    perform o (.setProperty ds.id name value)
    setProperties { ds with properties := ds.properties ++ [(name, value)] } rest

def loadPool (pool : DBPoolConfig) : NamingProg XADataSource := do
  let id ← fresh
  perform o (.newInstance id pool.driverClass)
  let properties ← ofExcept (deref pool.properties)
  setProperties o { id := id, driverClass := pool.driverClass } properties

/-- The settings of an entry that is not an XA pool. -/
def plainSettings (pool : DBPoolConfig) : List Setting :=
  [.driverClass pool.driverClass, .classLoader, .maxConnectionsPerPartition pool.maxConnectionsPerPartition,
    .minConnectionsPerPartition pool.minConnectionsPerPartition, .connectionTimeoutInMs pool.connectionTimeoutInMs,
    .jdbcUrl pool.jdbcUrl, .username pool.username, .password pool.password]

/-- The data source of an entry. -/
def buildPool (pool : DBPoolConfig) : NamingProg BoneCPDataSource :=
  if pool.xaPool then do
    let rawDS ← loadPool o pool
    let boneDS ← newDataSource o true
    configure o boneDS [.datasourceBean rawDS, .maxConnectionsPerPartition pool.maxConnectionsPerPartition,
      .minConnectionsPerPartition pool.minConnectionsPerPartition]
  else do
    let ds ← newDataSource o false
    configure o ds (plainSettings pool)

/-- `sr += bc.registerService(.., ds, props)`. -/
def registerService (xa : Bool) (name : String) (ds : BoneCPDataSource) : NamingProg Unit := do
  perform o (.registerService ds.id)
  let s ← read
  update fun s => { s with registrations := s.registrations + 1 }
  let r : ServiceRegistration := { id := s.registrations, xa := xa, name := name, service := ds }
  emit (.registered r)
  update fun s => { s with sr := s.sr ++ [r] }

def createDataSource (name : Option String) (ds : BoneCPDataSource) : NamingProg BoneCPDataSource := do
  emit (.handed ds)
  -- a Hashtable takes no null
  let name ← ofExcept (deref name)
  (if o.isXADataSource ds then registerService o true name ds else registerService o false name ds)
  pure ds

/-- One entry: its data source, if it was built and registered. -/
def loadEntry (serviceName : Option String) (pool : Option DBPoolConfig) : NamingProg (List BoneCPDataSource) :=
  attempt
    (do
      let pool ← ofExcept (deref pool)
      let ds ← buildPool o pool
      let f ← createDataSource o serviceName ds
      pure [f])
    fun _ => pure []

def loadEntries : List (Option String × Option DBPoolConfig) → NamingProg (List BoneCPDataSource)
  | [] => pure []
  | (serviceName, pool) :: rest => do
    let funcs ← loadEntry o serviceName pool
    let more ← loadEntries rest
    pure (funcs ++ more)

/-- A connection is taken and closed. -/
def probe (f : BoneCPDataSource) : NamingProg Unit :=
  attempt
    (do
      perform o (.getConnection f.id)
      perform o (.closeConnection f.id))
    fun _ => pure ()

/-- The argument is not used. -/
def loadDS (_ds : BoneCPDataSource) : NamingProg Unit := do
  let db ← ofExcept o.getDb
  let data ← ofExcept (deref db)
  let funcs ← loadEntries o data
  each (probe o) funcs

def init : NamingProg Unit := do
  let ds ← buildLocalDs o
  let _ ← createDataSource o (some "jdbc/dynamyServices") ds
  loadDS o ds

def closeDataSource (ds : BoneCPDataSource) : NamingProg Unit := do
  emit (.close ds)
  perform o (.close ds.id)

def unregister (r : ServiceRegistration) : NamingProg Unit := do
  emit (.unregister r)
  perform o (.unregister r.id)

def shutdown : NamingProg Unit := do
  let s ← read
  each (closeDataSource o) (s.dataSources.map Prod.snd)
  each (unregister o) s.sr

/-! ### What is acquired and released -/

/-- A run of `init`, however it ends. -/
def initialised : Outcome NamingEvent NamingService Throwable Unit := run (init o) start

/-- What the `shutdown` after it does. -/
def released : List NamingEvent := (run (shutdown o) (initialised o).state).events

/-- The registrations made, in order. -/
def registered : List ServiceRegistration := (initialised o).events.filterMap NamingEvent.registration

/-- Every data source handed to `createDataSource` is closed exactly once. -/
def ClosesEach : Prop := ∀ ds, .handed ds ∈ (initialised o).events → (released o).count (.close ds) = 1

/-- Every registration made is unregistered exactly once. -/
def UnregistersEach : Prop := ∀ r ∈ registered o, (released o).count (.unregister r) = 1

/-- The constructor or a setter of the local data source raises. -/
def RefusesLocal : Prop :=
  (o.raises (.newDataSource 0)).isSome ∨ ∃ setting ∈ localSettings o, (o.raises (.set 0 setting)).isSome

/-! ### The state along `init` -/

/-- The fields that `shutdown` looks at stay as they are. -/
def SameFields (s t : NamingService) : Prop :=
  t.dataSources = s.dataSources ∧ t.sr = s.sr ∧ t.registrations = s.registrations

instance : Std.Refl SameFields := ⟨fun _ => ⟨rfl, rfl, rfl⟩⟩

instance : IsTrans NamingService SameFields :=
  ⟨fun _ _ _ h h' => ⟨h'.1.trans h.1, h'.2.1.trans h.2.1, h'.2.2.trans h.2.2⟩⟩

/-- Neither a data source nor a registration is seen. -/
abbrev Quiet {α : Type} (p : NamingProg α) : Prop := Within SameFields (fun _ => False) p

/-- `dataSources` is empty, and every registration in `sr` has a number of its own. -/
structure Sound (s : NamingService) : Prop where
  dataSources : s.dataSources = []
  nodup : s.sr.Nodup
  numbered : ∀ r ∈ s.sr, r.id < s.registrations

/-- `sr` grows by the registrations made, and stays sound. -/
structure Tracked {α : Type} (p : NamingProg α) : Prop where
  records : Records NamingService.sr NamingEvent.registration p
  sound : Within (Keeps Sound) (fun _ => True) p

variable {o} {α β : Type} {p : NamingProg α} {f : α → NamingProg β} {h : Throwable → NamingProg α}

theorem Sound.same {s t : NamingService} (h : Sound s) (hst : SameFields s t) : Sound t := by
  obtain ⟨hds, hsr, hreg⟩ := hst
  exact ⟨hds.trans h.dataSources, hsr ▸ h.nodup, fun r hr => hreg ▸ h.numbered r (hsr ▸ hr)⟩

theorem Tracked.of_quiet (hp : Quiet p) : Tracked p where
  records s := by
    rw [(hp s).1.2.1, List.filterMap_eq_nil_iff.mpr fun w hw => ((hp s).2 w hw).elim, List.append_nil]
  sound s := ⟨fun h => h.same (hp s).1, fun _ _ => trivial⟩

theorem Tracked.bind (hp : Tracked p) (hf : ∀ a, Tracked (f a)) : Tracked (p >>= f) :=
  ⟨hp.records.bind fun a => (hf a).records, hp.sound.bind fun a => (hf a).sound⟩

theorem Tracked.attempt (hp : Tracked p) (hh : ∀ e, Tracked (h e)) : Tracked (Prog.attempt p h) :=
  ⟨hp.records.attempt fun e => (hh e).records, hp.sound.attempt fun e => (hh e).sound⟩

theorem quiet_perform (operation : Operation) : Quiet (perform o operation) := by
  unfold perform
  split
  · exact within_raise _
  · exact within_pure ()

theorem quiet_fresh : Quiet fresh :=
  within_read.bind fun _ => (within_update fun _ => ⟨rfl, rfl, rfl⟩).bind fun _ => within_pure _

theorem quiet_newDataSource (transactionAware : Bool) : Quiet (newDataSource o transactionAware) :=
  quiet_fresh.bind fun _ => (quiet_perform _).bind fun _ => within_pure _

theorem quiet_configure : ∀ (settings : List Setting) (ds : BoneCPDataSource), Quiet (configure o ds settings)
  | [], _ => within_pure _
  | _ :: rest, _ => (quiet_perform _).bind fun _ => quiet_configure rest _

theorem quiet_setProperties : ∀ (properties : List (String × String)) (ds : XADataSource),
    Quiet (setProperties o ds properties)
  | [], _ => within_pure _
  | (_, _) :: rest, _ => (quiet_perform _).bind fun _ => quiet_setProperties rest _

theorem quiet_loadPool (pool : DBPoolConfig) : Quiet (loadPool o pool) :=
  quiet_fresh.bind fun _ => (quiet_perform _).bind fun _ => (within_ofExcept _).bind fun properties =>
    quiet_setProperties properties _

theorem quiet_buildPool (pool : DBPoolConfig) : Quiet (buildPool o pool) := by
  unfold buildPool
  split
  · exact (quiet_loadPool pool).bind fun _ => (quiet_newDataSource true).bind fun _ => quiet_configure _ _
  · exact (quiet_newDataSource false).bind fun _ => quiet_configure _ _

theorem quiet_probe (ds : BoneCPDataSource) : Quiet (probe o ds) :=
  ((quiet_perform _).bind fun _ => quiet_perform _).attempt fun _ => within_pure ()

/-- A registration is recorded, under a new number. -/
theorem tracked_registerService (xa : Bool) (name : String) (ds : BoneCPDataSource) :
    Tracked (registerService o xa name ds) := by
  have hentry : ∀ r : ServiceRegistration, Records NamingService.sr NamingEvent.registration
      (emit (.registered r) >>= fun _ => update fun s => { s with sr := s.sr ++ [r] } : NamingProg Unit) :=
    fun _ => records_emit_update rfl fun _ => rfl
  refine (Tracked.of_quiet (quiet_perform _)).bind fun _ => ⟨?_, fun s => ⟨fun hs => ?_, fun _ _ => trivial⟩⟩
  · exact records_read.bind fun s => (records_update fun _ => rfl).bind fun _ => hentry ⟨s.registrations, xa, name, ds⟩
  refine ⟨hs.dataSources, ?_, fun r hr => ?_⟩
  · refine List.Nodup.append hs.nodup (List.nodup_singleton _) ?_
    intro r hr hr'
    have hlt := hs.numbered r hr
    rw [List.mem_singleton.mp hr'] at hlt
    exact absurd hlt (lt_irrefl _)
  · rcases List.mem_append.mp hr with hr | hr
    · exact Nat.lt_succ_of_lt (hs.numbered r hr)
    · rw [List.mem_singleton.mp hr]
      exact Nat.lt_succ_self _

theorem tracked_emit_handed (ds : BoneCPDataSource) : Tracked (emit (.handed ds) : NamingProg Unit) :=
  ⟨records_emit rfl, within_emit trivial⟩

theorem tracked_createDataSource (name : Option String) (ds : BoneCPDataSource) :
    Tracked (createDataSource o name ds) := by
  refine (tracked_emit_handed ds).bind fun _ => (Tracked.of_quiet (within_ofExcept _)).bind fun name => ?_
  have hregister : Tracked (if o.isXADataSource ds then registerService o true name ds
      else registerService o false name ds) := by
    split
    · exact tracked_registerService true name ds
    · exact tracked_registerService false name ds
  exact hregister.bind fun _ => Tracked.of_quiet (within_pure ds)

theorem tracked_loadEntry (serviceName : Option String) (pool : Option DBPoolConfig) :
    Tracked (loadEntry o serviceName pool) := by
  refine Tracked.attempt ?_ fun _ => Tracked.of_quiet (within_pure [])
  exact (Tracked.of_quiet (within_ofExcept _)).bind fun pool => (Tracked.of_quiet (quiet_buildPool pool)).bind fun ds =>
    (tracked_createDataSource serviceName ds).bind fun f => Tracked.of_quiet (within_pure [f])

theorem tracked_loadEntries : ∀ data, Tracked (loadEntries o data)
  | [] => Tracked.of_quiet (within_pure [])
  | (serviceName, pool) :: rest => (tracked_loadEntry serviceName pool).bind fun _ => (tracked_loadEntries rest).bind
      fun _ => Tracked.of_quiet (within_pure _)

theorem quiet_buildLocalDs : Quiet (buildLocalDs o) :=
  (quiet_newDataSource false).bind fun _ => quiet_configure _ _

theorem tracked_init : Tracked (init o) :=
  (Tracked.of_quiet quiet_buildLocalDs).bind fun ds => (tracked_createDataSource _ ds).bind fun _ =>
    (Tracked.of_quiet (within_ofExcept _)).bind fun _ => (Tracked.of_quiet (within_ofExcept _)).bind fun data =>
      (tracked_loadEntries data).bind fun _ => Tracked.of_quiet (Within.each quiet_probe _)

theorem sound_initialised : Sound (initialised o).state :=
  (tracked_init.sound start).1 ⟨rfl, List.nodup_nil, fun _ hr => (List.not_mem_nil hr).elim⟩

/-- **The bookkeeping of registrations**: after `init`, `sr` is the list of the registrations made. -/
theorem sr_initialised : (initialised o).state.sr = registered o := tracked_init.records start

/-! ### The loop over the registrations -/

theorem run_unregister_ok {r : ServiceRegistration} (h : o.raises (.unregister r.id) = none) (s : NamingService) :
    run (unregister o r) s = ⟨.ok (), s, [.unregister r]⟩ := by
  unfold unregister perform
  rw [h]
  rfl

theorem run_unregister_raises {r : ServiceRegistration} {e : Throwable} (h : o.raises (.unregister r.id) = some e)
    (s : NamingService) : run (unregister o r) s = ⟨.error e, s, [.unregister r]⟩ := by
  unfold unregister perform
  rw [h]
  rfl

/-- A registration that raises is the last one that the loop comes to. -/
theorem events_unregister_cons (r : ServiceRegistration) (l : List ServiceRegistration) (s : NamingService) :
    (run (each (unregister o) (r :: l)) s).events = .unregister r ::
      if o.raises (.unregister r.id) = none then (run (each (unregister o) l) s).events else [] := by
  rw [each, run_bind]
  cases h : o.raises (.unregister r.id) with
  | none =>
    rw [run_unregister_ok h]
    rfl
  | some e =>
    rw [run_unregister_raises h]
    rfl

theorem unregister_events : ∀ (l : List ServiceRegistration) (s : NamingService),
    ∀ w ∈ (run (each (unregister o) l) s).events, ∃ r ∈ l, w = .unregister r
  | [], _, _, hw => (List.not_mem_nil hw).elim
  | r :: l, s, w, hw => by
    rw [events_unregister_cons] at hw
    rcases List.mem_cons.mp hw with rfl | hw
    · exact ⟨r, List.mem_cons_self, rfl⟩
    · split at hw
      · obtain ⟨r', hr', rfl⟩ := unregister_events l s w hw
        exact ⟨r', List.mem_cons_of_mem r hr', rfl⟩
      · exact (List.not_mem_nil hw).elim

/-- The loop comes to every registration exactly if none but the last one raises. -/
theorem count_unregister_iff (s : NamingService) : ∀ l : List ServiceRegistration, l.Nodup →
    ((∀ r ∈ l, (run (each (unregister o) l) s).events.count (.unregister r) = 1) ↔
      ∀ r ∈ l.dropLast, o.raises (.unregister r.id) = none)
  | [], _ => ⟨fun _ _ hr => (List.not_mem_nil hr).elim, fun _ _ hr => (List.not_mem_nil hr).elim⟩
  | r :: l, hnodup => by
    obtain ⟨hfresh, hnodup⟩ := List.nodup_cons.mp hnodup
    have ih := count_unregister_iff s l hnodup
    have hne : ∀ r' ∈ l, NamingEvent.unregister r ≠ .unregister r' := fun r' hr' heq =>
      hfresh (NamingEvent.unregister.inj heq ▸ hr')
    have hself : (run (each (unregister o) l) s).events.count (.unregister r) = 0 :=
      List.count_eq_zero.mpr fun hw => by
        obtain ⟨r', hr', heq⟩ := unregister_events l s _ hw
        exact hne r' hr' heq
    rw [events_unregister_cons]
    cases l with
    | nil =>
      refine ⟨fun _ _ hr => (List.not_mem_nil hr).elim, fun _ r' hr' => ?_⟩
      rw [List.mem_singleton.mp hr', List.count_cons_self]
      split
      · rw [hself]
      · rfl
    | cons r₂ l =>
      rw [List.dropLast_cons_of_ne_nil (List.cons_ne_nil r₂ l)]
      by_cases hraises : o.raises (.unregister r.id) = none
      · rw [if_pos hraises]
        have hhead : (NamingEvent.unregister r :: (run (each (unregister o) (r₂ :: l)) s).events).count
            (.unregister r) = 1 := by rw [List.count_cons_self, hself]
        have htail : ∀ r' ∈ r₂ :: l,
            (NamingEvent.unregister r :: (run (each (unregister o) (r₂ :: l)) s).events).count (.unregister r') =
              (run (each (unregister o) (r₂ :: l)) s).events.count (.unregister r') := fun r' hr' =>
          List.count_cons_of_ne (hne r' hr')
        constructor
        · intro h
          have hrest := ih.mp fun r' hr' => (htail r' hr').symm.trans (h r' (List.mem_cons_of_mem r hr'))
          exact List.forall_mem_cons.mpr ⟨hraises, hrest⟩
        · intro h
          have hrest := ih.mpr (List.forall_mem_cons.mp h).2
          exact List.forall_mem_cons.mpr ⟨hhead, fun r' hr' => (htail r' hr').trans (hrest r' hr')⟩
      · rw [if_neg hraises]
        refine iff_of_false (fun h => ?_) fun h => hraises (h r List.mem_cons_self)
        have hcount := h r₂ (List.mem_cons_of_mem r List.mem_cons_self)
        rw [List.count_cons_of_ne (hne r₂ List.mem_cons_self)] at hcount
        cases hcount

/-- After `init`, `shutdown` is the loop over the registrations made. -/
theorem released_eq : released o = (run (each (unregister o) (registered o)) (initialised o).state).events := by
  rw [released, shutdown, run_read_bind, sound_initialised.dataSources, sr_initialised]
  rfl

/-- **Unregistering**: `shutdown` unregisters every registration made exactly if none but the last one raises. -/
theorem unregistersEach_iff : UnregistersEach o ↔
    ∀ r ∈ (registered o).dropLast, o.raises (.unregister r.id) = none := by
  have hnodup : (registered o).Nodup := sr_initialised ▸ sound_initialised.nodup
  unfold UnregistersEach
  rw [released_eq]
  exact count_unregister_iff _ _ hnodup

/-- `shutdown` closes nothing. -/
theorem count_close (ds : BoneCPDataSource) : (released o).count (.close ds) = 0 := by
  rw [released_eq]
  refine List.count_eq_zero.mpr fun hw => ?_
  obtain ⟨r, -, heq⟩ := unregister_events _ _ _ hw
  cases heq

/-! ### The local data source -/

theorem run_perform {operation : Operation} (h : o.raises operation = none) (s : NamingService) :
    run (perform o operation) s = ⟨.ok (), s, []⟩ := by
  unfold perform
  rw [h]
  rfl

theorem run_perform_raises {operation : Operation} {e : Throwable} (h : o.raises operation = some e)
    (s : NamingService) : run (perform o operation) s = ⟨.error e, s, []⟩ := by
  unfold perform
  rw [h]
  rfl

variable (o) in
/-- The setters succeed, or one of them raises. -/
theorem run_configure (s : NamingService) : ∀ (settings : List Setting) (ds : BoneCPDataSource),
    (∃ ds', run (configure o ds settings) s = ⟨.ok ds', s, []⟩ ∧
      ¬ ∃ setting ∈ settings, (o.raises (.set ds.id setting)).isSome) ∨
    ∃ e, run (configure o ds settings) s = ⟨.error e, s, []⟩ ∧
      ∃ setting ∈ settings, (o.raises (.set ds.id setting)).isSome
  | [], ds => .inl ⟨ds, rfl, fun ⟨_, hmem, _⟩ => List.not_mem_nil hmem⟩
  | setting :: rest, ds => by
    cases hraises : o.raises (.set ds.id setting) with
    | some e =>
      refine .inr ⟨e, run_bind_of_error (run_perform_raises hraises s) _, setting, List.mem_cons_self, ?_⟩
      rw [hraises]
      rfl
    | none =>
      have hrun := run_bind_of_ok (run_perform hraises s)
        fun _ => configure o { ds with settings := ds.settings ++ [setting] } rest
      have hrest := run_configure s rest { ds with settings := ds.settings ++ [setting] }
      rcases hrest with ⟨ds', hok, hnone⟩ | ⟨e, he, hsome⟩
      · refine .inl ⟨ds', hrun.trans hok, ?_⟩
        rintro ⟨setting', hmem, hsome⟩
        rcases List.mem_cons.mp hmem with rfl | hmem
        · rw [hraises] at hsome
          cases hsome
        · exact hnone ⟨setting', hmem, hsome⟩
      · obtain ⟨setting', hmem, hsome⟩ := hsome
        exact .inr ⟨e, hrun.trans he, setting', List.mem_cons_of_mem setting hmem, hsome⟩

theorem run_newDataSource (s : NamingService) (transactionAware : Bool) :
    run (newDataSource o transactionAware) s =
      run (perform o (.newDataSource s.created) >>= fun _ =>
        (pure { id := s.created, transactionAware := transactionAware } : NamingProg BoneCPDataSource))
        { s with created := s.created + 1 } := by
  unfold newDataSource fresh
  simp

/-- The local data source is built, or its building raises; nothing is seen of either. -/
theorem run_buildLocalDs :
    (∃ ds s, run (buildLocalDs o) start = ⟨.ok ds, s, []⟩ ∧ ¬ RefusesLocal o) ∨
      ∃ e s, run (buildLocalDs o) start = ⟨.error e, s, []⟩ ∧ RefusesLocal o := by
  cases hraises : o.raises (.newDataSource 0) with
  | some e =>
    refine .inr ⟨e, { start with created := 1 }, run_bind_of_error ?_ _, .inl (by rw [hraises]; rfl)⟩
    rw [run_newDataSource]
    exact run_bind_of_error (run_perform_raises hraises _) _
  | none =>
    have hnew : run (newDataSource o false) start = ⟨.ok ⟨0, false, []⟩, { start with created := 1 }, []⟩ := by
      rw [run_newDataSource]
      exact run_bind_of_ok (run_perform hraises _) _
    have hrun := run_bind_of_ok hnew fun ds => configure o ds (localSettings o)
    have hsettings := run_configure o { start with created := 1 } (localSettings o) ⟨0, false, []⟩
    rcases hsettings with ⟨ds, hok, hnone⟩ | ⟨e, he, hsome⟩
    · refine .inl ⟨ds, _, hrun.trans hok, ?_⟩
      rintro (hconstructor | hsetter)
      · rw [hraises] at hconstructor
        cases hconstructor
      · exact hnone hsetter
    · exact .inr ⟨e, _, hrun.trans he, .inr hsome⟩

theorem events_createDataSource (name : Option String) (ds : BoneCPDataSource) (s : NamingService) :
    .handed ds ∈ (run (createDataSource o name ds) s).events := by
  unfold createDataSource
  rw [run_emit_bind]
  exact List.mem_cons_self

/-- What a beginning emits is emitted. -/
theorem mem_events_bind {w : NamingEvent} {s : NamingService} (hw : w ∈ (run p s).events) :
    w ∈ (run (p >>= f) s).events := by
  rw [run_bind]
  rcases hr : run p s with ⟨r, s', es⟩
  rw [hr] at hw
  cases r with
  | ok a => exact List.mem_append_left _ hw
  | error e => exact hw

/-- `shutdown` closes every data source handed to `createDataSource` and unregisters every registration made, each
exactly once. -/
def Releases (o : Outside) : Prop := ClosesEach o ∧ UnregistersEach o

/-- **What `shutdown` releases**: for every configuration and every pattern of failures, everything that `init` acquired
if and only if `init` acquired nothing, because the local data source could not be built. -/
theorem releases_iff (o : Outside) : Releases o ↔ RefusesLocal o := by
  rcases run_buildLocalDs (o := o) with ⟨ds, s, hbuild, hbuilt⟩ | ⟨e, s, hbuild, hrefuses⟩
  · refine iff_of_false (fun h => ?_) hbuilt
    have hhanded : .handed ds ∈ (initialised o).events := by
      rw [initialised, init, run_bind_of_ok hbuild]
      exact mem_events_bind (events_createDataSource _ ds s)
    have hclosed := h.1 ds hhanded
    rw [count_close] at hclosed
    cases hclosed
  · have hnothing : (initialised o).events = [] := by
      rw [initialised, init, run_bind_of_error hbuild]
    refine iff_of_true ⟨fun ds hds => ?_, fun r hr => ?_⟩ hrefuses
    · rw [hnothing] at hds
      exact (List.not_mem_nil hds).elim
    · rw [registered, hnothing] at hr
      exact (List.not_mem_nil hr).elim

/-! ### Nothing fails, and no pool is configured -/

def allWell : Outside where
  raises := fun _ => none
  getDb := .ok (some [])
  home := none
  isXADataSource := fun _ => false

/-- The local data source is handed to `createDataSource` and never closed. -/
theorem not_releases : ¬ ∀ o, Releases o := by
  intro h
  have hhanded : .handed ⟨0, false, localSettings allWell⟩ ∈ (initialised allWell).events := List.mem_cons_self
  have hclosed := (h allWell).1 _ hhanded
  exact absurd hclosed (by rw [count_close]; decide)

end NamingService

end Dynamy.Services
