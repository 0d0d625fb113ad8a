import Dynamy.Cache.DynamyMemcached
import Dynamy.Lib.Noninterference

/-!
# Dynamy.Cache.ShiroDynamyCache — two caches side by side

`getCache` gives each cache a client of its own.  The name of the cache does not go into the keys, and `clear` empties
every server of the client, so two caches are kept apart only by their servers: `isolated_iff`.

`put` and `remove` send two commands each, and commands of other operations may come in between: an operation is a
`call`, which sends the first command, and for these two a `resume`.
-/

namespace Dynamy.Cache

open Dynamy.Java Dynamy.Lib

variable {Addr K V Thread : Type}

structure DynamyMemcache (Addr : Type) where
  client : MemcachedClient Addr

structure ShiroDynamyCache (Addr : Type) where
  cache : DynamyMemcache Addr

/-- `ShiroDynamyCacheManager.getCache` -/
def getCache (lib : XMemcached Addr K) (config : ServerConfig) (name : String) :
    Except Throwable (ShiroDynamyCache Addr) := do
  let client ← DynamyMemcacheManager.build lib config name
  pure ⟨⟨client⟩⟩

inductive CacheOp (K V : Type)
  | get (key : K)
  | put (key : K) (value : V)
  | remove (key : K)
  | clear

/-- Which of two caches. -/
inductive Side
  | a | b
  deriving DecidableEq

/-- What is left of an operation: the second command, and the value to return. -/
inductive Pending (V : Type)
  | set (key : String) (value : V) (prev : Option V)
  | remove (key : String) (prev : Option V)

/-- An operation is begun, or goes on to its second command. -/
inductive Move (K V : Type)
  | call (op : CacheOp K V)
  | resume

structure CacheAction (Thread K V : Type) where
  side : Side
  thread : Thread
  move : Move K V

/-- The servers, and for each cache what its threads are in the middle of. -/
structure CacheState (Thread Addr V : Type) where
  servers : Servers Addr V
  pending : Side → Thread → Option (Pending V)

/-- What an operation returns; `null` and nothing at all are `none`. -/
abbrev CacheResult (V : Type) := Except Throwable (Option V)

/-- `key.toString`, if the client takes it. -/
def XMemcached.key (lib : XMemcached Addr K) (key : K) : Except Throwable String := do
  let key ← lib.toString key
  lib.checkKey key
  pure key

namespace CacheState

variable [DecidableEq Thread]

def setPending (st : CacheState Thread Addr V) (side : Side) (th : Thread) (rest : Option (Pending V)) :
    CacheState Thread Addr V :=
  { st with pending := Function.update st.pending side (Function.update (st.pending side) th rest) }

variable [DecidableEq Addr]

/-- The first command of an operation; an operation that has no other returns. -/
def call (lib : XMemcached Addr K) (cache : ShiroDynamyCache Addr) (st : CacheState Thread Addr V) (side : Side)
    (th : Thread) : CacheOp K V → CacheState Thread Addr V × Option (CacheResult V)
  | .get key =>
    match lib.key key with
    | .error e => (st, some (.error e))
    | .ok key => (st, some (.ok (cache.cache.client.get lib st.servers key)))
  | .put key value =>
    match lib.key key with
    | .error e => (st, some (.error e))
    | .ok key => (st.setPending side th (some (.set key value (cache.cache.client.get lib st.servers key))), none)
  | .remove key =>
    match lib.key key with
    | .error e => (st, some (.error e))
    | .ok key => (st.setPending side th (some (.remove key (cache.cache.client.get lib st.servers key))), none)
  | .clear => ({ st with servers := cache.cache.client.flushAll st.servers }, some (.ok none))

/-- The second command of an operation, which returns. -/
def resume (lib : XMemcached Addr K) (cache : ShiroDynamyCache Addr) (st : CacheState Thread Addr V) (side : Side)
    (th : Thread) : Pending V → CacheState Thread Addr V × Option (CacheResult V)
  | .set key value prev =>
    ({ st.setPending side th none with servers := cache.cache.client.set lib st.servers key value }, some (.ok prev))
  | .remove key prev =>
    ({ st.setPending side th none with servers := cache.cache.client.delete lib st.servers key }, some (.ok prev))

/-- A thread in the middle of an operation begins no other, and one that is in none has nothing to go on with. -/
def act (lib : XMemcached Addr K) (caches : Side → ShiroDynamyCache Addr) (st : CacheState Thread Addr V)
    (action : CacheAction Thread K V) : CacheState Thread Addr V × Option (CacheResult V) :=
  match action.move, st.pending action.side action.thread with
  | .call op, none => st.call lib (caches action.side) action.side action.thread op
  | .resume, some rest => st.resume lib (caches action.side) action.side action.thread rest
  | _, _ => (st, none)

/-- Nobody is in an operation. -/
def start (servers : Servers Addr V) : CacheState Thread Addr V := ⟨servers, fun _ _ => none⟩

end CacheState

/-- The two caches of a run. -/
def sides (ca cb : ShiroDynamyCache Addr) : Side → ShiroDynamyCache Addr
  | .a => ca
  | .b => cb

/-- Whatever is on the servers and whatever the threads do with the two caches, the operations on the first one return
what they return with the operations on the second one left out. -/
def Isolated (lib : XMemcached Addr K) (ca cb : ShiroDynamyCache Addr) [DecidableEq Addr] (Thread V : Type)
    [DecidableEq Thread] : Prop :=
  ∀ servers : Servers Addr V,
    Noninterfering (fun (st : CacheState Thread Addr V) action => (st.act lib (sides ca cb) action).1)
      (fun st action => (st.act lib (sides ca cb) action).2) (fun action => action.side = .a) (CacheState.start servers)

/-! ### What the second cache leaves alone -/

/-- The first cache is in the middle of the same operations, and the servers but those of `B` have the same. -/
structure SameForA (B : List Addr) (st st' : CacheState Thread Addr V) : Prop where
  pending : st.pending .a = st'.pending .a
  servers : ∀ addr, addr ∉ B → st.servers addr = st'.servers addr

namespace CacheState

variable [DecidableEq Addr] [DecidableEq Thread] {lib : XMemcached Addr K} {ca cb : ShiroDynamyCache Addr}
  {B : List Addr} {st st' : CacheState Thread Addr V}

omit [DecidableEq Addr] in
theorem setPending_congr (h : SameForA B st st') (th : Thread) (rest : Option (Pending V)) :
    SameForA B (st.setPending .a th rest) (st'.setPending .a th rest) where
  pending := by simp only [setPending, Function.update_self, h.pending]
  servers := h.servers

omit [DecidableEq Addr] in
/-- The second cache's own operations do not matter to the first. -/
theorem setPending_other (h : SameForA B st st') (th : Thread) (rest : Option (Pending V)) :
    SameForA B (st.setPending .b th rest) st' where
  pending := by
    have hsame : (st.setPending .b th rest).pending .a = st.pending .a := by simp [setPending]
    exact hsame.trans h.pending
  servers := h.servers

omit [DecidableEq Addr] [DecidableEq Thread] in
/-- The first cache reads the same under every key that it takes. -/
theorem get_congr (hapart : ∀ k key, lib.key k = .ok key → lib.locate ca.cache.client.addresses key ∉ B)
    (h : SameForA B st st') {k : K} {key : String} (hkey : lib.key k = .ok key) :
    ca.cache.client.get lib st.servers key = ca.cache.client.get lib st'.servers key :=
  congrFun (h.servers _ (hapart k key hkey)) key

theorem call_congr (hapart : ∀ k key, lib.key k = .ok key → lib.locate ca.cache.client.addresses key ∉ B)
    (h : SameForA B st st') (th : Thread) (op : CacheOp K V) :
    (st.call lib ca .a th op).2 = (st'.call lib ca .a th op).2 ∧
      SameForA B (st.call lib ca .a th op).1 (st'.call lib ca .a th op).1 := by
  cases op with
  | get k =>
    simp only [call]
    cases hkey : lib.key k with
    | error e => exact ⟨rfl, h⟩
    | ok key =>
      dsimp only
      rw [get_congr hapart h hkey]
      exact ⟨rfl, h⟩
  | put k value =>
    simp only [call]
    cases hkey : lib.key k with
    | error e => exact ⟨rfl, h⟩
    | ok key =>
      dsimp only
      rw [get_congr hapart h hkey]
      exact ⟨rfl, setPending_congr h th _⟩
  | remove k =>
    simp only [call]
    cases hkey : lib.key k with
    | error e => exact ⟨rfl, h⟩
    | ok key =>
      dsimp only
      rw [get_congr hapart h hkey]
      exact ⟨rfl, setPending_congr h th _⟩
  | clear => exact ⟨rfl, h.pending, fun addr haddr => MemcachedClient.flushAll_congr (h.servers addr haddr)⟩

theorem resume_congr (h : SameForA B st st') (th : Thread) (rest : Pending V) :
    (st.resume lib ca .a th rest).2 = (st'.resume lib ca .a th rest).2 ∧
      SameForA B (st.resume lib ca .a th rest).1 (st'.resume lib ca .a th rest).1 := by
  have hpending := (setPending_congr h th none).pending
  cases rest with
  | set key value prev =>
    exact ⟨rfl, hpending, fun addr haddr => MemcachedClient.store_congr _ (h.servers addr haddr)⟩
  | remove key prev =>
    exact ⟨rfl, hpending, fun addr haddr => MemcachedClient.store_congr _ (h.servers addr haddr)⟩

theorem call_other (h : SameForA cb.cache.client.addresses st st') (th : Thread) (op : CacheOp K V) :
    SameForA cb.cache.client.addresses (st.call lib cb .b th op).1 st' := by
  cases op with
  | get k =>
    simp only [call]
    cases lib.key k with
    | error e => exact h
    | ok key => exact h
  | put k value =>
    simp only [call]
    cases lib.key k with
    | error e => exact h
    | ok key => exact setPending_other h th _
  | remove k =>
    simp only [call]
    cases lib.key k with
    | error e => exact h
    | ok key => exact setPending_other h th _
  | clear =>
    exact ⟨h.pending, fun addr haddr => (MemcachedClient.flushAll_of_not_mem haddr).trans (h.servers addr haddr)⟩

theorem resume_other (hne : cb.cache.client.addresses ≠ []) (h : SameForA cb.cache.client.addresses st st')
    (th : Thread) (rest : Pending V) : SameForA cb.cache.client.addresses (st.resume lib cb .b th rest).1 st' := by
  have hpending := (setPending_other h th none).pending
  have hstore : ∀ addr, addr ∉ cb.cache.client.addresses → ∀ (key : String) (value : Option V),
      cb.cache.client.store lib st.servers key value addr = st'.servers addr := by
    intro addr haddr key value
    have hlocate := lib.locate_mem cb.cache.client.addresses key hne
    have hother : addr ≠ lib.locate cb.cache.client.addresses key := fun heq => haddr (heq ▸ hlocate)
    exact (MemcachedClient.store_of_ne value hother).trans (h.servers addr haddr)
  cases rest with
  | set key value prev => exact ⟨hpending, fun addr haddr => hstore addr haddr key (some value)⟩
  | remove key prev => exact ⟨hpending, fun addr haddr => hstore addr haddr key none⟩

/-- **The step lemma**: apart from the servers of the second cache, its operations change nothing, and those of the
first do the same in both runs. -/
theorem unwinding (hne : cb.cache.client.addresses ≠ []) (hapart : ∀ k key, lib.key k = .ok key →
      lib.locate ca.cache.client.addresses key ∉ cb.cache.client.addresses) :
    Unwinding (fun (st : CacheState Thread Addr V) action => (st.act lib (sides ca cb) action).1)
      (fun st action => (st.act lib (sides ca cb) action).2) (fun action => action.side = .a)
      (SameForA cb.cache.client.addresses) := by
  have hseen : ∀ (st st' : CacheState Thread Addr V) (action : CacheAction Thread K V),
      SameForA cb.cache.client.addresses st st' → action.side = .a →
        (st.act lib (sides ca cb) action).2 = (st'.act lib (sides ca cb) action).2 ∧
          SameForA cb.cache.client.addresses (st.act lib (sides ca cb) action).1
            (st'.act lib (sides ca cb) action).1 := by
    rintro st st' ⟨side, th, move⟩ h rfl
    simp only [act, ← h.pending]
    cases move with
    | call op =>
      cases st.pending .a th with
      | none => exact call_congr hapart h th op
      | some rest => exact ⟨rfl, h⟩
    | resume =>
      cases st.pending .a th with
      | none => exact ⟨rfl, h⟩
      | some rest => exact resume_congr h th rest
  refine ⟨fun st st' action h ha => (hseen st st' action h ha).1, ?_,
    fun st st' action h ha => (hseen st st' action h ha).2⟩
  rintro st st' ⟨side, th, move⟩ h hside
  cases side with
  | a => exact absurd rfl hside
  | b =>
    simp only [act]
    cases move with
    | call op =>
      cases st.pending .b th with
      | none => exact call_other h th op
      | some rest => exact h
    | resume =>
      cases st.pending .b th with
      | none => exact h
      | some rest => exact resume_other hne h th rest

/-- Put into the first cache, clear the second, get from the first. -/
def probes (th : Thread) (k : K) (v : V) : List (CacheAction Thread K V) :=
  [⟨.a, th, .call (.put k v)⟩, ⟨.a, th, .resume⟩, ⟨.b, th, .call .clear⟩, ⟨.a, th, .call (.get k)⟩]

/-- The value is gone if the second cache is cleared, and there if that is left out. -/
theorem outputs_probes {k : K} {key : String} (hkey : lib.key k = .ok key)
    (hmem : lib.locate ca.cache.client.addresses key ∈ cb.cache.client.addresses) (th : Thread) (v : V) :
    outputs (fun (st : CacheState Thread Addr V) action => (st.act lib (sides ca cb) action).1)
        (fun st action => (st.act lib (sides ca cb) action).2) (fun action => action.side = .a)
        (start fun _ _ => none) (probes th k v) = [.ok none, .ok none] ∧
      outputs (fun (st : CacheState Thread Addr V) action => (st.act lib (sides ca cb) action).1)
        (fun st action => (st.act lib (sides ca cb) action).2) (fun action => action.side = .a)
        (start fun _ _ => none) ((probes th k v).filter fun action => decide (action.side = .a)) =
          [.ok none, .ok (some v)] := by
  constructor
  · simp [outputs, probes, act, call, resume, setPending, start, sides, hkey, MemcachedClient.get, MemcachedClient.set,
      MemcachedClient.store, MemcachedClient.flushAll, hmem]
  · simp [outputs, probes, act, call, resume, setPending, start, sides, hkey, MemcachedClient.get, MemcachedClient.set,
      MemcachedClient.store]

end CacheState

/-- No key that the client takes is kept by the first cache on a server of the second. -/
def Apart (lib : XMemcached Addr K) (config : ServerConfig) (a b : String) : Prop :=
  ∀ addressesA addressesB, config.addresses lib a = .ok addressesA → config.addresses lib b = .ok addressesB →
    ∀ k key, lib.key k = .ok key → lib.locate addressesA key ∉ addressesB

theorem getCache_addresses {lib : XMemcached Addr K} {config : ServerConfig} {name : String}
    {cache : ShiroDynamyCache Addr} (h : getCache lib config name = .ok cache) :
    config.addresses lib name = .ok cache.cache.client.addresses ∧ cache.cache.client.addresses ≠ [] := by
  obtain ⟨client, hclient, h⟩ := of_bind_eq_ok h
  cases h
  exact ⟨DynamyMemcacheManager.build_addresses hclient, DynamyMemcacheManager.build_ne_nil hclient⟩

/-- **Isolation of two caches**: for every configuration that gives both caches, all contents of the servers and every
interleaving, also of the single commands, the operations on `a` return what they return without those on `b` if and
only if no key of `a` is kept on a server of `b`. -/
theorem isolated_iff [DecidableEq Addr] [DecidableEq Thread] [Nonempty Thread] [Nonempty V] {lib : XMemcached Addr K}
    {config : ServerConfig} {a b : String} {ca cb : ShiroDynamyCache Addr} (ha : getCache lib config a = .ok ca)
    (hb : getCache lib config b = .ok cb) : Isolated lib ca cb Thread V ↔ Apart lib config a b := by
  obtain ⟨haddresses, -⟩ := getCache_addresses ha
  obtain ⟨hbddresses, hne⟩ := getCache_addresses hb
  constructor
  · intro h addressesA addressesB hA hB k key hkey hmem
    obtain rfl : ca.cache.client.addresses = addressesA := Except.ok.inj (haddresses.symm.trans hA)
    obtain rfl : cb.cache.client.addresses = addressesB := Except.ok.inj (hbddresses.symm.trans hB)
    obtain ⟨th⟩ := ‹Nonempty Thread›
    obtain ⟨v⟩ := ‹Nonempty V›
    obtain ⟨hwith, hwithout⟩ := CacheState.outputs_probes hkey hmem th v
    have hsame := h (fun _ _ => none) (CacheState.probes th k v)
    rw [hwith, hwithout] at hsame
    cases hsame
  · intro hapart servers
    exact (CacheState.unwinding hne (hapart _ _ haddresses hbddresses)).noninterfering ⟨rfl, fun _ _ => rfl⟩

/-! ### One server for each text of addresses -/

/-- Keys are strings, and every text is the address of one server. -/
def singleHosts : XMemcached String String where
  getAddresses
    | some text => .ok [text]
    | none => .error ⟨.nullPointer, none⟩
  getAddresses_ne_nil := by
    rintro (_ | text) addresses h <;> cases h
    exact List.cons_ne_nil _ _
  locate addresses _ := addresses.headD ""
  locate_mem := by
    rintro (_ | ⟨address, rest⟩) key h
    · exact absurd rfl h
    · exact List.mem_cons_self
  toString := .ok
  checkKey _ := .ok ()

def ownServers : ServerConfig where
  cache := some [("sessions", some { addresses := some "cache1:11211" }),
    ("authorization", some { addresses := some "cache2:11211" })]

theorem isolated_iff_own : ∃ ca cb, getCache singleHosts ownServers "sessions" = .ok ca ∧
    getCache singleHosts ownServers "authorization" = .ok cb ∧ Isolated singleHosts ca cb Bool ℕ := by
  have ha : getCache singleHosts ownServers "sessions" = .ok ⟨⟨⟨["cache1:11211"], 1, false, "sessions"⟩⟩⟩ := rfl
  have hb : getCache singleHosts ownServers "authorization" =
      .ok ⟨⟨⟨["cache2:11211"], 1, false, "authorization"⟩⟩⟩ := rfl
  refine ⟨_, _, ha, hb, (isolated_iff ha hb).mpr ?_⟩
  intro addressesA addressesB hA hB k key _ hmem
  cases hA
  cases hB
  have hsame : "cache1:11211" = "cache2:11211" := List.mem_singleton.mp hmem
  exact absurd hsame (by decide)

def defaultOnly : ServerConfig where
  cache := some [("default", some { addresses := some "localhost:11211" })]

/-- Both caches fall back to the default entry. -/
theorem not_isolated : ¬ ∀ (config : ServerConfig) (a b : String) (ca cb : ShiroDynamyCache String), a ≠ b →
    getCache singleHosts config a = .ok ca → getCache singleHosts config b = .ok cb →
      Isolated singleHosts ca cb Bool ℕ := by
  intro h
  have hisolated := h defaultOnly "sessions" "authorization" _ _ (by decide) rfl rfl
  have hsame := hisolated (fun _ _ => none) (CacheState.probes true "k" 1)
  revert hsame
  decide

end Dynamy.Cache
