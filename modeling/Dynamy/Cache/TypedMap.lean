import Dynamy.Cache.ShiroDynamyCache
import Dynamy.Lib.KeyedStore

/-!
# Dynamy.Cache.TypedMap — a cache as a map from its keys

One cache alone, one operation after the other, on memcached servers that keep all they are given.  The servers of a
client are together one flat map from strings (`MemcachedClient.get`), and a key goes there as its `toString`.  The
cache answers like a finite map from the keys themselves exactly for the sequences whose keys have texts that are the
same for equal keys and different for the others (`actsAsMap_iff`).
-/

namespace Dynamy.Cache

open Dynamy.Java Dynamy.Lib

variable {Addr K V : Type}

/-- The operation of the cache that stands for one of a map. -/
def CacheOp.ofMapOp : MapOp K V → CacheOp K V
  | .get k => .get k
  | .put k v => .put k v
  | .remove k => .remove k
  | .clear => .clear

section Perform

variable [DecidableEq Addr]

/-- A whole operation: the servers after it, and what it returns. -/
def ShiroDynamyCache.perform (lib : XMemcached Addr K) (cache : ShiroDynamyCache Addr) (servers : Servers Addr V)
    (op : CacheOp K V) : Servers Addr V × CacheResult V :=
  let st : CacheState Unit Addr V := CacheState.start servers
  match st.call lib cache .a () op with
  | (st', some result) => (st'.servers, result)
  | (st', none) =>
    match st'.pending .a () with
    | some rest =>
      let last := st'.resume lib cache .a () rest
      (last.1.servers, last.2.getD (.ok none))
    | none => (st'.servers, .ok none)

/-- On servers that are empty for its client, the cache returns what a finite map returns. -/
def ActsAsMap [BEq K] (lib : XMemcached Addr K) (cache : ShiroDynamyCache Addr) (ops : List (MapOp K V)) : Prop :=
  ∀ servers : Servers Addr V, (∀ key, cache.cache.client.get lib servers key = none) →
    answers (cache.perform lib) servers (ops.map CacheOp.ofMapOp) = (answers mapStep [] ops).map .ok

/-! ### The flat map of a client -/

namespace MemcachedClient

variable {lib : XMemcached Addr K} {client : MemcachedClient Addr} {servers : Servers Addr V}

theorem get_store (key : String) (value : Option V) :
    client.get lib (client.store lib servers key value) = Function.update (client.get lib servers) key value := by
  funext key'
  by_cases hkey : key' = key
  · subst hkey
    rw [get, store, Function.update_self, Function.update_self, Function.update_self]
  · rw [Function.update_of_ne hkey, get, get]
    by_cases hat : lib.locate client.addresses key' = lib.locate client.addresses key
    · rw [hat, store, Function.update_self, Function.update_of_ne hkey]
    · rw [store_of_ne value hat]

theorem get_flushAll (hne : client.addresses ≠ []) :
    client.get lib (client.flushAll servers) = fun _ => none := by
  funext key
  rw [get, flushAll, if_pos (lib.locate_mem client.addresses key hne)]

end MemcachedClient

variable {lib : XMemcached Addr K} {cache : ShiroDynamyCache Addr}

/-- An operation does to the flat map what `storeStep` does under the texts of the keys. -/
theorem perform_eq (lib : XMemcached Addr K) (hne : cache.cache.client.addresses ≠ [])
    (servers : Servers Addr V) (op : MapOp K V) :
    (cache.perform lib servers (.ofMapOp op)).2 = (storeStep lib.key (cache.cache.client.get lib servers) op).2 ∧
      cache.cache.client.get lib (cache.perform lib servers (.ofMapOp op)).1 =
        (storeStep lib.key (cache.cache.client.get lib servers) op).1 := by
  cases op with
  | get k =>
    simp only [CacheOp.ofMapOp, ShiroDynamyCache.perform, CacheState.call, CacheState.start, storeStep]
    cases lib.key k with
    | error e => exact ⟨rfl, rfl⟩
    | ok key => exact ⟨rfl, rfl⟩
  | put k v =>
    simp only [CacheOp.ofMapOp, ShiroDynamyCache.perform, CacheState.call, CacheState.start, storeStep]
    cases lib.key k with
    | error e => exact ⟨rfl, rfl⟩
    | ok key =>
      simp only [CacheState.setPending, Function.update_self, CacheState.resume]
      exact ⟨rfl, MemcachedClient.get_store key (some v)⟩
  | remove k =>
    simp only [CacheOp.ofMapOp, ShiroDynamyCache.perform, CacheState.call, CacheState.start, storeStep]
    cases lib.key k with
    | error e => exact ⟨rfl, rfl⟩
    | ok key =>
      simp only [CacheState.setPending, Function.update_self, CacheState.resume]
      exact ⟨rfl, MemcachedClient.get_store key none⟩
  | clear => exact ⟨rfl, MemcachedClient.get_flushAll hne⟩

theorem answers_perform (hne : cache.cache.client.addresses ≠ []) (servers : Servers Addr V)
    (ops : List (MapOp K V)) : answers (cache.perform lib) servers (ops.map CacheOp.ofMapOp) =
      answers (storeStep lib.key) (cache.cache.client.get lib servers) ops := by
  induction ops generalizing servers with
  | nil => rfl
  | cons op ops ih =>
    obtain ⟨hanswer, hflat⟩ := perform_eq lib hne servers op
    rw [List.map_cons, answers, answers, hanswer, ih, hflat]

theorem actsAsMap_iff_answersAlike [BEq K] (hne : cache.cache.client.addresses ≠ []) (ops : List (MapOp K V)) :
    ActsAsMap lib cache ops ↔ AnswersAlike lib.key ops := by
  constructor
  · intro h
    rw [AnswersAlike, ← h (fun _ _ => none) (fun _ => rfl), answers_perform hne]
    rfl
  · intro h servers hempty
    have hflat : cache.cache.client.get lib servers = fun _ => none := funext hempty
    rw [answers_perform hne, hflat]
    exact h

/-- **The cache as a map, exactly.**  For every type of keys with an equality of its own, every `toString` and every
sequence of operations: the cache returns what a finite map returns, for all types of values and all values put, if and
only if at each operation its key has a text that memcached takes and that, of the keys in the map, the equal ones have
and the others have not. -/
theorem actsAsMap_iff [BEq K] [EquivBEq K] {config : ServerConfig} {name : String}
    (h : getCache lib config name = .ok cache) (ops : List (MapOp K Unit)) :
    (∀ (V : Type) (values : ℕ → V), ActsAsMap lib cache (withValues values 0 ops)) ↔ NamedAlong lib.key [] ops := by
  obtain ⟨-, hne⟩ := getCache_addresses h
  rw [← answersAlike_iff]
  refine forall_congr' fun V => forall_congr' fun values => ?_
  exact actsAsMap_iff_answersAlike hne _

end Perform

/-! ### Principal collections -/

/-- Keys are the principals of collections; the text of one has commas between them. -/
def principalTexts : XMemcached String (List String) where
  getAddresses := singleHosts.getAddresses
  getAddresses_ne_nil := singleHosts.getAddresses_ne_nil
  locate := singleHosts.locate
  locate_mem := singleHosts.locate_mem
  toString principals := .ok (",".intercalate principals)
  checkKey _ := .ok ()

/-- One collection with different values, and another one with a text of its own. -/
theorem actsAsMap_iff_apart : ∃ cache, getCache principalTexts defaultOnly "authorization" = .ok cache ∧
    ∀ (V : Type) (values : ℕ → V), ActsAsMap principalTexts cache
      (withValues values 0 [.put ["alice"] (), .put ["alice"] (), .get ["bob"], .remove ["alice"]]) := by
  have h : getCache principalTexts defaultOnly "authorization" =
      .ok ⟨⟨⟨["localhost:11211"], 1, false, "authorization"⟩⟩⟩ := rfl
  refine ⟨_, h, (actsAsMap_iff h _).mpr ⟨⟨"alice", rfl, ?_⟩, ⟨"alice", rfl, ?_⟩, ⟨"bob", rfl, ?_⟩,
    ⟨"alice", rfl, ?_⟩, trivial⟩⟩
  · exact fun k hk => absurd hk List.not_mem_nil
  · intro k hk
    rw [List.mem_singleton.mp hk]
    exact iff_of_true rfl rfl
  · intro k hk
    obtain rfl : k = ["alice"] := List.mem_singleton.mp hk
    exact iff_of_false (by decide) (by decide)
  · intro k hk
    obtain rfl : k = ["alice"] := List.mem_singleton.mp hk
    exact iff_of_true rfl rfl

/-- What was put for the principals `a` and `b` is got for the one principal `a,b`. -/
theorem not_actsAsMap : ¬ ∀ (cache : ShiroDynamyCache String) (ops : List (MapOp (List String) ℕ)),
    getCache principalTexts defaultOnly "authorization" = .ok cache → ActsAsMap principalTexts cache ops := by
  intro h
  have hsame := h _ [.put ["a", "b"] 1, .get ["a,b"]] rfl (fun _ _ => none) fun _ => rfl
  revert hsame
  decide

end Dynamy.Cache
