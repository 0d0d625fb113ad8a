import Dynamy.Java
import Mathlib.Logic.Function.Basic

/-!
# Dynamy.Cache.DynamyMemcached — memcached clients, one for each cache

`DynamyMemcacheManager.build` makes a client for the servers of a cache's configuration and gives it the name of the
cache.  The memcached servers are one flat map each, shared by all clients; what the client library decides (where the
addresses of a text lead, which server a key goes to, which keys it takes) is `XMemcached`.
-/

namespace Dynamy.Cache

open Dynamy.Java

variable {Addr K V : Type}

/-- What the client library and `toString` of the keys do. -/
structure XMemcached (Addr K : Type) where
  /-- `AddrUtil.getAddresses` -/
  getAddresses : Option String → Except Throwable (List Addr)
  getAddresses_ne_nil : ∀ text addresses, getAddresses text = .ok addresses → addresses ≠ []
  /-- the server of a key, among those of a client -/
  locate : List Addr → String → Addr
  locate_mem : ∀ addresses key, addresses ≠ [] → locate addresses key ∈ addresses
  /-- `key.toString` -/
  toString : K → Except Throwable String
  /-- the client takes the key -/
  checkKey : String → Except Throwable Unit

/-- What `build` reads of a cache's configuration. -/
structure CachePoolConfig where
  failureMode : Bool := false
  connectionPoolSize : ℤ := 1
  addresses : Option String := none
  deriving DecidableEq

structure ServerConfig where
  cache : Option (List (String × Option CachePoolConfig))

structure MemcachedClient (Addr : Type) where
  addresses : List Addr
  connectionPoolSize : ℤ
  failureMode : Bool
  name : String

/-- A server is one flat map from keys to values. -/
abbrev Servers (Addr V : Type) := Addr → String → Option V

/-- The entry of `name`, or else of `"default"`. -/
def ServerConfig.cacheConfig (config : ServerConfig) (name : String) : Except Throwable CachePoolConfig := do
  let cache ← deref config.cache
  deref (if (cache.lookup name).isSome then cache.lookup name else cache.lookup "default").join

/-- The servers that the client of a cache is connected to. -/
def ServerConfig.addresses (lib : XMemcached Addr K) (config : ServerConfig) (name : String) :
    Except Throwable (List Addr) := do
  let cacheConfig ← config.cacheConfig name
  lib.getAddresses cacheConfig.addresses

namespace DynamyMemcacheManager

def build (lib : XMemcached Addr K) (config : ServerConfig) (name : String) :
    Except Throwable (MemcachedClient Addr) := do
  let cacheConfig ← config.cacheConfig name
  let addresses ← lib.getAddresses cacheConfig.addresses
  pure {
    addresses := addresses
    connectionPoolSize := cacheConfig.connectionPoolSize
    failureMode := cacheConfig.failureMode
    name := name }

theorem build_addresses {lib : XMemcached Addr K} {config : ServerConfig} {name : String}
    {client : MemcachedClient Addr} (h : build lib config name = .ok client) :
    config.addresses lib name = .ok client.addresses := by
  obtain ⟨cacheConfig, hconfig, h⟩ := of_bind_eq_ok h
  obtain ⟨addresses, haddresses, h⟩ := of_bind_eq_ok h
  cases h
  rw [ServerConfig.addresses, hconfig]
  exact haddresses

/-- A client has a server. -/
theorem build_ne_nil {lib : XMemcached Addr K} {config : ServerConfig} {name : String}
    {client : MemcachedClient Addr} (h : build lib config name = .ok client) : client.addresses ≠ [] := by
  obtain ⟨cacheConfig, -, haddresses⟩ := of_bind_eq_ok (build_addresses h)
  exact lib.getAddresses_ne_nil _ _ haddresses

end DynamyMemcacheManager

/-! ### The commands of a client -/

namespace MemcachedClient

variable (lib : XMemcached Addr K) (client : MemcachedClient Addr) (servers : Servers Addr V)

def get (key : String) : Option V := servers (lib.locate client.addresses key) key

variable [DecidableEq Addr]

/-- The server of `key` has `value` for it, or nothing. -/
def store (key : String) (value : Option V) : Servers Addr V :=
  Function.update servers (lib.locate client.addresses key)
    (Function.update (servers (lib.locate client.addresses key)) key value)

def set (key : String) (value : V) : Servers Addr V := client.store lib servers key (some value)

def delete (key : String) : Servers Addr V := client.store lib servers key none

/-- `flushAllWithNoReply`: every server of the client is emptied. -/
def flushAll : Servers Addr V := fun addr => if addr ∈ client.addresses then fun _ => none else servers addr

variable {lib client servers} {servers' : Servers Addr V} {addr : Addr} {key : String}

theorem store_of_ne (value : Option V) (h : addr ≠ lib.locate client.addresses key) :
    client.store lib servers key value addr = servers addr := Function.update_of_ne h ..

/-- A command does the same to a server wherever that server is the same. -/
theorem store_congr (value : Option V) (h : servers addr = servers' addr) :
    client.store lib servers key value addr = client.store lib servers' key value addr := by
  by_cases hat : addr = lib.locate client.addresses key
  · subst hat
    rw [store, store, Function.update_self, Function.update_self, h]
  · rw [store_of_ne value hat, store_of_ne value hat, h]

theorem flushAll_congr (h : servers addr = servers' addr) :
    client.flushAll servers addr = client.flushAll servers' addr := by
  rw [flushAll, flushAll, h]

theorem flushAll_of_not_mem (h : addr ∉ client.addresses) : client.flushAll servers addr = servers addr := if_neg h

end MemcachedClient

end Dynamy.Cache
