import CodeEvolution.Detection.Snapshot
import CodeEvolution.Model.Basic
/-!
# Where models of files are kept

A detector keeps the models that it has read under digests of their files, in a cache of limited
room. Both are taken as given: a store is a digest and the operations of a cache. The store that
the program uses keeps the models of the files used last, the most recent first, and takes as the
digest of a text the text itself.
-/
namespace CodeEvolution

/-- What the digest of a file is made of: its path, a NUL character and its text. -/
def SourceFile.keyText (file : SourceFile) : String :=
  file.path ++ "\x00" ++ file.text

/-- A digest and a cache. Looking a key up may change which models give way first. -/
structure ModelStore where
  Key : Type
  digest : String → Key
  Cache : Type
  ofCapacity : Nat → Cache
  lookUp : Cache → Key → Option Model × Cache
  put : Cache → Key → Model → Cache
  capacity : Cache → Nat
  size : Cache → Nat

def ModelStore.keyOf (store : ModelStore) (file : SourceFile) : store.Key :=
  store.digest file.keyText

structure CachedModel where
  key : String
  model : Model
deriving Repr

structure ModelCache where
  capacity : Nat
  entries : List CachedModel := []
deriving Repr

variable (cache : ModelCache) (key : String)

namespace ModelCache

def others : List CachedModel :=
  cache.entries.filter fun entry => entry.key != key

/-- The cache with a model as the most recent; the least recent one gives way when there is no
room. -/
def put (model : Model) : ModelCache :=
  { cache with entries := (⟨key, model⟩ :: cache.others key).take cache.capacity }

/-- The model under a key, which becomes the most recent. -/
def lookUp : Option Model × ModelCache :=
  match cache.entries.find? fun entry => entry.key == key with
  | some entry => (some entry.model, cache.put key entry.model)
  | none => (none, cache)

def size : Nat :=
  cache.entries.length

end ModelCache

def ModelStore.recent (digest : String → String := id) : ModelStore where
  Key := String
  digest
  Cache := ModelCache
  ofCapacity capacity := { capacity }
  lookUp := ModelCache.lookUp
  put := ModelCache.put
  capacity := ModelCache.capacity
  size := ModelCache.size

end CodeEvolution
