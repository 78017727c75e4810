import Connexa.Support.HashMap
import Connexa.Keystore.Entry

/-!
# The memory keystore

`MemoryKeystore` of `keystore/store/memory.rs`.  Every method holds the lock of
the map from its first to its last access, so it is one function of the map.
-/

namespace Connexa.Keystore

/-- The entries by label. -/
abbrev MemoryKeystore := HashMap String EncryptedEntry

namespace MemoryKeystore

open HashMap

def put (entry : EncryptedEntry) (inner : MemoryKeystore) :
    Except Error Unit × MemoryKeystore :=
  (.ok (), inner.insert entry.metadata.label entry)

def putMany (entries : List EncryptedEntry) (inner : MemoryKeystore) :
    Except Error Unit × MemoryKeystore :=
  (.ok (), entries.foldl (fun inner entry => inner.insert entry.metadata.label entry)
    inner)

def get (label : String) (inner : MemoryKeystore) :
    Except Error (Option EncryptedEntry) × MemoryKeystore :=
  (.ok (inner.lookup label), inner)

def list (inner : MemoryKeystore) : Except Error (List KeyMetadata) × MemoryKeystore :=
  (.ok ((values inner).map EncryptedEntry.metadata), inner)

def remove (label : String) (inner : MemoryKeystore) :
    Except Error Bool × MemoryKeystore :=
  (.ok (inner.lookup label).isSome, inner.erase label)

end MemoryKeystore

end Connexa.Keystore
