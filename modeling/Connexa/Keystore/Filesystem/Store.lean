import Connexa.Keystore.Filesystem.Disk
import Mathlib.Data.String.Basic

/-!
# The filesystem keystore

`FilesystemKeystore` of `keystore/store/fs.rs` as programs over the file
system's primitives, in the variant for systems other than Windows.  The
serialisation of entries and journals is a parameter.
-/

namespace Connexa.Keystore.Filesystem

open HashMap

/-- The originals of the entries that a batch replaces. -/
structure Journal where
  version : Fin (2 ^ 32)
  originals : List (String × Option Bytes)
  deriving DecidableEq

/-- `cbor4ii::serde`, at the two types that are stored. -/
structure Codec where
  encodeEntry : EncryptedEntry → Except String Bytes
  decodeEntry : Bytes → Except String EncryptedEntry
  encodeJournal : Journal → Except String Bytes
  decodeJournal : Bytes → Except String Journal

/-- Programs that return `io::Result`. -/
abbrev Io := ExceptT IoError (Prog Op Reply)

/-- Programs that return the keystore's `Result`. -/
abbrev StoreM := ExceptT Error (Prog Op Reply)

/-- `map_err(Error::Backend)`. -/
def mapBackend {α : Type} (x : Io α) : StoreM α :=
  ExceptT.mk do
    match ← x.run with
    | .ok a => return .ok a
    | .error e => return .error (.backend e)

/-- `map_err(backend)` on a result of the codec. -/
def codecResult {α : Type} (r : Except String α) : StoreM α :=
  match r with
  | .ok a => pure a
  | .error text => throw (.backend (.codec text))

/-! ## Files and directories -/

def isDir (dir : DirName) : Io Bool :=
  ExceptT.lift (Prog.op (Op.isDir dir))

def syncDir (dir : DirName) : Io Unit :=
  ExceptT.mk (Prog.op (Op.syncDir dir))

def readFile (path : Path) : Io Bytes :=
  ExceptT.mk (Prog.op (Op.read path))

def workExists (name : WorkName) : Io Bool :=
  ExceptT.mk (Prog.op (Op.workExists name))

def renameFile (src dst : Path) : Io Unit :=
  ExceptT.mk (Prog.op (Op.rename src dst))

/-- `builder.create(dir)`, where a directory that is already there is fine. -/
def buildDir (dir : DirName) : Io Unit :=
  ExceptT.mk do
    match ← Prog.op (Op.createDir dir) with
    | .ok () => return .ok ()
    | .error e =>
        if e.kind = .alreadyExists then
          if ← Prog.op (Op.isDir dir) then return .ok () else return .error e
        else return .error e

/-- `create_dir` of a directory below the given ones, the nearest first. -/
def createDirBelow (dir : DirName) : List DirName → Io Unit
  | [] => do
      if ← isDir dir then return
      buildDir dir
      syncDir dir
      syncDir .here
  | parent :: above => do
      if ← isDir dir then return
      createDirBelow parent above
      buildDir dir
      syncDir dir
      syncDir parent

def createDir (dir : DirName) : Io Unit :=
  createDirBelow dir dir.ancestors

def writeNew (path : Path) (bytes : Bytes) : Io Unit := do
  let file ← (ExceptT.mk (Prog.op (Op.createNew path)) : Io Ino)
  (ExceptT.mk (Prog.op (Op.writeAll file bytes)) : Io Unit)
  (ExceptT.mk (Prog.op (Op.syncAll file)) : Io Unit)

def removeFile (path : Path) : Io Bool :=
  ExceptT.mk do
    match ← Prog.op (Op.removeFile path) with
    | .ok () => return .ok true
    | .error e => return if e.kind = .notFound then .ok false else .error e

/-- The unlinks of `remove_dir_all`. -/
def removeStaged : List ℕ → Io Unit
  | [] => pure ()
  | index :: rest => do
      (ExceptT.mk (Prog.op (Op.removeFile (.staged index))) : Io Unit)
      removeStaged rest

/-- `remove_dir_all(work.join(STAGING))`. -/
def removeStagingAll : Io Unit := do
  let names ← (ExceptT.mk (Prog.op Op.readStaging) : Io (List ℕ))
  removeStaged names
  (ExceptT.mk (Prog.op Op.removeStaging) : Io Unit)

/-! ## Recovery -/

def conflictingJournals : IoError :=
  .new .invalidData "conflicting keystore journals"

/-- Check every label before any file is restored. -/
def checkLabels : List (String × Option Bytes) → Except IoError Unit
  | [] => .ok ()
  | (label, _) :: rest =>
      match validateLabel label with
      | .error e => .error (.keystore e)
      | .ok () =>
          if label = workDirName then
            .error (.new .invalidData "invalid journal label")
          else checkLabels rest

/-- The checks of a decoded journal. -/
def checkJournal (journal : Journal) : Except IoError Unit :=
  if journal.version ≠ 1 then
    .error (.new .invalidData "unsupported keystore journal")
  else checkLabels journal.originals

/-- Put one original back. -/
def restore (label : String) (original : Option Bytes) : Io Unit :=
  match original with
  | some bytes => do
      discard (removeFile (.work .restore))
      writeNew (.work .restore) bytes
      renameFile (.work .restore) (.entry label)
  | none => discard (removeFile (.entry label))

def restoreAll : List (String × Option Bytes) → Io Unit
  | [] => pure ()
  | (label, original) :: rest => do
      restore label original
      restoreAll rest

/-- The part of `recover` that undoes the batch of a journal. -/
def rollback (codec : Codec) : Io Unit := do
  let bytes ← readFile (.work .journal)
  match codec.decodeJournal bytes with
  | .error text => throw (.codec text)
  | .ok journal =>
      match checkJournal journal with
      | .error e => throw e
      | .ok () =>
          restoreAll journal.originals
          syncDir .store
          discard (removeFile (.work .journal))
          syncDir .work

/-- `remove_dir_all` of the staging directory, which may be missing. -/
def discardStaging : Io Unit :=
  ExceptT.mk do
    match ← removeStagingAll.run with
    | .ok () => return .ok ()
    | .error e => return if e.kind = .notFound then .ok () else .error e

/-- The part of `recover` that removes what a batch left in `.tmp`. -/
def cleanup : Io Unit := do
  discard (removeFile (.work .committed))
  discard (removeFile (.work .journalNew))
  discard (removeFile (.work .restore))
  discardStaging
  syncDir .work

def recover (codec : Codec) : Io Unit := do
  if ← workExists .committed then
    if ← workExists .journal then throw conflictingJournals
  if ← workExists .journal then rollback codec
  cleanup

/-! ## Batches -/

def notRegularFile : Error :=
  .backend (.new .invalidInput "key entry must be a regular file")

/-- Check and encode the entries; the last one of a label wins. -/
def encodeEntries (codec : Codec) :
    List EncryptedEntry → HashMap String Bytes → StoreM (HashMap String Bytes)
  | [], encoded => pure encoded
  | entry :: rest, encoded => do
      match validateLabel entry.metadata.label with
      | .error e => throw e
      | .ok () =>
          match ← ExceptT.lift (Prog.op (Op.isFile entry.metadata.label)) with
          | .ok false => throw notRegularFile
          | _ =>
              let bytes ← codecResult (codec.encodeEntry entry)
              encodeEntries codec rest
                (encoded.insert entry.metadata.label bytes)

/-- Read the entry that is to be replaced. -/
def readOriginal (label : String) : StoreM (Option Bytes) :=
  ExceptT.mk do
    match ← Prog.op (Op.read (.entry label)) with
    | .ok bytes => return .ok (some bytes)
    | .error e =>
        return if e.kind = .notFound then .ok none else .error (.backend e)

/-- Stage the encoded entries from `index` on and collect their originals. -/
def stage : ℕ → List (String × Bytes) → StoreM (List (String × Option Bytes))
  | _, [] => pure []
  | index, (label, bytes) :: rest => do
      let old ← readOriginal label
      mapBackend (writeNew (.staged index) bytes)
      let originals ← stage (index + 1) rest
      return (label, old) :: originals

/-- Write the journal and flush it before any entry is replaced. -/
def writeJournal (codec : Codec) (originals : List (String × Option Bytes)) :
    StoreM Unit := do
  let bytes ← codecResult (codec.encodeJournal ⟨1, originals⟩)
  mapBackend (writeNew (.work .journalNew) bytes)
  mapBackend (renameFile (.work .journalNew) (.work .journal))
  mapBackend (syncDir .work)

def prepare (codec : Codec) (entries : List EncryptedEntry) :
    StoreM (List String) := do
  let encoded ← encodeEntries codec entries ∅
  mapBackend (createDir .staging)
  let originals ← stage 0 (sortedEntries encoded)
  mapBackend (syncDir .staging)
  writeJournal codec originals
  return originals.map Prod.fst

/-- Move the staged entries from `index` on into place. -/
def replaceEntries (afterReplace : ℕ → Except IoError Unit) :
    ℕ → List String → Io Unit
  | _, [] => pure ()
  | index, label :: rest => do
      renameFile (.staged index) (.entry label)
      match afterReplace index with
      | .error e => throw e
      | .ok () => replaceEntries afterReplace (index + 1) rest

/-- Replace the entries and mark the batch as committed. -/
def apply (afterReplace : ℕ → Except IoError Unit) (labels : List String) :
    Io Unit := do
  replaceEntries afterReplace 0 labels
  syncDir .store
  renameFile (.work .journal) (.work .committed)

def rollbackError (codec : Codec) (error : Error) : StoreM Unit :=
  ExceptT.mk do
    match ← (recover codec).run with
    | .ok () => return .error error
    | .error recovery => return .error (.backend (.recoveryFailed error recovery))

/-- What `commit_batch` does once the journal has become the commit record. -/
def finishCommit (codec : Codec) : StoreM Unit := do
  mapBackend (syncDir .work)
  -- a failing cleanup is left to the next access
  discard (ExceptT.lift (recover codec).run)

def commitBatch (codec : Codec) (entries : List EncryptedEntry)
    (afterReplace : ℕ → Except IoError Unit) : StoreM Unit :=
  ExceptT.mk do
    match ← (prepare codec entries).run with
    | .error error => (rollbackError codec error).run
    | .ok labels =>
        match ← (apply afterReplace labels).run with
        | .error error => (rollbackError codec (.backend error)).run
        | .ok () => (finishCommit codec).run

/-! ## Accesses -/

def lock : StoreM Unit := do
  mapBackend (createDir .work)
  mapBackend (ExceptT.mk (Prog.op Op.openLock) : Io Unit)
  mapBackend (ExceptT.mk (Prog.op Op.lockFile) : Io Unit)

/-- The part of `access` before the operation, which tells whether the
operation is to run. -/
def passRecover (codec : Codec) (create : Bool) : StoreM Bool := do
  if !create then
    if !(← mapBackend (ExceptT.mk (Prog.op Op.storeExists) : Io Bool)) then
      return false
  lock
  mapBackend (recover codec)
  return true

def access {α : Type} (codec : Codec) (create : Bool) (missing : α)
    (operation : StoreM α) : StoreM α := do
  if ← passRecover codec create then operation else return missing

def putMany (codec : Codec) (entries : List EncryptedEntry) : StoreM Unit :=
  if entries.isEmpty then
    access codec false () (pure ())
  else
    access codec true () (commitBatch codec entries fun _ => .ok ())

def put (codec : Codec) (entry : EncryptedEntry) : StoreM Unit :=
  putMany codec [entry]

/-- The operation of `get`. -/
def getEntry (codec : Codec) (label : String) :
    StoreM (Option EncryptedEntry) := do
  match ← readOriginal label with
  | none => return none
  | some bytes => return some (← codecResult (codec.decodeEntry bytes))

def get (codec : Codec) (label : String) : StoreM (Option EncryptedEntry) :=
  match validateLabel label with
  | .error e => throw e
  | .ok () => access codec false none (getEntry codec label)

/-- The metadata of the entries with the given names. -/
def listNames (codec : Codec) : List (String × Bool) → StoreM (List KeyMetadata)
  | [] => pure []
  | (name, isFile) :: rest => do
      if !isFile then
        if name = workDirName then listNames codec rest
        else throw (.backend
          (.new .invalidData "keystore contains an unexpected entry"))
      else
        let bytes ← mapBackend (readFile (.entry name))
        let decoded ← codecResult (codec.decodeEntry bytes)
        if name ≠ decoded.metadata.label then
          throw (.backend (.new .invalidData
            "key entry label does not match its file name"))
        else
          return decoded.metadata :: (← listNames codec rest)

/-- The operation of `list`. -/
def listEntries (codec : Codec) : StoreM (List KeyMetadata) := do
  let names ← mapBackend
    (ExceptT.mk (Prog.op Op.readStore) : Io (List (String × Bool)))
  listNames codec names

def list (codec : Codec) : StoreM (List KeyMetadata) :=
  access codec false [] (listEntries codec)

/-- The operation of `remove`. -/
def removeEntry (label : String) : StoreM Bool := do
  let removed ← mapBackend (removeFile (.entry label))
  mapBackend (syncDir .store)
  return removed

def remove (codec : Codec) (label : String) : StoreM Bool :=
  match validateLabel label with
  | .error e => throw e
  | .ok () => access codec false false (removeEntry label)

end Connexa.Keystore.Filesystem
