import Connexa.Support.Directory
import Connexa.Support.Program
import Connexa.Keystore.Entry

/-!
# The file system under the store

The primitives that `keystore/store/fs.rs` uses, over a disk with the three
directories of a store: the store directory, `.tmp` in it, and the staging
directory in `.tmp`.  A primitive may fail, and then does nothing, except that
a failing write may leave part of the bytes.  A crash lets each directory keep
a prefix of its unsynced updates and spoils files that were not synced.
-/

namespace Connexa.Keystore.Filesystem

open HashMap

/-- Inode numbers, never reused. -/
abbrev Ino := ℕ

/-- What a name in the store directory stands for. -/
inductive Node where
  | file (ino : Ino)
  | dir
  deriving DecidableEq

/-- The names in `.tmp`. -/
inductive WorkName where
  /-- `connexa-journal-new` -/
  | journalNew
  /-- `connexa-journal` -/
  | journal
  /-- `connexa-committed` -/
  | committed
  /-- `connexa-restore` -/
  | restore
  /-- `connexa-lock` -/
  | lock
  /-- `connexa-staging` -/
  | staging
  deriving DecidableEq

/-- The directories that are created or synced: `.`, the one that holds the
store, the store, `.tmp` and the staging directory. -/
inductive DirName where
  | here
  | outside
  | store
  | work
  | staging
  deriving DecidableEq

inductive Path where
  | entry (label : String)
  | work (name : WorkName)
  | staged (index : ℕ)
  deriving DecidableEq

/-- The name of the work directory in the store directory. -/
def workDirName : String := ".tmp"

structure Disk where
  outsideDir : Bool
  storeDir : Bool
  workDir : Bool
  /-- The store directory, `.tmp` apart. -/
  store : Dir String Node
  work : Dir WorkName Ino
  /-- The contents of a staging directory. -/
  staging : Ino → Dir ℕ Ino
  data : Ino → Bytes
  /-- The bytes of the file are safely on disk. -/
  synced : Ino → Bool
  nextIno : Ino
  fresh : ∀ i, nextIno ≤ i → synced i = false
  /-- The renames that succeeded, for the record only. -/
  renames : List (Path × Path)

/-- An input or output error of a primitive; a failing write has written the
given number of bytes.  `NotFound` is no such error: it says that the name is
not there. -/
structure Fault where
  kind : ErrorKind
  written : ℕ
  real : kind ≠ .notFound

namespace Disk

/-- The staging directory, if there is one. -/
def stagingIno (d : Disk) : Option Ino :=
  d.work.view.lookup .staging

def node (d : Disk) : Path → Option Node
  | .entry label =>
      if label = workDirName then
        if d.workDir then some .dir else none
      else d.store.view.lookup label
  | .work name =>
      match d.work.view.lookup name with
      | some ino => if name = .staging then some .dir else some (.file ino)
      | none => none
  | .staged index =>
      match d.stagingIno with
      | some s => ((d.staging s).view.lookup index).map .file
      | none => none

/-- The directory of the path exists. -/
def hasParent (d : Disk) : Path → Bool
  | .entry _ => d.storeDir
  | .work _ => d.workDir
  | .staged _ => d.stagingIno.isSome

def hasDir (d : Disk) : DirName → Bool
  | .here => true
  | .outside => d.outsideDir
  | .store => d.storeDir
  | .work => d.workDir
  | .staging => d.stagingIno.isSome

/-- Update the current staging directory. -/
def onStaging (f : Dir ℕ Ino → Dir ℕ Ino) (d : Disk) : Disk :=
  match d.stagingIno with
  | some s =>
      { d with staging := fun s' => if s' = s then f (d.staging s) else d.staging s' }
  | none => d

/-- Link a name to a file, or unlink it. -/
def assign (p : Path) (value : Option Ino) (d : Disk) : Disk :=
  match p with
  | .entry label => { d with store := d.store.push [(label, value.map .file)] }
  | .work name => { d with work := d.work.push [(name, value)] }
  | .staged index => d.onStaging fun s => s.push [(index, value)]

/-- A new empty file. -/
def newFile (d : Disk) : Disk :=
  { d with
    data := fun i => if i = d.nextIno then [] else d.data i
    nextIno := d.nextIno + 1
    fresh := fun i hi => d.fresh i (Nat.le_of_succ_le hi) }

def write (ino : Ino) (bytes : Bytes) (d : Disk) : Disk :=
  { d with
    data := fun i => if i = ino then bytes else d.data i
    synced := fun i => if i = ino then false else d.synced i
    fresh := fun i hi => by
      split
      · rfl
      · exact d.fresh i hi }

def syncFile (ino : Ino) (d : Disk) : Disk :=
  { d with
    synced := fun i => if i = ino ∧ ino < d.nextIno then true else d.synced i
    fresh := fun i hi => by
      have hne : ¬(i = ino ∧ ino < d.nextIno) := by
        rintro ⟨rfl, hlt⟩
        exact Nat.not_lt.mpr hi hlt
      rw [if_neg hne]
      exact d.fresh i hi }

/-- Move a file.  Within one directory this is one update, between two
directories each gets its own. -/
def move (src dst : Path) (ino : Ino) (d : Disk) : Disk :=
  let d := { d with renames := d.renames ++ [(src, dst)] }
  match src, dst with
  | .work a, .work b => { d with work := d.work.push [(b, some ino), (a, none)] }
  | .entry a, .entry b =>
      { d with store := d.store.push [(b, some (.file ino)), (a, none)] }
  | .staged a, .staged b => d.onStaging fun s => s.push [(b, some ino), (a, none)]
  | _, _ => (d.assign dst (some ino)).assign src none

def makeDir (dir : DirName) (d : Disk) : Disk :=
  match dir with
  | .here => d
  | .outside => { d with outsideDir := true }
  | .store => { d with storeDir := true }
  | .work => { d with workDir := true }
  | .staging =>
      let s := d.nextIno
      { d.newFile with
        work := d.work.push [(.staging, some s)]
        staging := fun s' => if s' = s then Dir.synced ∅ else d.staging s' }

def syncDir (dir : DirName) (d : Disk) : Disk :=
  match dir with
  | .here => d
  | .outside => d
  | .store => { d with store := d.store.sync }
  | .work => { d with work := d.work.sync }
  | .staging => d.onStaging Dir.sync

end Disk

/-- The directories above one, the nearest first. -/
def DirName.ancestors : DirName → List DirName
  | .here => []
  | .outside => []
  | .store => [.outside]
  | .work => [.store, .outside]
  | .staging => [.work, .store, .outside]

/-! ## Primitives -/

inductive Op where
  /-- `Path::is_dir` -/
  | isDir (dir : DirName)
  /-- `try_exists` on the store directory -/
  | storeExists
  /-- `try_exists` on a name in `.tmp` -/
  | workExists (name : WorkName)
  /-- `DirBuilder::create` -/
  | createDir (dir : DirName)
  /-- `File::open(dir)?.sync_all()` -/
  | syncDir (dir : DirName)
  /-- `symlink_metadata(path)?.is_file()` -/
  | isFile (label : String)
  | read (path : Path)
  /-- open with `create_new` -/
  | createNew (path : Path)
  | writeAll (ino : Ino) (bytes : Bytes)
  | syncAll (ino : Ino)
  | rename (src dst : Path)
  | removeFile (path : Path)
  /-- the names in the staging directory -/
  | readStaging
  /-- `rmdir` of the staging directory -/
  | removeStaging
  /-- open the lock file, creating it if needed -/
  | openLock
  | lockFile
  /-- the names in the store directory, and whether they are regular files -/
  | readStore

@[reducible] def Reply : Op → Type
  | .isDir _ => Bool
  | .storeExists => Except IoError Bool
  | .workExists _ => Except IoError Bool
  | .isFile _ => Except IoError Bool
  | .read _ => Except IoError Bytes
  | .createNew _ => Except IoError Ino
  | .readStaging => Except IoError (List ℕ)
  | .readStore => Except IoError (List (String × Bool))
  | .createDir _ => Except IoError Unit
  | .syncDir _ => Except IoError Unit
  | .writeAll _ _ => Except IoError Unit
  | .syncAll _ => Except IoError Unit
  | .rename _ _ => Except IoError Unit
  | .removeFile _ => Except IoError Unit
  | .removeStaging => Except IoError Unit
  | .openLock => Except IoError Unit
  | .lockFile => Except IoError Unit

/-- The primitive without a fault. -/
def perform (o : Op) (d : Disk) : Reply o × Disk :=
  match o with
  | .isDir dir => (d.hasDir dir, d)
  | .storeExists => (.ok d.storeDir, d)
  | .workExists name => (.ok (d.work.view.lookup name).isSome, d)
  | .createDir dir =>
      if d.hasDir dir then (.error (.os .alreadyExists), d)
      else if dir.ancestors.head?.all d.hasDir then (.ok (), d.makeDir dir)
      else (.error (.os .notFound), d)
  | .syncDir dir =>
      if d.hasDir dir then (.ok (), d.syncDir dir)
      else (.error (.os .notFound), d)
  | .isFile label =>
      match d.node (.entry label) with
      | some (.file _) => (.ok true, d)
      | some .dir => (.ok false, d)
      | none => (.error (.os .notFound), d)
  | .read path =>
      match d.node path with
      | some (.file ino) => (.ok (d.data ino), d)
      | some .dir => (.error (.os .isADirectory), d)
      | none => (.error (.os .notFound), d)
  | .createNew path =>
      if (d.node path).isSome then (.error (.os .alreadyExists), d)
      else if d.hasParent path then
        (.ok d.nextIno, d.newFile.assign path (some d.nextIno))
      else (.error (.os .notFound), d)
  | .writeAll ino bytes => (.ok (), d.write ino bytes)
  | .syncAll ino => (.ok (), d.syncFile ino)
  | .rename src dst =>
      match d.node src with
      | none => (.error (.os .notFound), d)
      | some .dir => (.error (.os .isADirectory), d)
      | some (.file ino) =>
          if d.node dst = some .dir then (.error (.os .isADirectory), d)
          else if d.hasParent dst then (.ok (), d.move src dst ino)
          else (.error (.os .notFound), d)
  | .removeFile path =>
      match d.node path with
      | none => (.error (.os .notFound), d)
      | some .dir => (.error (.os .isADirectory), d)
      | some (.file _) => (.ok (), d.assign path none)
  | .readStaging =>
      match d.stagingIno with
      | some s => (.ok (d.staging s).view.keys, d)
      | none => (.error (.os .notFound), d)
  | .removeStaging =>
      match d.stagingIno with
      | some s =>
          if (d.staging s).view.keys = [] then
            (.ok (), { d with work := d.work.push [(.staging, none)] })
          else (.error (.os .directoryNotEmpty), d)
      | none => (.error (.os .notFound), d)
  | .openLock =>
      if !d.workDir then (.error (.os .notFound), d)
      else if (d.work.view.lookup .lock).isSome then (.ok (), d)
      else (.ok (), d.newFile.assign (.work .lock) (some d.nextIno))
  | .lockFile => (.ok (), d)
  | .readStore =>
      if d.storeDir then
        (.ok ((if d.workDir then [(workDirName, false)] else []) ++
          d.store.view.entries.map fun e => (e.1, decide (e.2 ≠ .dir))), d)
      else (.error (.os .notFound), d)

/-- The primitive failing with the fault. -/
def performFault (o : Op) (f : Fault) (d : Disk) : Reply o × Disk :=
  match o with
  | .isDir _ => (false, d)
  | .storeExists => (.error (.os f.kind), d)
  | .workExists _ => (.error (.os f.kind), d)
  | .createDir _ => (.error (.os f.kind), d)
  | .syncDir _ => (.error (.os f.kind), d)
  | .isFile _ => (.error (.os f.kind), d)
  | .read _ => (.error (.os f.kind), d)
  | .createNew _ => (.error (.os f.kind), d)
  | .writeAll ino bytes =>
      (.error (.os f.kind), d.write ino (bytes.take f.written))
  | .syncAll _ => (.error (.os f.kind), d)
  | .rename _ _ => (.error (.os f.kind), d)
  | .removeFile _ => (.error (.os f.kind), d)
  | .readStaging => (.error (.os f.kind), d)
  | .removeStaging => (.error (.os f.kind), d)
  | .openLock => (.error (.os f.kind), d)
  | .lockFile => (.error (.os f.kind), d)
  | .readStore => (.error (.os f.kind), d)

def exec (o : Op) (fault : Option Fault) (d : Disk) : Reply o × Disk :=
  match fault with
  | none => perform o d
  | some f => performFault o f d

/-- The file system, with or without faults. -/
def files (faults : Bool) : Machine.Exec Op Reply Disk where
  Choice := Option Fault
  allowed := fun c => faults = true ∨ c = none
  exec := exec

def machine (faults : Bool) : Machine Op Reply Disk :=
  (files faults).machine

/-! ## Crashes -/

/-- What a crash leaves of the disk. -/
structure Crash (d d' : Disk) : Prop where
  outsideDir : d'.outsideDir = d.outsideDir
  storeDir : d'.storeDir = d.storeDir
  workDir : d'.workDir = d.workDir
  store : d.store.Crash d'.store
  work : d.work.Crash d'.work
  staging : ∀ s, (d.staging s).Crash (d'.staging s)
  data : ∀ i, d.synced i = true → d'.data i = d.data i
  synced : d'.synced = d.synced
  nextIno : d'.nextIno = d.nextIno

/-- What a reader of the store directory finds under a name. -/
inductive Content where
  | file (bytes : Bytes)
  | dir
  deriving DecidableEq

/-- The contents of the store directory, by label. -/
abbrev Contents := String → Option Content

def Disk.content (d : Disk) : Node → Content
  | .file ino => .file (d.data ino)
  | .dir => .dir

/-- The live entries. -/
def Disk.live (d : Disk) : Contents :=
  fun label => (d.store.view.lookup label).map d.content

end Connexa.Keystore.Filesystem
