import Connexa.Keystore.Database.Calls

/-!
# The SQLite keystore

`SqliteKeystore` of `keystore/store/sqlite.rs`.  A statement that is not in a
transaction is one of its own.  A transaction that `begin` starts takes its turn
to write with its first statement.
-/

namespace Connexa.Keystore.Database.Sqlite

open HashMap Machine
open Filesystem (Call)

/-! ## The database -/

/-- The statements on the table `keys`. -/
inductive Query where
  /-- `INSERT OR REPLACE INTO keys (label, data) VALUES (?1, ?2)`. -/
  | insertOrReplace (label : String) (data : Bytes)
  /-- `SELECT data FROM keys WHERE label = ?1`. -/
  | select (label : String)
  /-- `SELECT label, data FROM keys`. -/
  | selectAll
  /-- `DELETE FROM keys WHERE label = ?1`: the number of rows. -/
  | delete (label : String)

@[reducible] def Answer : Query → Type
  | .insertOrReplace _ _ => Unit
  | .select _ => Option Bytes
  | .selectAll => List (String × Bytes)
  | .delete _ => ℕ

abbrev Table := HashMap String Bytes

def run : (q : Query) → Table → Answer q × Table
  | .insertOrReplace label data, t => ((), t.insert label data)
  | .select label, t => (t.lookup label, t)
  | .selectAll, t => (t.entries.map fun e => (e.1, e.2), t)
  | .delete label, t => (if (t.lookup label).isSome then 1 else 0, t.erase label)

/-! ## The methods -/

abbrev SqliteM := DbM Answer

/-- Connect and create the table, unless that is done. -/
def pool : SqliteM Unit :=
  prepare

/-- A statement in the open transaction. -/
abbrev executeIn (q : Query) : SqliteM (Answer q) :=
  query q

/-- A writing statement on the pool. -/
def execute (q : Query) : SqliteM (Answer q) := do
  beginWrite
  let rows ← query q
  let _ ← commit
  return rows

/-- A reading statement on the pool. -/
def fetch (q : Query) : SqliteM (Answer q) := do
  beginRead
  query q

def put (serde : Serde Bytes) (entry : EncryptedEntry) : SqliteM Unit := do
  pool
  let bytes ← ofResult (serde.encode entry)
  execute (.insertOrReplace entry.metadata.label bytes)

/-- The loop of `put_many`. -/
def insertAll (serde : Serde Bytes) : List EncryptedEntry → SqliteM Unit
  | [] => return ()
  | entry :: entries => do
      let bytes ← ofResult (serde.encode entry)
      executeIn (.insertOrReplace entry.metadata.label bytes)
      insertAll serde entries

def putMany (serde : Serde Bytes) (entries : List EncryptedEntry) : SqliteM Unit := do
  pool
  beginDeferred
  insertAll serde entries
  let _ ← commit
  return ()

def get (serde : Serde Bytes) (label : String) : SqliteM (Option EncryptedEntry) := do
  pool
  decodeRow serde (← fetch (.select label))

def list (serde : Serde Bytes) : SqliteM (List KeyMetadata) := do
  pool
  let rows ← fetch .selectAll
  ofResult (rowsMetadata serde rows)

def remove (label : String) : SqliteM Bool := do
  pool
  let rowsAffected : ℕ ← execute (.delete label)
  return rowsAffected > 0

def program (serde : Serde Bytes) : (call : Call) → SqliteM call.Result
  | .put entry => put serde entry
  | .putMany entries => putMany serde entries
  | .get label => get serde label
  | .list => list serde
  | .remove label => remove label

/-- Calls of keystores on one database. -/
def system (serde : Serde Bytes) (torn : Prop) :
    TxSystem String Answer (fun call : Call => Except Error call.Result) Table where
  store := ⟨run, torn, False⟩
  program := fun call => (program serde call).run

/-! ## One call -/

variable {serde : Serde Bytes} {torn : Prop} {m : MemoryKeystore} {t : Table}
  {call : Call}

/-- The calls as those of a `MemoryKeystore`. -/
def view (serde : Serde Bytes) (torn : Prop) : Atomic (system serde torn) keystore :=
  seen (system serde torn) (Holds serde) fun _ => False

/-- A writing statement is a transaction of its own. -/
theorem does_execute {q : Query}
    (hrep : ∀ m t, Holds serde m t → Holds serde (call.answer m).2 (run q t).2) :
    Does (system serde torn) (Holds serde) (fun _ => False) call
      (fun rows p => ∃ m t, Holds serde m t ∧ rows = (run q t).1 ∧
        p = .after (call.answer m).1) (execute q) .before := by
  refine does_beginWrite.next ?_
  rintro _ _ ⟨m, t, h, rfl⟩
  refine does_query_writing.next ?_
  rintro rows _ ⟨rfl, rfl⟩
  refine (does_commit (hrep m t h)).next ?_
  rintro b p (⟨-, rfl⟩ | ⟨-, hdeclines, -⟩)
  · exact does_pure trivial ⟨m, t, h, rfl, rfl⟩
  · exact hdeclines.elim

theorem does_fetch {q : Query} (hread : keystore.ReadOnly call) :
    Does (system serde torn) (Holds serde) (fun _ => False) call
      (fun rows p => ∃ m t, Holds serde m t ∧ rows = (run q t).1 ∧
        p = .reading t (call.answer m).1) (fetch q) .before := by
  refine (does_beginRead hread).next ?_
  rintro _ _ ⟨m, t, h, rfl⟩
  refine does_query_reading.mono ?_
  rintro rows _ ⟨rfl, rfl⟩
  exact ⟨m, t, h, rfl, rfl⟩

theorem fits_put (hserde : serde.Faithful) (entry : EncryptedEntry) :
    (view serde torn).Fits (.put entry) (put serde entry).run .before := by
  refine fits_of_does ((does_prepare (p := .before) trivial).next ?_)
  rintro _ _ rfl
  refine (does_ofResult (p := .before) trivial).next ?_
  rintro bytes _ ⟨hbytes, rfl⟩
  have hinsert : ∀ m t, Holds serde m t → Holds serde ((Call.put entry).answer m).2
      (run (.insertOrReplace entry.metadata.label bytes) t).2 :=
    fun m t h => h.insert (hserde entry bytes hbytes)
  refine (does_execute hinsert).mono ?_
  rintro _ _ ⟨m, t, -, -, rfl⟩
  exact rfl

/-- The loop, from inside the transaction. -/
theorem does_insertAll (hserde : serde.Faithful) (entries : List EncryptedEntry)
    {m₀ : MemoryKeystore} (h : Holds serde m t) :
    Does (system serde torn) (Holds serde) (fun _ => False) call
      (fun _ p => ∃ t, Holds serde (m.putMany entries).2 t ∧ p = .writing m₀ t)
      (insertAll serde entries) (.writing m₀ t) := by
  induction entries generalizing m t with
  | nil => exact does_pure trivial ⟨t, h, rfl⟩
  | cons entry entries ih =>
      refine (does_ofResult (p := .writing m₀ t) trivial).next ?_
      rintro bytes _ ⟨hbytes, rfl⟩
      refine does_query_writing.next ?_
      rintro _ _ ⟨-, rfl⟩
      exact ih (h.insert (hserde entry bytes hbytes))

theorem fits_putMany (hserde : serde.Faithful) (entries : List EncryptedEntry) :
    (view serde torn).Fits (.putMany entries) (putMany serde entries).run .before := by
  refine fits_of_does ((does_prepare (p := .before) trivial).next ?_)
  rintro _ _ rfl
  refine does_beginDeferred.next ?_
  rintro _ _ rfl
  cases entries with
  | nil =>
      refine (does_commit_deferred fun _ => rfl).next ?_
      rintro b p (⟨-, m, rfl⟩ | ⟨-, hdeclines⟩)
      · exact does_pure trivial rfl
      · exact hdeclines.elim
  | cons entry entries =>
      have hinserted : Does (system serde torn) (Holds serde) (fun _ => False)
          (.putMany (entry :: entries))
          (fun _ p => ∃ m t, Holds serde (m.putMany (entry :: entries)).2 t ∧
            p = .writing m t) (insertAll serde (entry :: entries)) .deferred := by
        refine (does_ofResult (p := .deferred) trivial).next ?_
        rintro bytes _ ⟨hbytes, rfl⟩
        refine does_query_deferred.next ?_
        rintro _ _ ⟨m, t, h, -, rfl⟩
        refine (does_insertAll hserde entries
          (h.insert (hserde entry bytes hbytes))).mono ?_
        rintro _ _ ⟨t', h', rfl⟩
        exact ⟨m, t', h', rfl⟩
      refine hinserted.next ?_
      rintro _ _ ⟨m, t, h, rfl⟩
      refine (does_commit h).next ?_
      rintro b p (⟨-, rfl⟩ | ⟨-, hdeclines, -⟩)
      · exact does_pure trivial rfl
      · exact hdeclines.elim

theorem fits_get (label : String) :
    (view serde torn).Fits (.get label) (get serde label).run .before := by
  refine fits_of_does ((does_prepare (p := .before) trivial).next ?_)
  rintro _ _ rfl
  refine (does_fetch fun _ => rfl).next ?_
  rintro row _ ⟨m, t, h, hrow, rfl⟩
  exact does_decodeRow h hrow

theorem fits_list : (view serde torn).Fits .list (list serde).run .before := by
  refine fits_of_does ((does_prepare (p := .before) trivial).next ?_)
  rintro _ _ rfl
  refine (does_fetch fun _ => rfl).next ?_
  rintro rows _ ⟨m, t, h, rfl, rfl⟩
  have hlookup : ∀ row ∈ (run .selectAll t).1, t.lookup row.1 = some row.2 := by
    intro row hrow
    obtain ⟨e, he, rfl⟩ := List.mem_map.mp hrow
    exact lookup_eq_some_iff.mpr he
  refine (does_ofResult (p := .reading t _) trivial).mono ?_
  rintro metadata _ ⟨hmetadata, rfl⟩
  rw [h.rowsMetadata _ hlookup] at hmetadata
  cases hmetadata
  exact Or.inl (h.listed_perm (.refl _))

theorem fits_remove (label : String) :
    (view serde torn).Fits (.remove label) (remove label).run .before := by
  refine fits_of_does ((does_prepare (p := .before) trivial).next ?_)
  rintro _ _ rfl
  have herase : ∀ m t, Holds serde m t → Holds serde ((Call.remove label).answer m).2
      (run (.delete label) t).2 := fun m t h => h.erase label
  refine (does_execute herase).next ?_
  rintro rows _ ⟨m, t, h, rfl, rfl⟩
  refine does_pure trivial (congrArg Except.ok ?_)
  rw [← h.isSome_lookup label]
  simp only [run]
  by_cases hsome : (t.lookup label).isSome = true
  · simp only [hsome, if_true]
    exact rfl
  · simp only [hsome]
    exact rfl

theorem fits_program (hserde : serde.Faithful) (call : Call) :
    (view serde torn).Fits call ((system serde torn).program call) .before := by
  cases call with
  | put entry => exact fits_put hserde entry
  | putMany entries => exact fits_putMany hserde entries
  | get label => exact fits_get label
  | list => exact fits_list
  | remove label => exact fits_remove label

/-! ## Runs -/

/-- Keystores on one SQLite database are to their callers a `MemoryKeystore` whose
calls may fail, whatever the order of the statements, the faults and the calls that
are given up.  In particular a batch that is dropped or fails before its commit is
not there at all. -/
theorem sqlite_refines_memory (hserde : serde.Faithful) (ht : Holds serde m t)
    {s : (system serde torn).State} (hs : (system serde torn).Reachable t s) :
    ∃ a, (view serde torn).failures.Reachable m a ∧
      List.Forall₂ (JobEvent.Same Call.Same) s.history a.history ∧
      Holds serde a.value s.committed := by
  obtain ⟨a, ha, hsim⟩ := (view serde torn).refines (fun _ => trivial)
    (fits_program hserde) ht hs
  exact ⟨a, ha, hsim.history, hsim.rep⟩

/-- A list that does not see the removal in progress. -/
theorem sqlite_refines_memory_removal :
    ∃ s : (system sampleSerde False).State,
      (system sampleSerde False).Reachable sampleRows s ∧
      s.history = [.called 0 (.remove "a"), .called 1 .list,
        .returned 1 .list (.ok [Filesystem.sampleEntry.metadata]),
        .returned 0 (.remove "a") (.ok true)] ∧
      ∃ a, (view sampleSerde False).failures.Reachable sampleMap a ∧
        List.Forall₂ (JobEvent.Same Call.Same) s.history a.history ∧
        Holds sampleSerde a.value s.committed := by
  have hremove : (system sampleSerde False).Reachable sampleRows _ :=
    .single (.call 0 (Call.remove "a") rfl)
  have hpool := hremove.tail
    (.run (i := 0) (o := .prepare) (r := .ok ()) rfl nofun ⟨rfl, rfl⟩)
  have hbegun := hpool.tail (.run (i := 0) (o := .beginWrite) (r := .ok ()) rfl
    (fun _ => TxSystem.not_writes_alone (i := 0) rfl nofun fun k hk => by simp [hk]; rfl)
    ⟨rfl, rfl, rfl⟩)
  have hdeleted := hbegun.tail (.run (i := 0) (o := .query (.delete "a"))
    (r := .ok (1 : ℕ)) rfl nofun ⟨rfl, rfl, rfl⟩)
  have hlist := hdeleted.tail (.call 1 Call.list rfl)
  have hpool' := hlist.tail
    (.run (i := 1) (o := .prepare) (r := .ok ()) rfl nofun ⟨rfl, rfl⟩)
  have hbegun' := hpool'.tail
    (.run (i := 1) (o := .beginRead) (r := .ok ()) rfl nofun ⟨rfl, rfl, rfl⟩)
  have hrows := hbegun'.tail (.run (i := 1) (o := .query .selectAll)
    (r := .ok [("a", Filesystem.sampleEntryBytes)]) rfl nofun ⟨rfl, rfl, rfl⟩)
  have hlisted := hrows.tail (.finish (i := 1) rfl)
  have hcommitted := hlisted.tail (.run (i := 0) (o := .commit)
    (r := .ok true) rfl nofun ⟨nofun, rfl, rfl⟩)
  have hs := hcommitted.tail (.finish (i := 0) rfl)
  exact ⟨_, hs, rfl, sqlite_refines_memory sampleSerde_faithful holds_sample hs⟩

end Connexa.Keystore.Database.Sqlite
