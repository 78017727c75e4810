import Connexa.Keystore.Database.Calls

/-!
# The redb keystore

`RedbKeystore` of `keystore/store/redb.rs`.  The database has one table, which the
first write transaction makes.  Read transactions see the table as it was when
they began.
-/

namespace Connexa.Keystore.Database.Redb

open HashMap Machine
open Filesystem (Call)

/-! ## The database -/

/-- What a transaction asks of the table. -/
inductive Query where
  /-- `ReadTransaction::open_table`: false is `TableError::TableDoesNotExist`. -/
  | openTable
  /-- `WriteTransaction::open_table` makes the table if it is missing. -/
  | openOrCreateTable
  | insert (label : String) (bytes : Bytes)
  | remove (label : String)
  | get (label : String)
  | iter
  /-- Read the row behind the iterator. -/
  | next

@[reducible] def Answer : Query → Type
  | .openTable => Bool
  | .openOrCreateTable => Unit
  | .insert _ _ => Option Bytes
  | .remove _ => Option Bytes
  | .get _ => Option Bytes
  | .iter => List (String × Bytes)
  | .next => Unit

/-- The table `keys`, if there is one. -/
abbrev Table := Option (HashMap String Bytes)

def Table.rows (t : Table) : HashMap String Bytes :=
  t.getD ∅

def run : (q : Query) → Table → Answer q × Table
  | .openTable, t => (t.isSome, t)
  | .openOrCreateTable, t => ((), some t.rows)
  | .insert label bytes, t => (t.rows.lookup label, some (t.rows.insert label bytes))
  | .remove label, t => (t.rows.lookup label, some (t.rows.erase label))
  | .get label, t => (t.rows.lookup label, t)
  | .iter, t => (sortedEntries t.rows, t)
  | .next, t => ((), t)

/-! ## The methods -/

abbrev RedbM := DbM Answer

/-- Ask the table of the open transaction. -/
abbrev ask (q : Query) : RedbM (Answer q) :=
  query q

/-- Open the database, unless it is open. -/
def db : RedbM Unit :=
  prepare

/-- Hand the closure to `spawn_blocking`. -/
def spawnBlocking : RedbM Unit :=
  prepare

def put (serde : Serde Bytes) (entry : EncryptedEntry) : RedbM Unit := do
  db
  let bytes ← ofResult (serde.encode entry)
  let label := entry.metadata.label
  spawnBlocking
  beginWrite
  ask .openOrCreateTable
  let _ ← ask (.insert label bytes)
  let _ ← commit
  return ()

/-- The loop of `tx_fn`. -/
def insertAll (serde : Serde Bytes) : List EncryptedEntry → RedbM Unit
  | [] => return ()
  | entry :: entries => do
      let bytes ← ofResult (serde.encode entry)
      let _ ← ask (.insert entry.metadata.label bytes)
      insertAll serde entries

/-- `tx_fn` of `put_many`. -/
def writeAll (serde : Serde Bytes) (entries : List EncryptedEntry) : RedbM Unit := do
  ask .openOrCreateTable
  insertAll serde entries

def putMany (serde : Serde Bytes) (entries : List EncryptedEntry) : RedbM Unit := do
  db
  spawnBlocking
  beginWrite
  let written ← ExceptT.lift (writeAll serde entries).run
  match written with
  | .error e => abortAfter e
  | .ok () =>
      let _ ← commit
      return ()

def get (serde : Serde Bytes) (label : String) : RedbM (Option EncryptedEntry) := do
  db
  spawnBlocking
  beginRead
  if ← ask .openTable then
    decodeRow serde (← ask (.get label))
  else return none

/-- The loop of `list`. -/
def listRows (serde : Serde Bytes) : List (String × Bytes) → RedbM (List KeyMetadata)
  | [] => return []
  | (label, value) :: rows => do
      ask .next
      let metadata ← ofResult (rowMetadata serde label value)
      return metadata :: (← listRows serde rows)

def list (serde : Serde Bytes) : RedbM (List KeyMetadata) := do
  db
  spawnBlocking
  beginRead
  if ← ask .openTable then
    listRows serde (← ask .iter)
  else return []

def remove (label : String) : RedbM Bool := do
  db
  spawnBlocking
  beginWrite
  ask .openOrCreateTable
  let removed ← ask (.remove label)
  let existed := removed.isSome
  let _ ← commit
  return existed

def program (serde : Serde Bytes) : (call : Call) → RedbM call.Result
  | .put entry => put serde entry
  | .putMany entries => putMany serde entries
  | .get label => get serde label
  | .list => list serde
  | .remove label => remove label

/-- Calls of keystores on one database. -/
def system (serde : Serde Bytes) (torn : Prop) :
    TxSystem String Answer (fun call : Call => Except Error call.Result) Table where
  store := ⟨run, torn, False⟩
  program := fun call => (program serde call).run

/-! ## One call -/

variable {serde : Serde Bytes} {torn : Prop} {m : MemoryKeystore} {t : Table}
  {call : Call}

/-- The table holds the entries of the map. -/
def Rep (serde : Serde Bytes) (m : MemoryKeystore) (t : Table) : Prop :=
  Holds serde m t.rows

/-- The calls as those of a `MemoryKeystore`. -/
def view (serde : Serde Bytes) (torn : Prop) : Atomic (system serde torn) keystore :=
  seen (system serde torn) (Rep serde) fun _ => False

/-- A commit ends a call that returns as the map does. -/
theorem does_finish {a : call.Result} (hrep : Rep serde (call.answer m).2 t)
    (ha : call.Same (.ok a) (call.answer m).1) :
    Does (system serde torn) (Rep serde) (fun _ => False) call
      (fun a p => (view serde torn).Ending (.ok a) p)
      (do
        let _ ← commit
        return a) (.writing m t) := by
  refine (does_commit hrep).next ?_
  rintro b p (⟨-, rfl⟩ | ⟨-, hdeclines, -⟩)
  · exact does_pure trivial ha
  · exact hdeclines.elim

theorem fits_put (hserde : serde.Faithful) (entry : EncryptedEntry) :
    (view serde torn).Fits (.put entry) (put serde entry).run .before := by
  refine fits_of_does ((does_prepare (p := .before) trivial).next ?_)
  rintro _ _ rfl
  refine (does_ofResult (p := .before) trivial).next ?_
  rintro bytes _ ⟨hbytes, rfl⟩
  refine (does_prepare (p := .before) trivial).next ?_
  rintro _ _ rfl
  refine does_beginWrite.next ?_
  rintro _ _ ⟨m, t, hrep, rfl⟩
  refine does_query_writing.next ?_
  rintro _ _ ⟨-, rfl⟩
  refine does_query_writing.next ?_
  rintro _ _ ⟨-, rfl⟩
  exact does_finish (Holds.insert hrep (hserde entry bytes hbytes)) rfl

/-- The loop leaves the map with all the entries put in. -/
theorem does_insertAll (hserde : serde.Faithful) (entries : List EncryptedEntry)
    {m₀ : MemoryKeystore} (hrep : Rep serde m t) :
    Does (system serde torn) (Rep serde) (fun _ => False) call
      (fun _ p => ∃ t, Rep serde (m.putMany entries).2 t ∧ p = .writing m₀ t)
      (insertAll serde entries) (.writing m₀ t) := by
  induction entries generalizing m t with
  | nil => exact does_pure trivial ⟨t, hrep, rfl⟩
  | cons entry entries ih =>
      refine (does_ofResult (p := .writing m₀ t) trivial).next ?_
      rintro bytes _ ⟨hbytes, rfl⟩
      refine does_query_writing.next ?_
      rintro _ _ ⟨-, rfl⟩
      exact ih (Holds.insert hrep (hserde entry bytes hbytes))

theorem calls_writeAll (entries : List EncryptedEntry) :
    (writeAll serde entries).run.Calls fun o => ∃ q, o = .query q := by
  refine Prog.Calls.bindExcept (calls_query _) fun _ => ?_
  induction entries with
  | nil => trivial
  | cons entry entries ih =>
      exact Prog.Calls.bindExcept calls_ofResult fun _ =>
        Prog.Calls.bindExcept (calls_query _) fun _ => ih

theorem does_writeAll (hserde : serde.Faithful) (entries : List EncryptedEntry)
    (hrep : Rep serde m t) :
    Does (system serde torn) (Rep serde) (fun _ => False) call
      (fun _ p => ∃ t, Rep serde (m.putMany entries).2 t ∧ p = .writing m t)
      (writeAll serde entries) (.writing m t) := by
  refine does_query_writing.next ?_
  rintro _ _ ⟨-, rfl⟩
  exact does_insertAll hserde entries hrep

theorem fits_putMany (hserde : serde.Faithful) (entries : List EncryptedEntry) :
    (view serde torn).Fits (.putMany entries) (putMany serde entries).run .before := by
  refine fits_of_does ((does_prepare (p := .before) trivial).next ?_)
  rintro _ _ rfl
  refine (does_prepare (p := .before) trivial).next ?_
  rintro _ _ rfl
  refine does_beginWrite.next ?_
  rintro _ _ ⟨m, t, hrep, rfl⟩
  refine ((does_writeAll hserde entries hrep).lift (calls_writeAll entries)).next ?_
  rintro (e | _) p hwritten
  · -- the transaction is still open
    obtain ⟨⟨⟨text, rfl⟩, -⟩, t', rfl⟩ := hwritten
    exact does_abortAfter
  · obtain ⟨⟨t', hrep', rfl⟩, -⟩ := hwritten
    exact does_finish hrep' rfl

theorem fits_get (label : String) :
    (view serde torn).Fits (.get label) (get serde label).run .before := by
  refine fits_of_does ((does_prepare (p := .before) trivial).next ?_)
  rintro _ _ rfl
  refine (does_prepare (p := .before) trivial).next ?_
  rintro _ _ rfl
  refine (does_beginRead fun _ => rfl).next ?_
  rintro _ _ ⟨m, t, hrep, rfl⟩
  refine does_query_reading.next ?_
  rintro _ _ ⟨rfl, rfl⟩
  cases t with
  | none =>
      have hnone : m.lookup label = none := Holds.lookup_none hrep rfl
      refine does_pure trivial (Or.inl ?_)
      simp only [Call.answer, MemoryKeystore.get, hnone]
      exact rfl
  | some rows =>
      refine does_query_reading.next ?_
      rintro found _ ⟨hfound, rfl⟩
      exact does_decodeRow hrep hfound

/-- The rows that are read are those of the map. -/
theorem does_listRows {r : Except Error call.Result} (hrep : Rep serde m t) :
    ∀ rows : List (String × Bytes),
      (∀ row ∈ rows, t.rows.lookup row.1 = some row.2) →
      Does (system serde torn) (Rep serde) (fun _ => False) call
        (fun metadata p => metadata = (rows.filterMap fun row =>
          (m.lookup row.1).map EncryptedEntry.metadata) ∧ p = .reading t r)
        (listRows serde rows) (.reading t r)
  | [], _ => does_pure trivial ⟨rfl, rfl⟩
  | (label, value) :: rows, hrows => by
      obtain ⟨e, he, hmetadata⟩ :=
        Holds.rowMetadata hrep (hrows (label, value) List.mem_cons_self)
      refine does_query_reading.next ?_
      rintro _ _ ⟨-, rfl⟩
      refine (does_ofResult (p := .reading t r) trivial).next ?_
      rintro metadata _ ⟨hread, rfl⟩
      rw [hmetadata] at hread
      cases hread
      refine (does_listRows hrep rows fun row hrow =>
        hrows row (List.mem_cons_of_mem _ hrow)).next ?_
      rintro rest _ ⟨rfl, rfl⟩
      refine does_pure trivial ⟨?_, rfl⟩
      simp [he]

theorem fits_list :
    (view serde torn).Fits .list (list serde).run .before := by
  refine fits_of_does ((does_prepare (p := .before) trivial).next ?_)
  rintro _ _ rfl
  refine (does_prepare (p := .before) trivial).next ?_
  rintro _ _ rfl
  refine (does_beginRead fun _ => rfl).next ?_
  rintro _ _ ⟨m, t, hrep, rfl⟩
  refine does_query_reading.next ?_
  rintro _ _ ⟨rfl, rfl⟩
  cases t with
  | none => exact does_pure trivial (Or.inl (Holds.listed_perm hrep (.refl [])))
  | some rows =>
      refine does_query_reading.next ?_
      rintro _ _ ⟨rfl, rfl⟩
      have hsorted := sortedEntries_perm rows
      refine (does_listRows hrep (sortedEntries rows) fun row hrow => ?_).mono ?_
      · exact lookup_eq_some_iff.mpr (mem_sortedEntries.mp hrow)
      · rintro metadata _ ⟨rfl, rfl⟩
        exact Or.inl (Holds.listed_perm hrep hsorted)

theorem fits_remove (label : String) :
    (view serde torn).Fits (.remove label) (remove label).run .before := by
  refine fits_of_does ((does_prepare (p := .before) trivial).next ?_)
  rintro _ _ rfl
  refine (does_prepare (p := .before) trivial).next ?_
  rintro _ _ rfl
  refine does_beginWrite.next ?_
  rintro _ _ ⟨m, t, hrep, rfl⟩
  refine does_query_writing.next ?_
  rintro _ _ ⟨-, rfl⟩
  refine does_query_writing.next ?_
  rintro _ _ ⟨rfl, rfl⟩
  refine does_finish (Holds.erase hrep label) ?_
  exact congrArg Except.ok (Holds.isSome_lookup hrep label)

theorem fits_program (hserde : serde.Faithful) (call : Call) :
    (view serde torn).Fits call ((system serde torn).program call) .before := by
  cases call with
  | put entry => exact fits_put hserde entry
  | putMany entries => exact fits_putMany hserde entries
  | get label => exact fits_get label
  | list => exact fits_list
  | remove label => exact fits_remove label

/-! ## Runs -/

/-- Keystores on one redb database are to their callers a `MemoryKeystore` whose
calls may fail.  Let any number of calls run, their operations in any order, each
of which may fail, and let calls be given up at any point.  Every result is then
one that the map gives between the start and the end of the call, or an error of
the backend; a call that fails has changed nothing, unless it is its commit that
failed and failed commits may have been carried out; and the table holds the
entries of the map at all times. -/
theorem redb_refines_memory (hserde : serde.Faithful) (ht : Rep serde m t)
    {s : (system serde torn).State} (hs : (system serde torn).Reachable t s) :
    ∃ a, (view serde torn).failures.Reachable m a ∧
      List.Forall₂ (JobEvent.Same Call.Same) s.history a.history ∧
      Rep serde a.value s.committed := by
  obtain ⟨a, ha, hsim⟩ := (view serde torn).refines (fun _ => trivial)
    (fits_program hserde) ht hs
  exact ⟨a, ha, hsim.history, hsim.rep⟩

/-- A removal whose commit fails after all. -/
theorem redb_refines_memory_tornRemoval :
    ∃ s : (system sampleSerde True).State,
      (system sampleSerde True).Reachable (some sampleRows) s ∧
      s.history = [.called 0 (.remove "a"),
        .returned 0 (.remove "a") (.error (backend "disk full")),
        .called 1 (.get "a"), .returned 1 (.get "a") (.ok none)] ∧
      ∃ a, (view sampleSerde True).failures.Reachable sampleMap a ∧
        List.Forall₂ (JobEvent.Same Call.Same) s.history a.history ∧
        Rep sampleSerde a.value s.committed := by
  have hcall : (system sampleSerde True).Reachable (some sampleRows) _ :=
    .single (.call 0 (Call.remove "a") rfl)
  have hopened := hcall.tail
    (.run (i := 0) (o := .prepare) (r := .ok ()) rfl nofun ⟨rfl, rfl⟩)
  have hspawned := hopened.tail
    (.run (i := 0) (o := .prepare) (r := .ok ()) rfl nofun ⟨rfl, rfl⟩)
  have hbegun := hspawned.tail (.run (i := 0) (o := .beginWrite) (r := .ok ()) rfl
    (fun _ => TxSystem.not_writes_alone (i := 0) rfl nofun fun k hk => by simp [hk]; rfl)
    ⟨rfl, rfl, rfl⟩)
  have htable := hbegun.tail (.run (i := 0) (o := .query .openOrCreateTable)
    (r := .ok ()) rfl nofun ⟨rfl, rfl, rfl⟩)
  have hremoved := htable.tail (.run (i := 0) (o := .query (.remove "a"))
    (r := .ok (sampleRows.lookup "a")) rfl nofun ⟨rfl, rfl, rfl⟩)
  have hfailed := hremoved.tail (.run (i := 0) (o := .commit)
    (r := .error "disk full") rfl nofun ⟨Or.inr ⟨trivial, rfl⟩, rfl⟩)
  have hreturned := hfailed.tail (.finish (i := 0) rfl)
  have hget := hreturned.tail (.call 1 (Call.get "a") rfl)
  have hopened' := hget.tail
    (.run (i := 1) (o := .prepare) (r := .ok ()) rfl nofun ⟨rfl, rfl⟩)
  have hspawned' := hopened'.tail
    (.run (i := 1) (o := .prepare) (r := .ok ()) rfl nofun ⟨rfl, rfl⟩)
  have hbegun' := hspawned'.tail
    (.run (i := 1) (o := .beginRead) (r := .ok ()) rfl nofun ⟨rfl, rfl, rfl⟩)
  have htable' := hbegun'.tail (.run (i := 1) (o := .query .openTable)
    (r := .ok true) rfl nofun ⟨rfl, rfl, rfl⟩)
  have hgot := htable'.tail (.run (i := 1) (o := .query (.get "a"))
    (r := .ok none) rfl nofun ⟨rfl, rfl, rfl⟩)
  have hs := hgot.tail (.finish (i := 1) rfl)
  exact ⟨_, hs, rfl, redb_refines_memory (m := sampleMap) (t := some sampleRows)
    sampleSerde_faithful holds_sample hs⟩

end Connexa.Keystore.Database.Redb
