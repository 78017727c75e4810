import Connexa.Keystore.Database.Calls

/-!
# The IndexedDB keystore

`IndexedDbKeystore` of `keystore/store/indexeddb.rs`.  A transaction runs when the
earlier ones on its object store have ended, and the browser may abort it when it
is to be committed.  A batch looks whether that has happened; a removal does not.
-/

namespace Connexa.Keystore.Database.IndexedDb

open HashMap Machine
open Filesystem (Call)

variable {V : Type}

/-! ## The object store -/

/-- The requests of a transaction on the object store `keys`. -/
inductive Query (V : Type) where
  | objectStore
  | put (key : String) (value : V)
  | get (key : String)
  | getAll
  | getAllKeys
  | count (key : String)
  | delete (key : String)

@[reducible] def Answer : Query V → Type
  | .objectStore => Unit
  | .put _ _ => Unit
  | .get _ => Option V
  | .getAll => List V
  | .getAllKeys => List String
  | .count _ => ℕ
  | .delete _ => Unit

abbrev Store (V : Type) := HashMap String V

/-- Values and keys come in the order of the keys. -/
def run : (q : Query V) → Store V → Answer q × Store V
  | .objectStore, t => ((), t)
  | .put key value, t => ((), t.insert key value)
  | .get key, t => (t.lookup key, t)
  | .getAll, t => ((sortedEntries t).map Prod.snd, t)
  | .getAllKeys, t => ((sortedEntries t).map Prod.fst, t)
  | .count key, t => (if (t.lookup key).isSome then 1 else 0, t)
  | .delete key, t => ((), t.erase key)

/-! ## The methods -/

abbrev IdbM (V : Type) := DbM (@Answer V)

/-- A request of the open transaction. -/
abbrev request (q : Query V) : IdbM V (Answer q) :=
  query q

/-- Open the database, unless it is open. -/
def db : IdbM V Unit :=
  prepare

/-- The values of a batch, before the transaction. -/
def prepared (serde : Serde V) :
    List EncryptedEntry → Except String (List (String × V))
  | [] => return []
  | entry :: entries => do
      let value ← serde.encode entry
      return (entry.metadata.label, value) :: (← prepared serde entries)

/-- Queue all writes. -/
def queueAll : List (String × V) → IdbM V Unit
  | [] => return ()
  | (key, value) :: rest => do
      request (.put key value)
      queueAll rest

def queued (rows : List (String × V)) : IdbM V Unit := do
  request .objectStore
  queueAll rows

def putMany (serde : Serde V) (entries : List EncryptedEntry) : IdbM V Unit := do
  let rows ← ofResult (prepared serde entries)
  db
  beginWrite
  let queued ← ExceptT.lift (queued rows).run
  match queued with
  | .error error => abortAfter error
  | .ok () =>
      let isCommitted : Bool ← commit
      if !isCommitted then throw (backend "IndexedDB batch transaction aborted")
      else return ()

def put (serde : Serde V) (entry : EncryptedEntry) : IdbM V Unit :=
  putMany serde [entry]

def get (serde : Serde V) (label : String) : IdbM V (Option EncryptedEntry) := do
  db
  beginRead
  request .objectStore
  decodeRow serde (← request (.get label))

def list (serde : Serde V) : IdbM V (List KeyMetadata) := do
  db
  beginRead
  request .objectStore
  let values : List V ← request .getAll
  let keys : List String ← request .getAllKeys
  if keys.length ≠ values.length then
    throw (backend "key entry count does not match its key count")
  else ofResult (rowsMetadata serde (keys.zip values))

def remove (label : String) : IdbM V Bool := do
  db
  beginWrite
  request .objectStore
  let count : ℕ ← request (.count label)
  let existed := decide (count > 0)
  request (.delete label)
  let _ ← commit
  return existed

def program (serde : Serde V) : (call : Call) → IdbM V call.Result
  | .put entry => put serde entry
  | .putMany entries => putMany serde entries
  | .get label => get serde label
  | .list => list serde
  | .remove label => remove label

/-- Calls of keystores on one database.  A commit may be declined if
`declines`. -/
def system (serde : Serde V) (torn declines : Prop) :
    TxSystem String (@Answer V) (fun call : Call => Except Error call.Result)
      (Store V) where
  store := ⟨run, torn, declines⟩
  program := fun call => (program serde call).run

/-! ## One call -/

/-- A call that does not look whether it was committed. -/
def Quiet : Call → Prop
  | .remove _ => True
  | _ => False

/-- The calls as those of a `MemoryKeystore`. -/
def view (serde : Serde V) (torn declines : Prop) :
    Atomic (system serde torn declines) keystore :=
  seen (system serde torn declines) (Holds serde) Quiet

variable {serde : Serde V} {torn declines : Prop} {m m₀ : MemoryKeystore}
  {t : Store V} {call : Call}

/-- The queue of writes puts the entries into the map. -/
theorem does_queueAll (hserde : serde.Faithful) {entries : List EncryptedEntry}
    {rows : List (String × V)} (hrows : prepared serde entries = .ok rows)
    (h : Holds serde m t) :
    Does (system serde torn declines) (Holds serde) Quiet call
      (fun _ p => ∃ t, Holds serde (m.putMany entries).2 t ∧ p = .writing m₀ t)
      (queueAll rows) (.writing m₀ t) := by
  induction entries generalizing m t rows with
  | nil =>
      cases hrows
      exact does_pure trivial ⟨t, h, rfl⟩
  | cons entry entries ih =>
      rw [prepared] at hrows
      cases hvalue : serde.encode entry with
      | error text =>
          rw [hvalue] at hrows
          cases hrows
      | ok value =>
          cases hrest : prepared serde entries with
          | error text =>
              rw [hvalue, hrest] at hrows
              cases hrows
          | ok rest =>
              rw [hvalue, hrest] at hrows
              cases hrows
              refine does_query_writing.next ?_
              rintro _ _ ⟨-, rfl⟩
              exact ih hrest (h.insert (hserde entry value hvalue))

theorem calls_queued (rows : List (String × V)) :
    (queued rows).run.Calls fun o => ∃ q, o = .query q := by
  refine Prog.Calls.bindExcept (calls_query _) fun _ => ?_
  induction rows with
  | nil => trivial
  | cons row rows ih => exact Prog.Calls.bindExcept (calls_query _) fun _ => ih

/-- A batch, for any call that puts its entries in. -/
theorem does_putMany (hserde : serde.Faithful) {entries : List EncryptedEntry}
    (hquiet : ¬Quiet call) (hcall : ∀ m, (call.answer m).2 = (m.putMany entries).2) :
    Does (system serde torn declines) (Holds serde) Quiet call
      (fun _ p => ∃ m, p = .after (call.answer m).1) (putMany serde entries)
      .before := by
  refine (does_ofResult (p := .before) trivial).next ?_
  rintro rows _ ⟨hrows, rfl⟩
  refine (does_prepare (p := .before) trivial).next ?_
  rintro _ _ rfl
  refine does_beginWrite.next ?_
  rintro _ _ ⟨m, t, h, rfl⟩
  have hqueued : Does (system serde torn declines) (Holds serde) Quiet call
      (fun _ p => ∃ t, Holds serde (m.putMany entries).2 t ∧ p = .writing m t)
      (queued rows) (.writing m t) := by
    refine does_query_writing.next ?_
    rintro _ _ ⟨-, rfl⟩
    exact does_queueAll hserde hrows h
  refine (hqueued.lift (calls_queued rows)).next ?_
  rintro (e | _) p hwritten
  · -- the transaction is still open
    obtain ⟨⟨⟨text, rfl⟩, -⟩, t', rfl⟩ := hwritten
    exact does_abortAfter
  · obtain ⟨⟨t', h', rfl⟩, -⟩ := hwritten
    rw [← hcall] at h'
    refine (does_commit h').next ?_
    rintro b p (⟨rfl | ⟨-, hquiet'⟩, rfl⟩ | ⟨rfl, -, -, rfl⟩)
    · exact does_pure trivial ⟨m, rfl⟩
    · exact absurd hquiet' hquiet
    · exact does_throw (p := .before) trivial

theorem fits_putMany (hserde : serde.Faithful) (entries : List EncryptedEntry) :
    (view serde torn declines).Fits (.putMany entries)
      (putMany serde entries).run .before := by
  refine fits_of_does ((does_putMany hserde id fun _ => rfl).mono ?_)
  rintro _ _ ⟨m, rfl⟩
  exact rfl

theorem fits_put (hserde : serde.Faithful) (entry : EncryptedEntry) :
    (view serde torn declines).Fits (.put entry) (put serde entry).run .before := by
  have hput : ∀ m, ((Call.put entry).answer m).2 = (m.putMany [entry]).2 :=
    fun _ => rfl
  refine fits_of_does ((does_putMany hserde id hput).mono ?_)
  rintro _ _ ⟨m, rfl⟩
  exact rfl

theorem fits_get (label : String) :
    (view serde torn declines).Fits (.get label) (get serde label).run .before := by
  refine fits_of_does ((does_prepare (p := .before) trivial).next ?_)
  rintro _ _ rfl
  refine (does_beginRead fun _ => rfl).next ?_
  rintro _ _ ⟨m, t, h, rfl⟩
  refine does_query_reading.next ?_
  rintro _ _ ⟨-, rfl⟩
  refine does_query_reading.next ?_
  rintro found _ ⟨hfound, rfl⟩
  exact does_decodeRow h hfound

theorem fits_list :
    (view serde torn declines).Fits .list (list serde).run .before := by
  refine fits_of_does ((does_prepare (p := .before) trivial).next ?_)
  rintro _ _ rfl
  refine (does_beginRead fun _ => rfl).next ?_
  rintro _ _ ⟨m, t, h, rfl⟩
  refine does_query_reading.next ?_
  rintro _ _ ⟨-, rfl⟩
  refine does_query_reading.next ?_
  rintro values _ ⟨hvalues, rfl⟩
  refine does_query_reading.next ?_
  rintro keys _ ⟨hkeys, rfl⟩
  change keys = (sortedEntries t).map Prod.fst at hkeys
  change values = (sortedEntries t).map Prod.snd at hvalues
  have hrows : keys.zip values = sortedEntries t := by
    rw [hkeys, hvalues, List.zip_map']
    exact List.map_id _
  have hlength : ¬keys.length ≠ values.length := by
    simp [hkeys, hvalues]
  have hlookup : ∀ row ∈ sortedEntries t, t.lookup row.1 = some row.2 :=
    fun row hrow => lookup_eq_some_iff.mpr (mem_sortedEntries.mp hrow)
  rw [if_neg hlength, hrows]
  refine (does_ofResult (p := .reading t _) trivial).mono ?_
  rintro metadata _ ⟨hmetadata, rfl⟩
  rw [h.rowsMetadata _ hlookup] at hmetadata
  cases hmetadata
  exact Or.inl (h.listed_perm (sortedEntries_perm t))

theorem fits_remove (label : String) :
    (view serde torn declines).Fits (.remove label) (remove label : IdbM V Bool).run
      .before := by
  refine fits_of_does ((does_prepare (p := .before) trivial).next ?_)
  rintro _ _ rfl
  refine does_beginWrite.next ?_
  rintro _ _ ⟨m, t, h, rfl⟩
  refine does_query_writing.next ?_
  rintro _ _ ⟨-, rfl⟩
  refine does_query_writing.next ?_
  rintro count _ ⟨hcount, rfl⟩
  refine does_query_writing.next ?_
  rintro _ _ ⟨-, rfl⟩
  refine (does_commit (h.erase label)).next ?_
  rintro b p (⟨-, rfl⟩ | ⟨-, -, hquiet, -⟩)
  · refine does_pure trivial (congrArg Except.ok ?_)
    rw [← h.isSome_lookup label, hcount]
    simp only [system, run]
    by_cases hsome : (t.lookup label).isSome = true
    · simp only [hsome, if_true]
      exact rfl
    · simp only [hsome]
      exact rfl
  · exact absurd trivial hquiet

theorem fits_program (hserde : serde.Faithful) (call : Call) :
    (view serde torn declines).Fits call ((system serde torn declines).program call)
      .before := by
  cases call with
  | put entry => exact fits_put hserde entry
  | putMany entries => exact fits_putMany hserde entries
  | get label => exact fits_get label
  | list => exact fits_list
  | remove label => exact fits_remove label

/-! ## Runs -/

/-- Keystores on one IndexedDB database are to their callers a `MemoryKeystore`
whose calls may fail, but for one thing: a removal whose transaction the browser
aborts at its commit gives the answer of the map and changes nothing. -/
theorem indexeddb_refines_memory (hserde : serde.Faithful) (ht : Holds serde m t)
    {s : (system serde torn declines).State}
    (hs : (system serde torn declines).Reachable t s) :
    ∃ a, (view serde torn declines).failures.Reachable m a ∧
      List.Forall₂ (JobEvent.Same Call.Same) s.history a.history ∧
      Holds serde a.value s.committed := by
  obtain ⟨a, ha, hsim⟩ := (view serde torn declines).refines (fun _ => trivial)
    (fits_program hserde) ht hs
  exact ⟨a, ha, hsim.history, hsim.rep⟩

/-- A removal that the browser aborts, and that says it has removed the entry. -/
theorem indexeddb_refines_memory_abortedRemoval :
    ∃ s : (system sampleSerde False True).State,
      (system sampleSerde False True).Reachable sampleRows s ∧
      s.history = [.called 0 (.remove "a"), .returned 0 (.remove "a") (.ok true),
        .called 1 (.get "a"),
        .returned 1 (.get "a") (.ok (some Filesystem.sampleEntry))] ∧
      ∃ a, (view sampleSerde False True).failures.Reachable sampleMap a ∧
        List.Forall₂ (JobEvent.Same Call.Same) s.history a.history ∧
        Holds sampleSerde a.value s.committed := by
  have hremove : (system sampleSerde False True).Reachable sampleRows _ :=
    .single (.call 0 (Call.remove "a") rfl)
  have hopened := hremove.tail
    (.run (i := 0) (o := .prepare) (r := .ok ()) rfl nofun ⟨rfl, rfl⟩)
  have hbegun := hopened.tail (.run (i := 0) (o := .beginWrite) (r := .ok ()) rfl
    (fun _ => TxSystem.not_writes_alone (i := 0) rfl nofun fun k hk => by simp [hk]; rfl)
    ⟨rfl, rfl, rfl⟩)
  have hstore := hbegun.tail (.run (i := 0) (o := .query .objectStore)
    (r := .ok ()) rfl nofun ⟨rfl, rfl, rfl⟩)
  have hcounted := hstore.tail (.run (i := 0) (o := .query (.count "a"))
    (r := .ok (1 : ℕ)) rfl nofun ⟨rfl, rfl, rfl⟩)
  have hdeleted := hcounted.tail (.run (i := 0) (o := .query (.delete "a"))
    (r := .ok ()) rfl nofun ⟨rfl, rfl, rfl⟩)
  have haborted := hdeleted.tail (.run (i := 0) (o := .commit)
    (r := .ok false) rfl nofun ⟨fun _ => trivial, rfl, rfl⟩)
  have hremoved := haborted.tail (.finish (i := 0) rfl)
  have hget := hremoved.tail (.call 1 (Call.get "a") rfl)
  have hopened' := hget.tail
    (.run (i := 1) (o := .prepare) (r := .ok ()) rfl nofun ⟨rfl, rfl⟩)
  have hbegun' := hopened'.tail
    (.run (i := 1) (o := .beginRead) (r := .ok ()) rfl nofun ⟨rfl, rfl, rfl⟩)
  have hstore' := hbegun'.tail (.run (i := 1) (o := .query .objectStore)
    (r := .ok ()) rfl nofun ⟨rfl, rfl, rfl⟩)
  have hgot := hstore'.tail (.run (i := 1) (o := .query (.get "a"))
    (r := .ok (some Filesystem.sampleEntryBytes)) rfl nofun ⟨rfl, rfl, rfl⟩)
  have hs := hgot.tail (.finish (i := 1) rfl)
  exact ⟨_, hs, rfl, indexeddb_refines_memory sampleSerde_faithful holds_sample hs⟩

end Connexa.Keystore.Database.IndexedDb
