import Connexa.Support.Transactions
import Connexa.Keystore.Filesystem.Sharing

/-!
# Keystores on databases

What the backends of `keystore/store` that keep the entries in a table share: the
table and its values, the map that it stands for, and the calls seen as calls of a
`MemoryKeystore` that may fail.
-/

namespace Connexa.Keystore.Database

open HashMap Machine
open Filesystem (Call)

/-! ## Entries as values -/

/-- Entries as the values of a table. -/
structure Serde (V : Type) where
  encode : EncryptedEntry → Except String V
  decode : V → Except String EncryptedEntry

/-- What is encoded is decoded to the same entry. -/
def Serde.Faithful {V : Type} (serde : Serde V) : Prop :=
  ∀ e v, serde.encode e = .ok v → serde.decode v = .ok e

/-- `backend`: an `io::Error::other` with this text. -/
def backend (text : String) : Error :=
  .backend (.new .other text)

/-- The metadata of a row, whose label has to be its key. -/
def rowMetadata {V : Type} (serde : Serde V) (label : String) (value : V) :
    Except String KeyMetadata := do
  let entry ← serde.decode value
  if entry.metadata.label ≠ label then
    throw "key entry label does not match its database key"
  else return entry.metadata

section Rows

variable {V : Type} {serde : Serde V} {m : MemoryKeystore} {t : HashMap String V}
  {label : String} {e : EncryptedEntry} {v : V}

/-- The rows are the entries of the map under their labels. -/
structure Holds (serde : Serde V) (m : MemoryKeystore) (t : HashMap String V) :
    Prop where
  labelled : ∀ label e, m.lookup label = some e → e.metadata.label = label
  rows : ∀ label, Option.Rel (fun v e => serde.decode v = .ok e) (t.lookup label)
    (m.lookup label)

theorem holds_empty : Holds serde ∅ ∅ where
  labelled := nofun
  rows := fun _ => .none

theorem Holds.insert (h : Holds serde m t) (hv : serde.decode v = .ok e) :
    Holds serde (m.insert e.metadata.label e) (t.insert e.metadata.label v) where
  labelled := by
    intro label e' he'
    rw [lookup_insert] at he'
    split at he'
    · next hlabel =>
      cases he'
      exact hlabel.symm
    · exact h.labelled label e' he'
  rows := by
    intro label
    rw [lookup_insert, lookup_insert]
    split
    · exact .some hv
    · exact h.rows label

theorem Holds.erase (h : Holds serde m t) (label : String) :
    Holds serde (m.erase label) (t.erase label) where
  labelled := fun label' e he => h.labelled label' e (lookup_erase_some.mp he).2
  rows := by
    intro label'
    rw [lookup_erase, lookup_erase]
    split
    · exact .none
    · exact h.rows label'

theorem Holds.isSome_lookup (h : Holds serde m t) (label : String) :
    (t.lookup label).isSome = (m.lookup label).isSome := by
  have hrow := h.rows label
  generalize t.lookup label = x, m.lookup label = y at hrow
  cases hrow with
  | none => rfl
  | some _ => rfl

theorem Holds.lookup_some (h : Holds serde m t) (hv : t.lookup label = some v) :
    ∃ e, m.lookup label = some e ∧ serde.decode v = .ok e := by
  have hrow := h.rows label
  rw [hv] at hrow
  generalize m.lookup label = y at hrow
  cases hrow with
  | some he => exact ⟨_, rfl, he⟩

theorem Holds.lookup_none (h : Holds serde m t) (hv : t.lookup label = none) :
    m.lookup label = none := by
  have hsome := h.isSome_lookup label
  rw [hv] at hsome
  exact Option.isNone_iff_eq_none.mp (Option.isSome_eq_false_iff.mp hsome.symm)

/-! ## Listing -/

theorem Holds.rowMetadata (h : Holds serde m t) (hv : t.lookup label = some v) :
    ∃ e, m.lookup label = some e ∧
      rowMetadata serde label v = .ok e.metadata := by
  obtain ⟨e, he, hdecode⟩ := h.lookup_some hv
  refine ⟨e, he, ?_⟩
  simp only [Database.rowMetadata, hdecode]
  change (if e.metadata.label ≠ label then _ else _) = _
  rw [if_neg (not_not_intro (h.labelled label e he))]
  rfl

theorem Holds.keys_perm (h : Holds serde m t) : t.keys.Perm m.keys := by
  rw [List.perm_ext_iff_of_nodup t.keys_nodup m.keys_nodup]
  intro label
  rw [AList.mem_keys.symm, AList.mem_keys.symm]
  rw [← AList.lookup_isSome, ← AList.lookup_isSome, h.isSome_lookup]

/-- The metadata of rows, up to the first that is refused. -/
def rowsMetadata {V : Type} (serde : Serde V) :
    List (String × V) → Except String (List KeyMetadata)
  | [] => return []
  | (label, value) :: rows => do
      let metadata ← Database.rowMetadata serde label value
      return metadata :: (← rowsMetadata serde rows)

theorem Holds.rowsMetadata (h : Holds serde m t) :
    ∀ rows : List (String × V), (∀ row ∈ rows, t.lookup row.1 = some row.2) →
      Database.rowsMetadata serde rows = .ok (rows.filterMap fun row =>
        (m.lookup row.1).map EncryptedEntry.metadata)
  | [], _ => rfl
  | (label, value) :: rows, hrows => by
      obtain ⟨e, he, hmetadata⟩ :=
        h.rowMetadata (hrows (label, value) List.mem_cons_self)
      have hrest := h.rowsMetadata rows fun row hrow =>
        hrows row (List.mem_cons_of_mem _ hrow)
      simp only [Database.rowsMetadata, hmetadata, hrest, List.filterMap_cons, he]
      rfl

/-- The rows give the metadata of the map, in the order of the keys. -/
theorem Holds.listed_perm (h : Holds serde m t) {rows : List (String × V)}
    (hrows : rows.Perm (t.entries.map fun e => (e.1, e.2))) :
    (rows.filterMap fun row => (m.lookup row.1).map EncryptedEntry.metadata).Perm
      ((values m).map EncryptedEntry.metadata) := by
  have hkeys : (rows.map Prod.fst).Perm m.keys := by
    have hmap := hrows.map Prod.fst
    rw [List.map_map] at hmap
    exact hmap.trans h.keys_perm
  rw [← Filesystem.listed_keys m]
  have hlisted := hkeys.filterMap
    fun label => (m.lookup label).map EncryptedEntry.metadata
  rwa [List.filterMap_map] at hlisted

end Rows

/-! ## Programs -/

/-- Programs that return the keystore's `Result`. -/
abbrev DbM {Q : Type} (R : Q → Type) := ExceptT Error (Prog (TxOp Q) (TxReply String R))

/-- `map_err(backend)`. -/
def mapBackend {Q : Type} {R : Q → Type} {α : Type}
    (x : Prog (TxOp Q) (TxReply String R) (Except String α)) : DbM R α :=
  ExceptT.mk do
    match ← x with
    | .ok a => return .ok a
    | .error text => return .error (backend text)

/-- `map_err(backend)` on a result. -/
def ofResult {Q : Type} {R : Q → Type} {α : Type} (r : Except String α) : DbM R α :=
  match r with
  | .ok a => pure a
  | .error text => throw (backend text)

section Operations

variable {Q : Type} {R : Q → Type}

/-- The entry of a row that was looked up. -/
def decodeRow {V : Type} (serde : Serde V) : Option V → DbM R (Option EncryptedEntry)
  | some value => do return some (← ofResult (serde.decode value))
  | none => return none

def prepare : DbM R Unit :=
  mapBackend (Prog.op TxOp.prepare : Prog (TxOp Q) _ (Except String Unit))

def beginRead : DbM R Unit :=
  mapBackend (Prog.op TxOp.beginRead : Prog (TxOp Q) _ (Except String Unit))

def beginWrite : DbM R Unit :=
  mapBackend (Prog.op TxOp.beginWrite : Prog (TxOp Q) _ (Except String Unit))

def beginDeferred : DbM R Unit :=
  mapBackend (Prog.op TxOp.beginDeferred : Prog (TxOp Q) _ (Except String Unit))

def query (q : Q) : DbM R (R q) :=
  mapBackend (Prog.op (TxOp.query q) : Prog (TxOp Q) _ (Except String (R q)))

def commit : DbM R Bool :=
  mapBackend (Prog.op TxOp.commit : Prog (TxOp Q) _ (Except String Bool))

/-- `Display` of the errors that `backend` makes. -/
def display : Error → String
  | .backend (.new _ text) => "keystore backend failed with " ++ text
  | _ => ""

/-- Abort the transaction of a batch that has failed. -/
def abortAfter (e : Error) : DbM R Unit := do
  let aborted : Except String Unit ← ExceptT.lift (Prog.op TxOp.abort)
  match aborted with
  | .error abort => throw (backend (display e ++ ". Abort also failed with " ++ abort))
  | .ok () => throw e

end Operations

/-! ## Calls that may fail -/

/-- A `MemoryKeystore` under any labels. -/
def keystore : Object Call (fun call => Except Error call.Result) MemoryKeystore where
  answer := Call.answer
  allowed := fun _ => True

/-- The failures are errors of the backend. -/
def Failed {α : Type} (x : Except Error α) : Prop :=
  ∃ text, x = .error (backend text)

theorem sameList_refl (x : Except Error (List KeyMetadata)) : Call.SameList x x := by
  cases x with
  | ok metadata => exact List.Perm.refl metadata
  | error e => exact rfl

theorem same_refl (call : Call) (x : Except Error call.Result) : call.Same x x := by
  cases call with
  | list => exact sameList_refl x
  | _ => exact rfl

section Seen

variable {Q : Type} {R : Q → Type} {δ : Type}

/-- The calls of a backend, seen as those of a `MemoryKeystore`.  The `quiet` ones
do not look whether the database has carried out their commit. -/
def seen (S : TxSystem String R (fun call : Call => Except Error call.Result) δ)
    (rep : MemoryKeystore → δ → Prop) (quiet : Call → Prop) : Atomic S keystore where
  same := Call.Same
  reports := fun _ x => Failed x
  rep := rep
  quiet := quiet
  same_refl := same_refl

/-- A phase in which the call may still fail. -/
def Open {μ ρ : Type} : Phase μ δ ρ → Prop
  | .after _ => False
  | .stuck => False
  | _ => True

/-- An error of the backend while the call may fail. -/
def Fault {μ ρ : Type} (e : Error) (p : Phase μ δ ρ) : Prop :=
  (∃ text, e = backend text) ∧ Open p

theorem Open.sound {μ ρ : Type} {p : Phase μ δ ρ} (h : Open p) : p.Sound := by
  cases p with
  | stuck => exact h
  | _ => trivial

variable (S : TxSystem String R (fun call : Call => Except Error call.Result) δ)
  (rep : MemoryKeystore → δ → Prop) (quiet : Call → Prop) (call : Call)
  {α β : Type}

/-- The program ends with `P`, or with an error of the backend while the call may
fail. -/
def Does (P : α → Phase MemoryKeystore δ (Except Error call.Result) → Prop)
    (x : DbM R α) (p : Phase MemoryKeystore δ (Except Error call.Result)) : Prop :=
  ((seen S rep quiet).phases call).Safe Phase.Sound (Yields P Fault) x.run p

variable {S rep quiet call}
  {P : α → Phase MemoryKeystore δ (Except Error call.Result) → Prop}
  {p : Phase MemoryKeystore δ (Except Error call.Result)}

theorem does_pure {a : α} (hp : p.Sound) (ha : P a p) :
    Does S rep quiet call P (pure a) p :=
  safe_pure hp ha

theorem does_throw {text : String} (hp : Open p) :
    Does S rep quiet call P (throw (backend text)) p :=
  safe_throw hp.sound ⟨⟨text, rfl⟩, hp⟩

theorem Does.next {x : DbM R α} {f : α → DbM R β}
    {P' : β → Phase MemoryKeystore δ (Except Error call.Result) → Prop}
    (h : Does S rep quiet call P x p)
    (hf : ∀ a p', P a p' → Does S rep quiet call P' (f a) p') :
    Does S rep quiet call P' (x >>= f) p :=
  Safe.bindExcept (h.monoExcept (fun _ hp => hp) (fun a p' _ ha => hf a p' ha)
    fun _ _ _ he => he)

theorem Does.mono {x : DbM R α}
    {P' : α → Phase MemoryKeystore δ (Except Error call.Result) → Prop}
    (h : Does S rep quiet call P x p) (hP : ∀ a p', P a p' → P' a p') :
    Does S rep quiet call P' x p :=
  h.monoExcept (fun _ hp => hp) (fun a p' _ ha => hP a p' ha) fun _ _ _ he => he

theorem does_ofResult {r : Except String α} (hp : Open p) :
    Does S rep quiet call (fun a p' => r = .ok a ∧ p' = p) (ofResult r) p := by
  cases r with
  | ok a => exact does_pure hp.sound ⟨rfl, rfl⟩
  | error text => exact does_throw hp

/-- An operation, by what it makes of the phase. -/
theorem does_mapBackend {x : Prog (TxOp Q) (TxReply String R) (Except String α)}
    (h : ((seen S rep quiet).phases call).Safe Phase.Sound
      (Yields P fun _ p => Open p) x p) :
    Does S rep quiet call P (mapBackend x) p := by
  apply Safe.bind
  refine h.mono (fun _ hp => hp) ?_
  intro r p' hp' hr
  cases r with
  | ok a => exact safe_done hp' hr
  | error text => exact safe_done hp' ⟨⟨text, rfl⟩, hr⟩

/-! ## The operations -/

variable {m : MemoryKeystore} {d : δ} {r : Except Error call.Result}

theorem does_prepare (hp : Open p) :
    Does S rep quiet call (fun _ p' => p' = p) prepare p := by
  refine does_mapBackend ⟨hp.sound, fun r p' hstep => ?_⟩
  cases hstep
  cases r with
  | ok a => exact ⟨hp.sound, rfl⟩
  | error text => exact ⟨hp.sound, hp⟩

theorem does_beginRead (hread : keystore.ReadOnly call) :
    Does S rep quiet call
      (fun _ p' => ∃ m d, rep m d ∧ p' = .reading d (call.answer m).1)
      beginRead .before := by
  refine does_mapBackend ⟨trivial, fun r p' hstep => ?_⟩
  cases r with
  | ok a =>
      obtain ⟨-, m, d, hrep, rfl⟩ | ⟨hnot, -⟩ := hstep
      · exact ⟨trivial, m, d, hrep, rfl⟩
      · exact absurd hread hnot
  | error text =>
      cases hstep
      exact ⟨trivial, trivial⟩

theorem does_beginWrite :
    Does S rep quiet call (fun _ p' => ∃ m d, rep m d ∧ p' = .writing m d)
      beginWrite .before := by
  refine does_mapBackend ⟨trivial, fun r p' hstep => ?_⟩
  cases r with
  | ok a =>
      obtain ⟨m, d, hrep, rfl⟩ := hstep
      exact ⟨trivial, m, d, hrep, rfl⟩
  | error text =>
      cases hstep
      exact ⟨trivial, trivial⟩

theorem does_beginDeferred :
    Does S rep quiet call (fun _ p' => p' = .deferred) beginDeferred .before := by
  refine does_mapBackend ⟨trivial, fun r p' hstep => ?_⟩
  cases r with
  | ok a =>
      cases hstep
      exact ⟨trivial, rfl⟩
  | error text =>
      cases hstep
      exact ⟨trivial, trivial⟩

theorem does_query_reading {q : Q} :
    Does S rep quiet call
      (fun x p' => x = (S.store.run q d).1 ∧ p' = .reading d r) (query q)
      (.reading d r) := by
  refine does_mapBackend ⟨trivial, fun x p' hstep => ?_⟩
  cases x with
  | ok a =>
      obtain ⟨rfl, rfl⟩ := hstep
      exact ⟨trivial, rfl, rfl⟩
  | error text =>
      cases hstep
      exact ⟨trivial, trivial⟩

theorem does_query_writing {q : Q} :
    Does S rep quiet call
      (fun x p' => x = (S.store.run q d).1 ∧ p' = .writing m (S.store.run q d).2)
      (query q) (.writing m d) := by
  refine does_mapBackend ⟨trivial, fun x p' hstep => ?_⟩
  cases x with
  | ok a =>
      obtain ⟨rfl, rfl⟩ := hstep
      exact ⟨trivial, rfl, rfl⟩
  | error text =>
      obtain ⟨copy, rfl⟩ := hstep
      exact ⟨trivial, trivial⟩

theorem does_query_deferred {q : Q} :
    Does S rep quiet call
      (fun x p' => ∃ m d, rep m d ∧ x = (S.store.run q d).1 ∧
        p' = .writing m (S.store.run q d).2) (query q) .deferred := by
  refine does_mapBackend ⟨trivial, fun x p' hstep => ?_⟩
  cases x with
  | ok a =>
      obtain ⟨m, d, hrep, rfl, rfl⟩ := hstep
      exact ⟨trivial, m, d, hrep, rfl, rfl⟩
  | error text =>
      cases hstep
      exact ⟨trivial, trivial⟩

/-- What a commit that has returned leaves. -/
def Committed (S : TxSystem String R (fun call : Call => Except Error call.Result) δ)
    (quiet : Call → Prop) (call : Call) (m : MemoryKeystore) (b : Bool) :
    Phase MemoryKeystore δ (Except Error call.Result) → Prop :=
  fun p => (b = true ∨ S.store.declines ∧ quiet call) ∧ p = .after (call.answer m).1 ∨
    b = false ∧ S.store.declines ∧ ¬quiet call ∧ p = .before

theorem does_commit (hrep : rep (call.answer m).2 d) :
    Does S rep quiet call (Committed S quiet call m) commit (.writing m d) := by
  refine does_mapBackend ⟨trivial, fun x p' hstep => ?_⟩
  cases x with
  | ok b =>
      cases b with
      | true =>
          obtain ⟨-, rfl⟩ | ⟨hnot, -⟩ := hstep
          · exact ⟨trivial, Or.inl ⟨Or.inl rfl, rfl⟩⟩
          · exact absurd hrep hnot
      | false =>
          obtain ⟨hdeclines, ⟨hquiet, rfl⟩ | ⟨hquiet, rfl⟩⟩ := hstep
          · exact ⟨trivial, Or.inl ⟨Or.inr ⟨hdeclines, hquiet⟩, rfl⟩⟩
          · exact ⟨trivial, Or.inr ⟨rfl, hdeclines, hquiet, rfl⟩⟩
  | error text =>
      obtain rfl | ⟨-, ⟨-, rfl⟩ | ⟨hnot, -⟩⟩ := hstep
      · exact ⟨trivial, trivial⟩
      · exact ⟨trivial, trivial⟩
      · exact absurd hrep hnot

theorem does_commit_deferred (hread : keystore.ReadOnly call) :
    Does S rep quiet call
      (fun b p => b = true ∧ (∃ m, p = .after (call.answer m).1) ∨
        b = false ∧ S.store.declines) commit .deferred := by
  refine does_mapBackend ⟨trivial, fun x p' hstep => ?_⟩
  cases x with
  | ok b =>
      cases b with
      | true =>
          obtain ⟨-, m, d, -, rfl⟩ | ⟨hnot, -⟩ := hstep
          · exact ⟨trivial, Or.inl ⟨rfl, m, rfl⟩⟩
          · exact absurd hread hnot
      | false =>
          obtain ⟨hdeclines, rfl⟩ := hstep
          exact ⟨trivial, Or.inr ⟨rfl, hdeclines⟩⟩
  | error text =>
      cases hstep
      exact ⟨trivial, trivial⟩

theorem does_decodeRow {V : Type} {serde : Serde V} {t : HashMap String V}
    {label : String} {found : Option V} (hrep : Holds serde m t)
    (hfound : found = t.lookup label) :
    Does S rep quiet (.get label)
      (fun a p => (seen S rep quiet).Ending (.ok a) p) (decodeRow serde found)
      (.reading d ((Call.get label).answer m).1) := by
  cases found with
  | none =>
      have hnone : m.lookup label = none := hrep.lookup_none hfound.symm
      refine does_pure trivial (Or.inl ?_)
      simp only [Call.answer, MemoryKeystore.get, hnone]
      exact rfl
  | some value =>
      obtain ⟨e, he, hdecode⟩ := hrep.lookup_some hfound.symm
      refine (does_ofResult (p := .reading d _) trivial).next ?_
      rintro decoded _ ⟨hdecoded, rfl⟩
      rw [hdecode] at hdecoded
      cases hdecoded
      refine does_pure trivial (Or.inl ?_)
      simp only [Call.answer, MemoryKeystore.get, he]
      exact rfl

theorem does_abortAfter {text : String}
    {P : Unit → Phase MemoryKeystore δ (Except Error call.Result) → Prop} :
    Does S rep quiet call P (abortAfter (backend text)) (.writing m d) := by
  have habort : Does S rep quiet call (fun _ p' => p' = .before)
      (ExceptT.lift (Prog.op TxOp.abort : Prog (TxOp Q) _ (Except String Unit)))
      (.writing m d) := by
    refine Safe.liftExcept ⟨trivial, fun r p' hstep => ?_⟩
    cases hstep
    exact ⟨trivial, rfl⟩
  refine habort.next ?_
  rintro (abort | _) _ rfl
  · exact does_throw (p := .before) trivial
  · exact does_throw (p := .before) trivial

/-- Queries alone leave the transaction open, also when one has failed. -/
theorem Does.lift {x : DbM R α} (h : Does S rep quiet call P x (.writing m d))
    (hcalls : x.run.Calls fun o => ∃ q, o = .query q) :
    Does S rep quiet call
      (fun r p => Yields P Fault r p ∧ ∃ d, p = .writing m d) (ExceptT.lift x.run)
      (.writing m d) := by
  have hopen := safe_of_calls (C := fun p => ∃ d, p = .writing m d)
    (M := (seen S rep quiet).phases call) ?_ hcalls ⟨d, rfl⟩
  · exact Safe.liftExcept ((Safe.and h hopen).mono (fun _ h => h.1)
      fun _ _ h hq => ⟨hq.1, h.2⟩)
  · rintro _ _ r p ⟨q, rfl⟩ ⟨d', rfl⟩ hstep
    cases r with
    | ok a => exact ⟨_, hstep.2⟩
    | error text => exact hstep

theorem calls_ofResult {r : Except String α} :
    (ofResult r : DbM R α).run.Calls fun o => ∃ q : Q, o = .query q := by
  cases r with
  | ok a => trivial
  | error text => trivial

theorem calls_query (q : Q) :
    (query q : DbM R (R q)).run.Calls fun o => ∃ q : Q, o = .query q := by
  refine Prog.Calls.bind (Prog.calls_op ⟨q, rfl⟩) fun r => ?_
  cases r with
  | ok a => trivial
  | error text => trivial

/-- From the start to the end of a call. -/
theorem fits_of_does {x : DbM R call.Result}
    (h : Does S rep quiet call
      (fun a p => (seen S rep quiet).Ending (.ok a) p) x .before) :
    (seen S rep quiet).Fits call x.run .before := by
  refine Safe.mono h (fun _ hp => hp) ?_
  intro r p hp hr
  cases r with
  | ok a => exact hr
  | error e =>
      obtain ⟨⟨text, rfl⟩, hopen⟩ := hr
      have hfailed : Failed (.error (backend text) : Except Error call.Result) :=
        ⟨text, rfl⟩
      cases p with
      | reading d r => exact Or.inr hfailed
      | after r => exact hopen.elim
      | stuck => exact hopen.elim
      | _ => exact hfailed

end Seen

/-! ## A table for examples -/

def sampleSerde : Serde Bytes :=
  ⟨Filesystem.sampleCodec.encodeEntry, Filesystem.sampleCodec.decodeEntry⟩

def sampleMap : MemoryKeystore :=
  (∅ : MemoryKeystore).insert "a" Filesystem.sampleEntry

def sampleRows : HashMap String Bytes :=
  (∅ : HashMap String Bytes).insert "a" Filesystem.sampleEntryBytes

theorem sampleSerde_faithful : sampleSerde.Faithful := by
  intro e v h
  simp only [sampleSerde, Filesystem.sampleCodec] at h ⊢
  split at h
  · next he =>
    cases h
    rw [if_pos rfl, he]
  · cases h

theorem holds_sample : Holds sampleSerde sampleMap sampleRows :=
  holds_empty.insert (e := Filesystem.sampleEntry)
    (by simp [sampleSerde, Filesystem.sampleCodec])

end Connexa.Keystore.Database
