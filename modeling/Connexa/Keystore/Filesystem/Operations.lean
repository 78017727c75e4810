import Connexa.Keystore.Filesystem.Accesses
import Connexa.Keystore.Filesystem.Journals
import Connexa.Keystore.Memory

/-!
# The operations without faults

What the operations of a store do to the tree of its files when nothing fails
and no label is the name of the work directory.  Each starts and ends on a tree
at rest and changes the entries only.
-/

namespace Connexa.Keystore.Filesystem

open HashMap Machine

variable {codec : Codec} {T : Tree}

/-- The entries of a tree. -/
def Tree.contents (T : Tree) : Contents :=
  fun label => if label = workDirName then none else T.files (.entry label)

/-- The tree with these entries. -/
def Tree.withContents (T : Tree) (O : Contents) : Tree :=
  { T with
    files := fun path =>
      match path with
      | .entry label =>
          if label = workDirName then T.files (.entry label) else O label
      | path => T.files path }

/-- A tree between two accesses: in `.tmp` there is only the lock file, and the
entries are files. -/
structure Tree.AtRest (T : Tree) : Prop extends T.Ready where
  work : ∀ name, name ≠ .lock → T.files (.work name) = none
  staged : ∀ index, T.files (.staged index) = none
  entries : ∀ label, label ≠ workDirName → T.files (.entry label) ≠ some .dir

theorem Tree.contents_of_ne {label : String} (h : label ≠ workDirName) :
    T.contents label = T.files (.entry label) :=
  if_neg h

theorem Tree.contents_withContents {O : Contents} (hO : O workDirName = none) :
    (T.withContents O).contents = O := by
  funext label
  by_cases hlabel : label = workDirName
  · simp [Tree.contents, hlabel, hO]
  · simp [Tree.contents, Tree.withContents, hlabel]

/-- Nothing is left over at rest. -/
theorem Tree.AtRest.cleaned (h : T.AtRest) : T.cleaned = T := by
  refine Tree.ext rfl rfl ?_
  funext path
  cases path with
  | entry label => rfl
  | work name =>
      cases name <;> simp [Tree.cleaned, Path.isRemains, Path.inStaging, h.work]
  | staged index => simp [Tree.cleaned, Path.isRemains, Path.inStaging, h.staged]

theorem Tree.AtRest.withContents (h : T.AtRest) {O : Contents}
    (hO : ∀ label, O label ≠ some .dir) : (T.withContents O).AtRest where
  storeDir := h.storeDir
  workDir := by simpa [Tree.withContents] using h.workDir
  workFiles := h.workFiles
  work := h.work
  staged := h.staged
  entries := by
    intro label hlabel
    simpa [Tree.withContents, hlabel] using hO label

/-! ## Rules -/

section Rules

variable {T' : Tree} {α : Type} {a : α} {label : String}

theorem ends_mapBackend {x : Io α} (h : Ends x.run T (.ok a) T') :
    Ends (mapBackend x).run T (.ok a) T' :=
  Ends.bind h (ends_done _ T')

theorem ends_codecResult {r : Except String α} (h : r = .ok a) :
    Ends (codecResult r).run T (.ok a) T := by
  subst h
  exact ends_done _ T

/-- The bytes of an entry. -/
def Tree.original (T : Tree) (label : String) : Option Bytes :=
  match T.files (.entry label) with
  | some (.file bytes) => some bytes
  | _ => none

theorem ends_readOriginal (h : T.files (.entry label) ≠ some .dir) :
    Ends (readOriginal label).run T (.ok (T.original label)) T := by
  cases hfile : T.files (.entry label) with
  | none =>
      have hnone : T.original label = none := by simp [Tree.original, hfile]
      rw [hnone]
      exact Ends.bind (ends_readFile_missing hfile) (ends_done _ T)
  | some content =>
      cases content with
      | dir => exact absurd hfile h
      | file bytes =>
          have hsome : T.original label = some bytes := by
            simp [Tree.original, hfile]
          rw [hsome]
          exact Ends.bind (ends_readFile hfile) (ends_done _ T)

/-- Looking whether an entry is a file: it is one, or there is none. -/
theorem ends_isFile (h : T.files (.entry label) ≠ some .dir) :
    ∃ r, r ≠ .ok false ∧ Ends (Prog.op (Op.isFile label)) T r T := by
  cases hfile : T.files (.entry label) with
  | none =>
      refine ⟨.error (.os .notFound), by simp, ends_look ?_⟩
      rintro d ⟨-, rfl⟩
      simp [perform, Disk.files_eq_none.mp hfile]
  | some content =>
      cases content with
      | dir => exact absurd hfile h
      | file bytes =>
          refine ⟨.ok true, by simp, ends_look ?_⟩
          rintro d ⟨-, rfl⟩
          obtain ⟨i, hi, -⟩ := Disk.files_eq_file.mp hfile
          simp [perform, hi]

end Rules

/-! ## Encoding -/

section Batch

variable {bytes : EncryptedEntry → Bytes}

/-- The encoded entries, the last one of a label. -/
def encodeAll (bytes : EncryptedEntry → Bytes) (entries : List EncryptedEntry)
    (encoded : HashMap String Bytes) : HashMap String Bytes :=
  entries.foldl (fun encoded e => encoded.insert e.metadata.label (bytes e))
    encoded

/-- Labels that the store takes for its entries. -/
def EntryLabel (label : String) : Prop :=
  validateLabel label = .ok () ∧ label ≠ workDirName

theorem ends_encodeEntries (hrest : T.AtRest)
    (hbytes : ∀ e, codec.encodeEntry e = .ok (bytes e))
    {entries : List EncryptedEntry} {encoded : HashMap String Bytes}
    (hentries : ∀ e ∈ entries, EntryLabel e.metadata.label) :
    Ends (encodeEntries codec entries encoded).run T
      (.ok (encodeAll bytes entries encoded)) T := by
  induction entries generalizing encoded with
  | nil => exact ends_done _ T
  | cons entry rest ih =>
      obtain ⟨hvalid, hlabel⟩ := hentries entry List.mem_cons_self
      obtain ⟨r, hr, hisFile⟩ := ends_isFile (hrest.entries _ hlabel)
      have hnext : Ends (do
            let b ← codecResult (codec.encodeEntry entry)
            encodeEntries codec rest (encoded.insert entry.metadata.label b) :
            StoreM (HashMap String Bytes)).run T
          (.ok (encodeAll bytes (entry :: rest) encoded)) T :=
        Ends.bindExcept (ends_codecResult (hbytes entry))
          (ih fun e he => hentries e (List.mem_cons_of_mem _ he))
      unfold encodeEntries
      rw [hvalid]
      refine Ends.bindExcept (Ends.liftExcept hisFile) ?_
      cases r with
      | error _ => exact hnext
      | ok isFile =>
          cases isFile with
          | true => exact hnext
          | false => exact absurd rfl hr

theorem lookup_encodeAll_label {entries : List EncryptedEntry}
    {encoded : HashMap String Bytes} {P : String → Prop}
    (hentries : ∀ e ∈ entries, P e.metadata.label)
    (hencoded : ∀ label b, encoded.lookup label = some b → P label)
    {label : String} {b : Bytes}
    (h : (encodeAll bytes entries encoded).lookup label = some b) : P label := by
  induction entries generalizing encoded with
  | nil => exact hencoded label b h
  | cons entry rest ih =>
      refine ih (fun e he => hentries e (List.mem_cons_of_mem _ he)) ?_ h
      intro other b' hother
      rw [lookup_insert] at hother
      split at hother
      · next heq => exact heq ▸ hentries entry List.mem_cons_self
      · exact hencoded other b' hother

theorem overlay_encodeAll (hbytes : ∀ e, codec.encodeEntry e = .ok (bytes e))
    (entries : List EncryptedEntry) (encoded : HashMap String Bytes)
    (O : Contents) :
    overlay (encodeAll bytes entries encoded) O =
      applyBatch codec entries (overlay encoded O) := by
  induction entries generalizing encoded with
  | nil => rfl
  | cons entry rest ih =>
      change overlay (encodeAll bytes rest _) O = _
      rw [ih, overlay_insert encoded O (hbytes entry)]
      rfl

/-! ## Staging -/

/-- With an empty staging directory made. -/
theorem Disk.node_makeStaging {d : Disk} (h : d.stagingIno = none) (path : Path) :
    (d.makeDir .staging).node path =
      if path = .work .staging then some .dir else d.node path := by
  cases path with
  | entry label => rfl
  | work name =>
      by_cases hname : name = .staging
      · simp [Disk.makeDir, Disk.newFile, Disk.node, hname]
      · simp [Disk.makeDir, Disk.newFile, Disk.node, hname]
  | staged index =>
      have hwork : d.work.view.lookup .staging = none := h
      simp [Disk.makeDir, Disk.newFile, Disk.node, Disk.stagingIno, hwork]

theorem ends_makeStaging (h : T.Ready) (hnone : T.files (.work .staging) = none) :
    Ends (Prog.op (Op.createDir .staging)) T (Except.ok ())
      (T.set (.work .staging) (some .dir)) := by
  refine ends_perform ?_
  rintro d ⟨hsound, rfl⟩
  have hs : d.stagingIno = none :=
    Disk.lookup_of_node_work_eq_none (Disk.files_eq_none.mp hnone)
  have hwork : d.workDir = true := by
    rw [← d.isSome_entry_workDir]
    exact h.workDir
  refine ⟨d.makeDir .staging, ?_, ⟨?_, hsound.apart⟩, Tree.ext rfl rfl ?_⟩
  · simp [perform, Disk.hasDir, hs, hwork, DirName.ancestors]
  · intro path i hi
    rw [Disk.node_makeStaging hs] at hi
    split at hi
    · cases hi
    · exact (hsound.linked path i hi).trans (Nat.lt_succ_self _)
  · funext path
    change ((d.makeDir .staging).node path).map _ = _
    rw [Disk.node_makeStaging hs, Tree.files_set]
    split
    · rfl
    · change (d.node path).map _ = (d.node path).map _
      refine Option.map_congr fun node hmem => ?_
      cases node with
      | dir => rfl
      | file i =>
          have hne : i ≠ d.nextIno := (hsound.linked path i hmem).ne
          simp [Disk.content, Disk.makeDir, Disk.newFile, hne]

theorem ends_createStaging (h : T.Ready)
    (hnone : T.files (.work .staging) = none) :
    Ends (createDir .staging).run T (.ok ())
      (T.set (.work .staging) (some .dir)) := by
  have hmissing := @ends_isDir T .staging
  have hfalse : T.hasDir .staging = false := by simp [Tree.hasDir, hnone]
  rw [hfalse] at hmissing
  have hparent := @ends_isDir T .work
  have htrue : T.hasDir .work = true := h.workDir
  rw [htrue] at hparent
  have hbuild : Ends (buildDir .staging).run T (.ok ())
      (T.set (.work .staging) (some .dir)) :=
    Ends.bind (ends_makeStaging h hnone) (ends_done _ _)
  have hsync : Ends (syncDir .staging).run (T.set (.work .staging) (some .dir))
      (.ok ()) (T.set (.work .staging) (some .dir)) :=
    ends_syncDir (by simp [Tree.hasDir])
  have hsyncWork : Ends (syncDir .work).run (T.set (.work .staging) (some .dir))
      (.ok ()) (T.set (.work .staging) (some .dir)) :=
    ends_syncDir (by simpa [Tree.hasDir] using h.workDir)
  exact Ends.bindExcept hmissing
    (Ends.bindExcept (Ends.bindExcept hparent (ends_done _ T))
      (Ends.bindExcept hbuild (Ends.bindExcept hsync hsyncWork)))

/-- The tree with the files staged from `index` on. -/
def Tree.stage (T : Tree) : ℕ → List (String × Bytes) → Tree
  | _, [] => T
  | index, (_, b) :: rest =>
      (T.set (.staged index) (some (.file b))).stage (index + 1) rest

/-- The files are staged from `index` on. -/
def Tree.StagedFrom (T : Tree) : ℕ → List (String × Bytes) → Prop
  | _, [] => True
  | index, (_, b) :: rest =>
      T.files (.staged index) = some (.file b) ∧ T.StagedFrom (index + 1) rest

theorem Tree.files_stage_of_lt {index k : ℕ} (hk : k < index) (T : Tree)
    (files : List (String × Bytes)) :
    (T.stage index files).files (.staged k) = T.files (.staged k) := by
  induction files generalizing T index with
  | nil => rfl
  | cons e rest ih =>
      change ((T.set (.staged index) _).stage (index + 1) rest).files _ = _
      rw [ih (Nat.lt_succ_of_lt hk), Tree.files_set, if_neg]
      simpa using hk.ne

theorem Tree.stagedFrom_stage (T : Tree) (index : ℕ)
    (files : List (String × Bytes)) : (T.stage index files).StagedFrom index files := by
  induction files generalizing T index with
  | nil => trivial
  | cons e rest ih =>
      refine ⟨?_, ih _ _⟩
      change ((T.set (.staged index) _).stage (index + 1) rest).files _ = _
      rw [Tree.files_stage_of_lt (Nat.lt_succ_self index)]
      simp

theorem Tree.StagedFrom.congr {index : ℕ} {files : List (String × Bytes)}
    {T' : Tree} (h : T.StagedFrom index files)
    (hsame : ∀ k, index ≤ k → T'.files (.staged k) = T.files (.staged k)) :
    T'.StagedFrom index files := by
  induction files generalizing index with
  | nil => trivial
  | cons e rest ih =>
      refine ⟨(hsame index le_rfl).trans h.1, ih h.2 ?_⟩
      exact fun k hk => hsame k (Nat.le_of_succ_le hk)

/-- Staging leaves everything else alone. -/
theorem Tree.files_stage {path : Path} (h : ∀ k, path ≠ .staged k) (T : Tree)
    (index : ℕ) (files : List (String × Bytes)) :
    (T.stage index files).files path = T.files path := by
  induction files generalizing T index with
  | nil => rfl
  | cons e rest ih =>
      change ((T.set (.staged index) _).stage (index + 1) rest).files path = _
      rw [ih, Tree.files_set, if_neg (h index)]

theorem Tree.storeDir_stage (T : Tree) (index : ℕ)
    (files : List (String × Bytes)) :
    (T.stage index files).storeDir = T.storeDir ∧
      (T.stage index files).outsideDir = T.outsideDir := by
  induction files generalizing T index with
  | nil => exact ⟨rfl, rfl⟩
  | cons e rest ih => exact ih _ _

theorem ends_stage {index : ℕ} {files : List (String × Bytes)}
    (hdir : (T.files (.work .staging)).isSome = true)
    (hfree : ∀ k, index ≤ k → T.files (.staged k) = none)
    (hentries : ∀ e ∈ files, T.files (.entry e.1) ≠ some .dir) :
    Ends (stage index files).run T
      (.ok (files.map fun e => (e.1, T.original e.1))) (T.stage index files) := by
  induction files generalizing T index with
  | nil => exact ends_done _ T
  | cons e rest ih =>
      obtain ⟨label, b⟩ := e
      have hread := ends_readOriginal (hentries (label, b) List.mem_cons_self)
      have hplain : (Path.staged index).Plain := trivial
      have hwrite := ends_writeNew hplain (hfree index le_rfl) hdir b
      have hsame : (T.set (.staged index) (some (.file b))).original =
          T.original := by
        funext label
        simp [Tree.original]
      have hrest : Ends (stage (index + 1) rest).run
          (T.set (.staged index) (some (.file b)))
          (.ok (rest.map fun e => (e.1, T.original e.1)))
          (T.stage index ((label, b) :: rest)) := by
        rw [← hsame]
        apply ih
        · simpa using hdir
        · intro k hk
          have hne : k ≠ index := by omega
          simpa [hne] using hfree k (Nat.le_of_succ_le hk)
        · intro e he
          simpa using hentries e (List.mem_cons_of_mem _ he)
      exact Ends.bindExcept hread (Ends.bindExcept (ends_mapBackend hwrite)
        (Ends.bindExcept hrest (ends_done _ _)))

theorem ends_writeJournal (h : T.Ready)
    (hnew : T.files (.work .journalNew) = none) {b : Bytes}
    {originals : List (String × Option Bytes)}
    (hb : codec.encodeJournal ⟨1, originals⟩ = .ok b) :
    Ends (writeJournal codec originals).run T (.ok ())
      (T.set (.work .journal) (some (.file b))) := by
  have hwrite := ends_writeNew (Path.plain_work .journalNew (by decide)) hnew
    h.workDir b
  have hrename : Ends (renameFile (.work .journalNew) (.work .journal)).run
      (T.set (.work .journalNew) (some (.file b))) (.ok ())
      (((T.set (.work .journalNew) (some (.file b))).set (.work .journal)
        (some (.file b))).set (.work .journalNew) none) := by
    have hmoves : (Path.work .journalNew).Moves (.work .journal) := nofun
    apply ends_renameFile hmoves (Path.plain_work .journalNew (by decide))
      (Path.plain_work .journal (by decide))
    · simp
    · simpa using h.workFiles .journal (by decide)
    · simpa [Tree.hasParent] using h.workDir
  have hsame : ((T.set (.work .journalNew) (some (.file b))).set (.work .journal)
      (some (.file b))).set (.work .journalNew) none =
      T.set (.work .journal) (some (.file b)) := by
    refine Tree.ext rfl rfl ?_
    funext path
    by_cases hpath : path = .work .journalNew
    · simp [hpath, hnew]
    · simp [hpath]
  rw [hsame] at hrename
  have hsync : Ends (syncDir .work).run (T.set (.work .journal) (some (.file b)))
      (.ok ()) (T.set (.work .journal) (some (.file b))) :=
    ends_syncDir (by simpa [Tree.hasDir] using h.workDir)
  exact Ends.bindExcept (ends_codecResult hb)
    (Ends.bindExcept (ends_mapBackend hwrite)
      (Ends.bindExcept (ends_mapBackend hrename) (ends_mapBackend hsync)))

/-! ## Replacing the entries -/

/-- The tree with the files, staged from `index` on, moved into place. -/
def Tree.replace (T : Tree) : ℕ → List (String × Bytes) → Tree
  | _, [] => T
  | index, (label, b) :: rest =>
      ((T.set (.entry label) (some (.file b))).set (.staged index) none).replace
        (index + 1) rest

theorem ends_replaceEntries {index : ℕ} {files : List (String × Bytes)}
    (hstore : T.storeDir = true) (hstaged : T.StagedFrom index files)
    (hlabels : ∀ e ∈ files, e.1 ≠ workDirName)
    (hentries : ∀ e ∈ files, T.files (.entry e.1) ≠ some .dir) :
    Ends (replaceEntries (fun _ => .ok ()) index (files.map Prod.fst)).run T
      (.ok ()) (T.replace index files) := by
  induction files generalizing T index with
  | nil => exact ends_done _ T
  | cons e rest ih =>
      obtain ⟨label, b⟩ := e
      have hmoves : (Path.staged index).Moves (.entry label) := trivial
      have hrename := ends_renameFile hmoves trivial
        (hlabels (label, b) List.mem_cons_self) hstaged.1
        (hentries (label, b) List.mem_cons_self) hstore
      refine Ends.bindExcept hrename (ih hstore ?_ ?_ ?_)
      · refine hstaged.2.congr fun k hk => ?_
        have hne : k ≠ index := by omega
        simp [hne]
      · exact fun e he => hlabels e (List.mem_cons_of_mem _ he)
      · intro e he
        by_cases hlabel : e.1 = label
        · simp [hlabel]
        · simpa [hlabel] using hentries e (List.mem_cons_of_mem _ he)

theorem Tree.storeDir_replace (T : Tree) (index : ℕ)
    (files : List (String × Bytes)) :
    (T.replace index files).storeDir = T.storeDir ∧
      (T.replace index files).outsideDir = T.outsideDir := by
  induction files generalizing T index with
  | nil => exact ⟨rfl, rfl⟩
  | cons e rest ih => exact ih _ _

theorem Tree.files_replace_work (name : WorkName) (T : Tree) (index : ℕ)
    (files : List (String × Bytes)) :
    (T.replace index files).files (.work name) = T.files (.work name) := by
  induction files generalizing T index with
  | nil => rfl
  | cons e rest ih =>
      change (Tree.replace _ (index + 1) rest).files _ = _
      rw [ih]
      simp

theorem Tree.files_replace_of_notMem {label : String}
    {files : List (String × Bytes)} (h : label ∉ files.map Prod.fst) (T : Tree)
    (index : ℕ) :
    (T.replace index files).files (.entry label) = T.files (.entry label) := by
  induction files generalizing T index with
  | nil => rfl
  | cons e rest ih =>
      rw [List.map_cons, List.mem_cons, not_or] at h
      change (Tree.replace _ (index + 1) rest).files _ = _
      rw [ih h.2]
      simp [h.1]

theorem Tree.files_replace_of_mem {label : String} {b : Bytes}
    {files : List (String × Bytes)} (h : (label, b) ∈ files)
    (hnodup : (files.map Prod.fst).Nodup) (T : Tree) (index : ℕ) :
    (T.replace index files).files (.entry label) = some (.file b) := by
  induction files generalizing T index with
  | nil => cases h
  | cons e rest ih =>
      rw [List.map_cons, List.nodup_cons] at hnodup
      change (Tree.replace _ (index + 1) rest).files _ = _
      rcases List.mem_cons.mp h with rfl | h
      · rw [Tree.files_replace_of_notMem hnodup.1]
        simp
      · exact ih h hnodup.2 _ _

/-! ## Batches -/

/-- The tree once a batch is prepared. -/
def Tree.prepared (T : Tree) (files : List (String × Bytes)) (journal : Bytes) :
    Tree :=
  ((T.set (.work .staging) (some .dir)).stage 0 files).set (.work .journal)
    (some (.file journal))

section Prepared

variable {files : List (String × Bytes)} {journal : Bytes}

theorem Tree.files_prepared_entry (T : Tree) (label : String) :
    (T.prepared files journal).files (.entry label) = T.files (.entry label) := by
  simp [Tree.prepared, Tree.files_stage]

theorem Tree.files_prepared_work (T : Tree) (name : WorkName) :
    (T.prepared files journal).files (.work name) =
      if name = .journal then some (.file journal)
      else if name = .staging then some .dir else T.files (.work name) := by
  simp [Tree.prepared, Tree.files_stage]

theorem Tree.stagedFrom_prepared (T : Tree) :
    (T.prepared files journal).StagedFrom 0 files :=
  ((T.set (.work .staging) (some .dir)).stagedFrom_stage 0 files).congr
    fun k _ => by simp [Tree.prepared]

theorem Tree.storeDir_prepared (T : Tree) :
    (T.prepared files journal).storeDir = T.storeDir :=
  (Tree.storeDir_stage _ 0 files).1

/-- The tree once the batch is committed. -/
def Tree.committed (T : Tree) (files : List (String × Bytes)) (journal : Bytes) :
    Tree :=
  (((T.prepared files journal).replace 0 files).set (.work .committed)
    (some (.file journal))).set (.work .journal) none

theorem Tree.files_committed_work (T : Tree) (name : WorkName) :
    (T.committed files journal).files (.work name) =
      if name = .journal then none
      else if name = .committed then some (.file journal)
      else if name = .staging then some .dir else T.files (.work name) := by
  simp only [Tree.committed, Tree.files_set, Tree.files_replace_work,
    Tree.files_prepared_work, Path.work.injEq]
  cases name <;> simp

theorem Tree.files_committed_entry (T : Tree) (label : String) :
    (T.committed files journal).files (.entry label) =
      ((T.prepared files journal).replace 0 files).files (.entry label) := by
  simp [Tree.committed]

end Prepared

section Commit

variable {encoded : HashMap String Bytes} {journal : Bytes}

/-- The cleanup of a committed batch leaves the new entries. -/
theorem Tree.AtRest.cleaned_committed (h : T.AtRest)
    (hlabels : ∀ label b, encoded.lookup label = some b → label ≠ workDirName) :
    (T.committed (sortedEntries encoded) journal).cleaned =
      T.withContents (overlay encoded T.contents) := by
  have hdirs := (T.prepared (sortedEntries encoded) journal).storeDir_replace 0
    (sortedEntries encoded)
  have hstaged := (T.set (.work .staging) (some .dir)).storeDir_stage 0
    (sortedEntries encoded)
  refine Tree.ext (hdirs.2.trans hstaged.2) (hdirs.1.trans hstaged.1) ?_
  funext path
  cases path with
  | staged index =>
      simp [Tree.cleaned, Path.isRemains, Path.inStaging, Tree.withContents, h.staged]
  | work name =>
      change (if (Path.work name).isRemains then none
        else (T.committed _ journal).files (.work name)) = T.files (.work name)
      rw [Tree.files_committed_work]
      cases name <;> simp [Path.isRemains, Path.inStaging, h.work]
  | entry label =>
      change (T.committed _ journal).files (.entry label) = _
      rw [Tree.files_committed_entry]
      cases hlookup : encoded.lookup label with
      | some b =>
          have hmem := mem_sortedEntries.mpr (lookup_eq_some_iff.mp hlookup)
          rw [Tree.files_replace_of_mem hmem (sortedEntries_keys_nodup encoded)]
          simp [Tree.withContents, overlay, hlookup, hlabels label b hlookup]
      | none =>
          have hnot : label ∉ (sortedEntries encoded).map Prod.fst := by
            intro hmem
            obtain ⟨⟨_, b⟩, he, rfl⟩ := List.mem_map.mp hmem
            rw [lookup_eq_some_iff.mpr (mem_sortedEntries.mp he)] at hlookup
            cases hlookup
          rw [Tree.files_replace_of_notMem hnot, Tree.files_prepared_entry]
          by_cases hlabel : label = workDirName
          · simp [Tree.withContents, hlabel]
          · simp [Tree.withContents, overlay, hlookup, hlabel, Tree.contents]

variable (hencoded : ∀ label b, encoded.lookup label = some b →
  label ≠ workDirName)

include hencoded

theorem sortedEntries_ne_workDirName {e : String × Bytes}
    (he : e ∈ sortedEntries encoded) : e.1 ≠ workDirName :=
  hencoded e.1 e.2 (lookup_eq_some_iff.mpr (mem_sortedEntries.mp he))

theorem workDirName_notMem_sortedEntries :
    workDirName ∉ (sortedEntries encoded).map Prod.fst := by
  intro hmem
  obtain ⟨e, he, hname⟩ := List.mem_map.mp hmem
  exact sortedEntries_ne_workDirName hencoded he hname

theorem ends_apply (h : T.AtRest) :
    Ends (apply (fun _ => .ok ()) ((sortedEntries encoded).map Prod.fst)).run
      (T.prepared (sortedEntries encoded) journal) (.ok ())
      (T.committed (sortedEntries encoded) journal) := by
  have hstore : (T.prepared (sortedEntries encoded) journal).storeDir = true :=
    T.storeDir_prepared.trans h.storeDir
  have hreplaced : ((T.prepared (sortedEntries encoded) journal).replace 0
      (sortedEntries encoded)).storeDir = true :=
    (Tree.storeDir_replace _ 0 _).1.trans hstore
  have hreplace := ends_replaceEntries hstore T.stagedFrom_prepared
    (fun e he => sortedEntries_ne_workDirName hencoded he) (by
      intro e he
      rw [Tree.files_prepared_entry]
      exact h.entries e.1 (sortedEntries_ne_workDirName hencoded he))
  have hmoves : (Path.work .journal).Moves (.work .committed) := nofun
  have hrename : Ends (renameFile (.work .journal) (.work .committed)).run
      ((T.prepared (sortedEntries encoded) journal).replace 0
        (sortedEntries encoded)) (.ok ())
      (T.committed (sortedEntries encoded) journal) := by
    apply ends_renameFile hmoves (Path.plain_work .journal (by decide))
      (Path.plain_work .committed (by decide))
    · simp [Tree.files_replace_work, Tree.files_prepared_work]
    · simp [Tree.files_replace_work, Tree.files_prepared_work, h.work]
    · have hnot := workDirName_notMem_sortedEntries hencoded
      simpa [Tree.hasParent, Tree.files_replace_of_notMem hnot,
        Tree.files_prepared_entry] using h.workDir
  exact Ends.bindExcept hreplace
    (Ends.bindExcept (ends_syncDir hreplaced) hrename)

theorem Tree.AtRest.ready_committed (h : T.AtRest) :
    (T.committed (sortedEntries encoded) journal).Ready where
  storeDir := (Tree.storeDir_replace _ 0 _).1.trans
    (T.storeDir_prepared.trans h.storeDir)
  workDir := by
    have hnot := workDirName_notMem_sortedEntries hencoded
    rw [Tree.files_committed_entry, Tree.files_replace_of_notMem hnot,
      Tree.files_prepared_entry]
    exact h.workDir
  workFiles := by
    intro name hname
    rw [Tree.files_committed_work]
    have hfile := h.workFiles name hname
    split_ifs <;> simp_all

theorem ends_finishCommit (h : T.AtRest) :
    Ends (finishCommit codec).run (T.committed (sortedEntries encoded) journal)
      (.ok ()) (T.withContents (overlay encoded T.contents)) := by
  have hready : (T.committed (sortedEntries encoded) journal).Ready :=
    h.ready_committed hencoded
  have hrecover := @ends_recover_none codec _ hready
    (by rw [Tree.files_committed_work]; rfl)
  rw [h.cleaned_committed hencoded] at hrecover
  exact Ends.bindExcept (ends_mapBackend (ends_syncDir hready.workDir))
    (Ends.discardExcept (Ends.liftExcept hrecover))

end Commit

theorem encodeAll_ne_workDirName {entries : List EncryptedEntry}
    (hentries : ∀ e ∈ entries, EntryLabel e.metadata.label) (label : String)
    (b : Bytes) (h : (encodeAll bytes entries ∅).lookup label = some b) :
    label ≠ workDirName :=
  lookup_encodeAll_label (P := fun label => label ≠ workDirName)
    (fun e he => (hentries e he).2) (fun _ _ h => by cases h) h

theorem ends_prepare (h : T.AtRest)
    (hbytes : ∀ e, codec.encodeEntry e = .ok (bytes e))
    (hjournal : ∀ j, ∃ b, codec.encodeJournal j = .ok b)
    {entries : List EncryptedEntry}
    (hentries : ∀ e ∈ entries, EntryLabel e.metadata.label) :
    ∃ journal, Ends (prepare codec entries).run T
      (.ok ((sortedEntries (encodeAll bytes entries ∅)).map Prod.fst))
      (T.prepared (sortedEntries (encodeAll bytes entries ∅)) journal) := by
  have hfree : ∀ e ∈ sortedEntries (encodeAll bytes entries ∅),
      T.files (.entry e.1) ≠ some .dir := fun e he =>
    h.entries e.1
      (sortedEntries_ne_workDirName (encodeAll_ne_workDirName hentries) he)
  generalize hfiles : sortedEntries (encodeAll bytes entries ∅) = files at hfree
  have hcreate := ends_createStaging h.toReady (h.work .staging (by decide))
  have hstage : Ends (stage 0 files).run (T.set (.work .staging) (some .dir))
      (.ok (files.map fun e => (e.1, T.original e.1)))
      ((T.set (.work .staging) (some .dir)).stage 0 files) := by
    have hsame : (T.set (.work .staging) (some .dir)).original = T.original := by
      funext label
      simp [Tree.original]
    rw [← hsame]
    exact ends_stage (by simp) (fun k _ => by simpa using h.staged k)
      (fun e he => by simpa using hfree e he)
  have hready : ((T.set (.work .staging) (some .dir)).stage 0 files).Ready := by
    refine ⟨(Tree.storeDir_stage _ 0 files).1.trans h.storeDir, ?_, ?_⟩
    · simpa [Tree.files_stage] using h.workDir
    · intro name hname
      simpa [Tree.files_stage, hname] using h.workFiles name hname
  have hsync : Ends (syncDir .staging).run
      ((T.set (.work .staging) (some .dir)).stage 0 files) (.ok ())
      ((T.set (.work .staging) (some .dir)).stage 0 files) :=
    ends_syncDir (by simp [Tree.hasDir, Tree.files_stage])
  obtain ⟨journal, hencoded⟩ :=
    hjournal ⟨1, files.map fun e => (e.1, T.original e.1)⟩
  have hwrite := ends_writeJournal hready
    (by simp [Tree.files_stage, h.work]) hencoded
  have hlabels : (files.map fun e => (e.1, T.original e.1)).map Prod.fst =
      files.map Prod.fst := by
    simp
  refine ⟨journal, ?_⟩
  rw [← hlabels]
  refine Ends.bindExcept (ends_encodeEntries h hbytes hentries) ?_
  rw [hfiles]
  exact Ends.bindExcept (ends_mapBackend hcreate)
    (Ends.bindExcept hstage (Ends.bindExcept (ends_mapBackend hsync)
      (Ends.bindExcept hwrite (ends_done _ _))))

/-- A batch is stored as a whole. -/
theorem ends_commitBatch (h : T.AtRest)
    (hbytes : ∀ e, codec.encodeEntry e = .ok (bytes e))
    (hjournal : ∀ j, ∃ b, codec.encodeJournal j = .ok b)
    {entries : List EncryptedEntry}
    (hentries : ∀ e ∈ entries, EntryLabel e.metadata.label) :
    Ends (commitBatch codec entries fun _ => .ok ()).run T (.ok ())
      (T.withContents (applyBatch codec entries T.contents)) := by
  have hlabels := @encodeAll_ne_workDirName bytes entries hentries
  obtain ⟨journal, hprepare⟩ := ends_prepare h hbytes hjournal hentries
  have hoverlay := overlay_encodeAll hbytes entries ∅ T.contents
  rw [overlay_empty] at hoverlay
  rw [← hoverlay]
  exact Ends.bind hprepare
    (Ends.bind (ends_apply hlabels h) (ends_finishCommit hlabels h))

end Batch

/-! ## The memory keystore as entries -/

/-- The encoded entries of a map. -/
def Codec.contents (codec : Codec) (m : MemoryKeystore) : Contents :=
  fun label => (m.lookup label).bind fun e =>
    match codec.encodeEntry e with
    | .ok bytes => some (.file bytes)
    | .error _ => none

section Entries

variable {bytes : EncryptedEntry → Bytes}
  (hencode : ∀ e, codec.encodeEntry e = .ok (bytes e))

include hencode

theorem Codec.contents_apply (m : MemoryKeystore) (label : String) :
    codec.contents m label = (m.lookup label).map fun e => .file (bytes e) := by
  cases hlookup : m.lookup label with
  | none => simp [Codec.contents, hlookup]
  | some e => simp [Codec.contents, hlookup, hencode]

theorem Codec.contents_ne_dir (m : MemoryKeystore) (label : String) :
    codec.contents m label ≠ some .dir := by
  rw [Codec.contents_apply hencode]
  simp

theorem Codec.contents_insert (m : MemoryKeystore) (entry : EncryptedEntry) :
    codec.contents (m.insert entry.metadata.label entry) =
      applyEntry codec (codec.contents m) entry := by
  funext label
  rw [Codec.contents_apply hencode, lookup_insert]
  by_cases hlabel : label = entry.metadata.label
  · simp [applyEntry, hlabel, hencode]
  · simp [applyEntry, hlabel, Codec.contents_apply hencode]

theorem Codec.contents_putMany (m : MemoryKeystore)
    (entries : List EncryptedEntry) :
    codec.contents (m.putMany entries).2 =
      applyBatch codec entries (codec.contents m) := by
  simp only [MemoryKeystore.putMany]
  induction entries generalizing m with
  | nil => rfl
  | cons entry rest ih =>
      rw [List.foldl_cons, ih, Codec.contents_insert hencode]
      rfl

theorem Codec.contents_erase (m : MemoryKeystore) (label : String) :
    codec.contents (m.erase label) = eraseLabel label (codec.contents m) := by
  funext other
  rw [Codec.contents_apply hencode, lookup_erase]
  by_cases hother : other = label
  · simp [eraseLabel, hother]
  · simp [eraseLabel, hother, Codec.contents_apply hencode]

/-! ## Single entries -/

variable (hdecode : ∀ e, codec.decodeEntry (bytes e) = .ok e) {m : MemoryKeystore}
  (hm : T.contents = codec.contents m) {label : String}

include hm

theorem Tree.files_entry_of_contents (hlabel : label ≠ workDirName) :
    T.files (.entry label) = (m.lookup label).map fun e => .file (bytes e) := by
  rw [← Codec.contents_apply hencode, ← hm, Tree.contents_of_ne hlabel]

include hdecode in
theorem ends_getEntry (hlabel : label ≠ workDirName) :
    Ends (getEntry codec label).run T (.ok (m.lookup label)) T := by
  have hfile := Tree.files_entry_of_contents hencode hm hlabel
  have horiginal : T.original label = (m.lookup label).map bytes := by
    cases hlookup : m.lookup label <;> simp [Tree.original, hfile, hlookup]
  refine Ends.bindExcept (ends_readOriginal (by simp [hfile])) ?_
  rw [horiginal]
  cases m.lookup label with
  | none => exact ends_done _ T
  | some e => exact Ends.bindExcept (ends_codecResult (hdecode e)) (ends_done _ T)

theorem ends_removeEntry (hstore : T.storeDir = true)
    (hlabel : label ≠ workDirName) :
    Ends (removeEntry label).run T (.ok (m.lookup label).isSome)
      (T.withContents (eraseLabel label T.contents)) := by
  have hfile := Tree.files_entry_of_contents hencode hm hlabel
  have hremove := @ends_removeFile T (.entry label) hlabel (by simp [hfile])
  have hsome : (T.files (.entry label)).isSome = (m.lookup label).isSome := by
    simp [hfile]
  have hsame : T.set (.entry label) none =
      T.withContents (eraseLabel label T.contents) := by
    refine Tree.ext rfl rfl ?_
    funext path
    cases path with
    | work name => rfl
    | staged index => rfl
    | entry other =>
        by_cases hother : other = label
        · simp [Tree.withContents, eraseLabel, hother, hlabel]
        · by_cases hwork : other = workDirName
          · simp [Tree.withContents, hwork, Ne.symm hlabel]
          · simp [Tree.withContents, eraseLabel, hother, hwork, Tree.contents]
  rw [hsome, hsame] at hremove
  exact Ends.bindExcept (ends_mapBackend hremove)
    (Ends.bindExcept (ends_mapBackend (ends_syncDir hstore)) (ends_done _ _))

/-! ## Lists -/

/-- The metadata of the names that are entries. -/
def listed (m : MemoryKeystore) (names : List (String × Bool)) :
    List KeyMetadata :=
  names.filterMap fun name =>
    if name.2 then (m.lookup name.1).map EncryptedEntry.metadata else none

include hdecode in
theorem ends_listNames
    (hlabels : ∀ label e, m.lookup label = some e →
      e.metadata.label = label ∧ label ≠ workDirName)
    {names : List (String × Bool)}
    (hnames : ∀ name ∈ names, if name.2 = true then
      (m.lookup name.1).isSome = true else name.1 = workDirName) :
    Ends (listNames codec names).run T (.ok (listed m names)) T := by
  induction names with
  | nil => exact ends_done _ T
  | cons first rest ih =>
      obtain ⟨name, isFile⟩ := first
      have hrest := ih fun other hother =>
        hnames other (List.mem_cons_of_mem _ hother)
      have hfirst := hnames (name, isFile) List.mem_cons_self
      cases isFile with
      | false =>
          have hwork : name = workDirName := by simpa using hfirst
          simpa [listNames, listed, hwork] using hrest
      | true =>
          obtain ⟨e, he⟩ := Option.isSome_iff_exists.mp hfirst
          obtain ⟨hlabel, hne⟩ := hlabels name e he
          have hfile := Tree.files_entry_of_contents hencode hm hne
          rw [he] at hfile
          have hlisted : listed m ((name, true) :: rest) =
              e.metadata :: listed m rest := by
            simp [listed, he]
          rw [hlisted]
          simp only [listNames]
          refine Ends.bindExcept (ends_mapBackend (ends_readFile hfile))
            (Ends.bindExcept (ends_codecResult (hdecode e)) ?_)
          rw [if_neg (not_not.mpr hlabel.symm)]
          exact Ends.bindExcept hrest (ends_done _ T)

/-- The names in the store directory are those of the map. -/
theorem keys_perm {d : Disk} (hd : IsTree d T)
    (hlabels : ∀ label e, m.lookup label = some e →
      e.metadata.label = label ∧ label ≠ workDirName) :
    d.store.view.keys.Perm m.keys := by
  obtain ⟨hsound, rfl⟩ := hd
  rw [List.perm_ext_iff_of_nodup (AList.keys_nodup _) (AList.keys_nodup _)]
  intro label
  rw [← AList.mem_keys, ← AList.mem_keys, ← AList.lookup_isSome,
    ← AList.lookup_isSome]
  by_cases hlabel : label = workDirName
  · have hnone : m.lookup label = none := by
      rw [Option.eq_none_iff_forall_ne_some]
      exact fun e he => (hlabels label e he).2 hlabel
    subst hlabel
    simp [hnone, hsound.apart]
  · have hfile := Tree.files_entry_of_contents hencode hm hlabel
    have hsame := congrArg Option.isSome hfile
    simpa [Disk.tree, Disk.node, hlabel] using congrArg (· = true) hsame

/-- The names in the store directory are files of the map. -/
theorem store_isFile {d : Disk} (hd : IsTree d T) {label : String} {node : Node}
    (hmem : ⟨label, node⟩ ∈ d.store.view.entries) :
    node ≠ .dir ∧ (m.lookup label).isSome = true := by
  obtain ⟨hsound, rfl⟩ := hd
  have hlookup : d.store.view.lookup label = some node :=
    lookup_eq_some_iff.mpr hmem
  have hlabel : label ≠ workDirName := by
    rintro rfl
    rw [hsound.apart] at hlookup
    cases hlookup
  have hfile := Tree.files_entry_of_contents hencode hm hlabel
  simp only [Disk.tree, Disk.node, if_neg hlabel, hlookup, Option.map_some] at hfile
  cases hentry : m.lookup label with
  | none => simp [hentry] at hfile
  | some e =>
      refine ⟨?_, rfl⟩
      rintro rfl
      simp [hentry, Disk.content] at hfile

/-- The names that are read are entries or the work directory. -/
theorem readStore_names {d : Disk} (hd : IsTree d T) {name : String × Bool}
    (hname : name ∈ (if d.workDir then [(workDirName, false)] else []) ++
      d.store.view.entries.map fun e => (e.1, decide (e.2 ≠ .dir))) :
    if name.2 = true then (m.lookup name.1).isSome = true
    else name.1 = workDirName := by
  rcases List.mem_append.mp hname with hwork | hstore
  · split at hwork
    · rw [List.mem_singleton] at hwork
      simp [hwork]
    · cases hwork
  · obtain ⟨⟨label, node⟩, hmem, rfl⟩ := List.mem_map.mp hstore
    obtain ⟨hne, hsome⟩ := store_isFile hencode hm hd hmem
    simp [hne, hsome]

omit hm hencode in
theorem listed_keys (m : MemoryKeystore) :
    m.keys.filterMap (fun label => (m.lookup label).map EncryptedEntry.metadata) =
      (values m).map EncryptedEntry.metadata := by
  rw [AList.keys, List.keys, values, List.map_map, List.filterMap_map,
    ← List.filterMap_eq_map]
  refine List.filterMap_congr fun e he => ?_
  have hlookup : m.lookup e.1 = some e.2 := lookup_eq_some_iff.mpr he
  simp [hlookup]

/-- The list is that of the map, in some order. -/
theorem listed_perm {d : Disk} (hd : IsTree d T)
    (hlabels : ∀ label e, m.lookup label = some e →
      e.metadata.label = label ∧ label ≠ workDirName) :
    (listed m ((if d.workDir then [(workDirName, false)] else []) ++
      d.store.view.entries.map fun e => (e.1, decide (e.2 ≠ .dir)))).Perm
      ((values m).map EncryptedEntry.metadata) := by
  have hwork : listed m (if d.workDir then [(workDirName, false)] else []) = [] := by
    cases d.workDir <;> rfl
  have hstore : listed m
      (d.store.view.entries.map fun e => (e.1, decide (e.2 ≠ .dir))) =
      d.store.view.keys.filterMap
        fun label => (m.lookup label).map EncryptedEntry.metadata := by
    rw [listed, AList.keys, List.keys, List.filterMap_map, List.filterMap_map]
    refine List.filterMap_congr fun e he => ?_
    have hne := (store_isFile hencode hm hd he).1
    simp [hne]
  have happend : listed m ((if d.workDir then [(workDirName, false)] else []) ++
      d.store.view.entries.map fun e => (e.1, decide (e.2 ≠ .dir))) =
      d.store.view.keys.filterMap
        fun label => (m.lookup label).map EncryptedEntry.metadata := by
    rw [listed, List.filterMap_append]
    change listed m _ ++ listed m _ = _
    rw [hwork, hstore, List.nil_append]
  rw [happend, ← listed_keys m]
  exact (keys_perm hencode hm hd hlabels).filterMap _

include hdecode in
theorem safe_listEntries {d : Disk} (hd : IsTree d T) (hstore : T.storeDir = true)
    (hlabels : ∀ label e, m.lookup label = some e →
      e.metadata.label = label ∧ label ≠ workDirName) :
    (machine false).Safe (fun _ => True)
      (fun r t => (∃ metadata, r = .ok metadata ∧
        metadata.Perm ((values m).map EncryptedEntry.metadata)) ∧ IsTree t T)
      (listEntries codec).run d := by
  have hdir : d.storeDir = true := by
    rw [← hstore, ← hd.2]
    rfl
  apply Safe.bind
  apply Safe.bind
  refine ⟨trivial, fun r t ht => ?_⟩
  rw [step_machine_false] at ht
  simp only [perform, hdir, if_true] at ht
  cases ht
  refine safe_done trivial (safe_done trivial ?_)
  refine (ends_listNames hencode hdecode hm hlabels
    (fun name hname => readStore_names hencode hm hd hname) d hd).mono
    (fun _ h => h) ?_
  rintro _ t - ⟨rfl, ht⟩
  exact ⟨⟨_, rfl, listed_perm hencode hm hd hlabels⟩, ht⟩

end Entries

end Connexa.Keystore.Filesystem
