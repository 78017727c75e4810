import Connexa.Keystore.Filesystem.Crashes
import Connexa.Keystore.Filesystem.Tree

/-!
# Recovery from any journal

The journal is a file that anybody may have written.  Without faults recovery
either refuses it and touches nothing, or puts the last original of every label
back and removes all records.  A `Site` also has names in `.tmp` that hold
something else than the store puts there, a directory in the place of a file.
-/

namespace Connexa.Keystore.Filesystem

open HashMap Machine

variable {codec : Codec} {T : Tree}

/-! ## Restoring the originals -/

/-- The last original that the journal has for a label. -/
def lastOriginal (originals : List (String × Option Bytes)) (label : String) :
    Option (Option Bytes) :=
  (originals.reverse.find? fun e => decide (e.1 = label)).map Prod.snd

/-- The entries once the originals are back. -/
def restored (originals : List (String × Option Bytes)) (O : Contents) :
    Contents :=
  fun label =>
    match lastOriginal originals label with
    | some original => original.map .file
    | none => O label

theorem lastOriginal_cons (label other : String) (original : Option Bytes)
    (rest : List (String × Option Bytes)) :
    lastOriginal ((label, original) :: rest) other =
      (lastOriginal rest other).or
        (if label = other then some original else none) := by
  simp only [lastOriginal, List.reverse_cons, List.find?_append, Option.map_or]
  by_cases h : label = other <;> simp [h]

/-- The tree once one original is back. -/
def Tree.restore (T : Tree) (label : String) : Option Bytes → Tree
  | some bytes =>
      (T.set (.entry label) (some (.file bytes))).set (.work .restore) none
  | none => T.set (.entry label) none

def Tree.restoreAll (T : Tree) (originals : List (String × Option Bytes)) :
    Tree :=
  originals.foldl (fun T e => T.restore e.1 e.2) T

/-- A tree on which the store can work: its directories are there, and in `.tmp`
only the staging directory is one. -/
structure Tree.Ready (T : Tree) : Prop where
  storeDir : T.storeDir = true
  workDir : (T.files (.entry workDirName)).isSome = true
  workFiles : ∀ name, name ≠ .staging → T.files (.work name) ≠ some .dir

section Restore

variable {label : String} {original : Option Bytes}

theorem Tree.files_restore_entry (other : String) :
    (T.restore label original).files (.entry other) =
      if other = label then original.map .file else T.files (.entry other) := by
  cases original <;> simp [Tree.restore]

theorem Tree.files_restore_work {name : WorkName} (h : name ≠ .restore) :
    (T.restore label original).files (.work name) = T.files (.work name) := by
  cases original <;> simp [Tree.restore, h]

theorem Tree.Ready.restore (h : T.Ready) (hlabel : label ≠ workDirName) :
    (T.restore label original).Ready where
  storeDir := by
    cases original <;> exact h.storeDir
  workDir := by
    rw [Tree.files_restore_entry, if_neg (Ne.symm hlabel)]
    exact h.workDir
  workFiles := by
    intro name hname
    by_cases hrestore : name = .restore
    · subst hrestore
      cases original with
      | none => simpa [Tree.restore] using h.workFiles .restore hname
      | some bytes => simp [Tree.restore]
    · rw [Tree.files_restore_work hrestore]
      exact h.workFiles name hname

theorem ends_restore (h : T.Ready) (hlabel : label ≠ workDirName)
    (hfree : T.files (.entry label) ≠ some .dir) :
    Ends (restore label original).run T (.ok ()) (T.restore label original) := by
  cases original with
  | none => exact Ends.discardExcept (ends_removeFile hlabel hfree)
  | some bytes =>
      have hplain := Path.plain_work .restore (by decide)
      have hremove := ends_removeFile hplain (h.workFiles .restore (by decide))
      have hwrite : Ends (writeNew (.work .restore) bytes).run
          (T.set (.work .restore) none) (.ok ())
          ((T.set (.work .restore) none).set (.work .restore)
            (some (.file bytes))) := by
        apply ends_writeNew hplain
        · simp
        · simpa [Tree.hasParent] using h.workDir
      have hrename : Ends (renameFile (.work .restore) (.entry label)).run
          ((T.set (.work .restore) none).set (.work .restore)
            (some (.file bytes))) (.ok ())
          ((((T.set (.work .restore) none).set (.work .restore)
            (some (.file bytes))).set (.entry label)
              (some (.file bytes))).set (.work .restore) none) := by
        have hmoves : (Path.work .restore).Moves (.entry label) := trivial
        apply ends_renameFile hmoves hplain hlabel
        · simp
        · simpa using hfree
        · exact h.storeDir
      have hsame : (((T.set (.work .restore) none).set (.work .restore)
          (some (.file bytes))).set (.entry label)
            (some (.file bytes))).set (.work .restore) none =
          T.restore label (some bytes) := by
        refine Tree.ext rfl rfl ?_
        funext path
        by_cases hpath : path = .work .restore <;> simp [Tree.restore, hpath]
      rw [hsame] at hrename
      exact Ends.bindExcept (Ends.discardExcept hremove)
        (Ends.bindExcept hwrite hrename)

end Restore

theorem ends_restoreAll {originals : List (String × Option Bytes)} (h : T.Ready)
    (hlabels : ∀ e ∈ originals, e.1 ≠ workDirName)
    (hfree : ∀ e ∈ originals, T.files (.entry e.1) ≠ some .dir) :
    Ends (restoreAll originals).run T (.ok ()) (T.restoreAll originals) ∧
      (T.restoreAll originals).Ready := by
  induction originals generalizing T with
  | nil => exact ⟨ends_done _ T, h⟩
  | cons e rest ih =>
      have hlabel := hlabels e List.mem_cons_self
      have hrest : ∀ e' ∈ rest,
          (T.restore e.1 e.2).files (.entry e'.1) ≠ some .dir := by
        intro e' he'
        rw [Tree.files_restore_entry]
        split
        · cases e.2 <;> simp
        · exact hfree e' (List.mem_cons_of_mem _ he')
      obtain ⟨hends, hready⟩ := ih (h.restore hlabel)
        (fun e' he' => hlabels e' (List.mem_cons_of_mem _ he')) hrest
      exact ⟨Ends.bindExcept
        (ends_restore h hlabel (hfree e List.mem_cons_self)) hends, hready⟩

theorem Tree.files_restoreAll_entry (originals : List (String × Option Bytes))
    (T : Tree) (label : String) :
    (T.restoreAll originals).files (.entry label) =
      match lastOriginal originals label with
      | some original => original.map .file
      | none => T.files (.entry label) := by
  induction originals generalizing T with
  | nil => rfl
  | cons e rest ih =>
      obtain ⟨other, original⟩ := e
      rw [lastOriginal_cons]
      change ((T.restore other original).restoreAll rest).files _ = _
      rw [ih, Tree.files_restore_entry]
      cases lastOriginal rest label with
      | some last => rfl
      | none =>
          by_cases hlabel : other = label
          · simp [hlabel]
          · simp [hlabel, Ne.symm hlabel]

/-! ## Removing the records -/

/-- The names that the cleanup removes. -/
def Path.isRemains : Path → Bool
  | .work .committed | .work .journalNew | .work .restore => true
  | path => path.inStaging

def Tree.cleaned (T : Tree) : Tree :=
  { T with files := fun path => if path.isRemains then none else T.files path }

theorem Tree.cleaned_cleaned (T : Tree) : T.cleaned.cleaned = T.cleaned := by
  refine Tree.ext rfl rfl ?_
  funext path
  simp only [Tree.cleaned]
  split <;> rfl

theorem ends_cleanup (h : T.Ready) : Ends cleanup.run T (.ok ()) T.cleaned := by
  have hcommitted := ends_removeFile (Path.plain_work .committed (by decide))
    (h.workFiles .committed (by decide))
  have hjournalNew : Ends (removeFile (.work .journalNew)).run
      (T.set (.work .committed) none) _ _ :=
    ends_removeFile (Path.plain_work .journalNew (by decide))
      (by simpa using h.workFiles .journalNew (by decide))
  have hrestore : Ends (removeFile (.work .restore)).run
      ((T.set (.work .committed) none).set (.work .journalNew) none) _ _ :=
    ends_removeFile (Path.plain_work .restore (by decide))
      (by simpa using h.workFiles .restore (by decide))
  have hsame : (((T.set (.work .committed) none).set (.work .journalNew)
      none).set (.work .restore) none).dropStaging = T.cleaned := by
    refine Tree.ext rfl rfl ?_
    funext path
    cases path with
    | work name =>
        cases name <;>
          simp [Tree.dropStaging, Tree.cleaned, Path.isRemains, Path.inStaging]
    | _ => simp [Tree.dropStaging, Tree.cleaned, Path.isRemains, Path.inStaging]
  have hstaging := @ends_discardStaging
    (((T.set (.work .committed) none).set (.work .journalNew) none).set
      (.work .restore) none)
  rw [hsame] at hstaging
  have hsync : Ends (syncDir .work).run T.cleaned (.ok ()) T.cleaned :=
    ends_syncDir h.workDir
  exact Ends.bindExcept (Ends.discardExcept hcommitted)
    (Ends.bindExcept (Ends.discardExcept hjournalNew)
      (Ends.bindExcept (Ends.discardExcept hrestore)
        (Ends.bindExcept hstaging hsync)))

/-! ## Recovery -/

/-- The tree after a rollback. -/
def Tree.rolledBack (T : Tree) (originals : List (String × Option Bytes)) :
    Tree :=
  (T.restoreAll originals).set (.work .journal) none

theorem Tree.Ready.journal (h : T.Ready) :
    (T.set (.work .journal) none).Ready where
  storeDir := h.storeDir
  workDir := by simpa using h.workDir
  workFiles := by
    intro name hname
    by_cases hjournal : name = .journal
    · simp [hjournal]
    · simpa [hjournal] using h.workFiles name hname

/-- A journal that recovery accepts. -/
structure Accepted (codec : Codec) (bytes : Bytes)
    (originals : List (String × Option Bytes)) : Prop where
  decodes : codec.decodeJournal bytes = .ok ⟨1, originals⟩
  labels : ∀ e ∈ originals, validateLabel e.1 = .ok () ∧ e.1 ≠ workDirName

theorem ends_rollback {bytes : Bytes} {originals : List (String × Option Bytes)}
    (h : T.Ready) (hbytes : T.files (.work .journal) = some (.file bytes))
    (haccepted : Accepted codec bytes originals)
    (hfree : ∀ e ∈ originals, T.files (.entry e.1) ≠ some .dir) :
    Ends (rollback codec).run T (.ok ()) (T.rolledBack originals) ∧
      (T.rolledBack originals).Ready := by
  obtain ⟨hrestore, hready⟩ := ends_restoreAll h
    (fun e he => (haccepted.labels e he).2) hfree
  refine ⟨Ends.bindExcept (ends_readFile hbytes) ?_, hready.journal⟩
  rw [haccepted.decodes]
  simp only [checkJournal_eq_ok haccepted.labels]
  have hremove : Ends (removeFile (.work .journal)).run (T.restoreAll originals)
      _ (T.rolledBack originals) :=
    ends_removeFile (fun h => by cases h) (hready.workFiles .journal (by decide))
  exact Ends.bindExcept hrestore
    (Ends.bindExcept (ends_syncDir hready.storeDir)
      (Ends.bindExcept (Ends.discardExcept hremove)
        (ends_syncDir hready.journal.workDir)))

/-- Recovery when there is no journal. -/
theorem ends_recover_none (h : T.Ready) (hnone : T.files (.work .journal) = none) :
    Ends (recover codec).run T (.ok ()) T.cleaned := by
  have hjournal := @ends_workExists T .journal
  rw [hnone, Option.isSome_none] at hjournal
  have hcommitted := @ends_workExists T .committed
  have hrest : Ends (do
      if ← workExists .journal then rollback codec
      cleanup : Io Unit).run T (.ok ()) T.cleaned :=
    Ends.bindExcept hjournal (ends_cleanup h)
  cases hsome : (T.files (.work .committed)).isSome with
  | false =>
      rw [hsome] at hcommitted
      exact Ends.bindExcept hcommitted hrest
  | true =>
      rw [hsome] at hcommitted
      exact Ends.bindExcept hcommitted (Ends.bindExcept hjournal hrest)

/-- Recovery from an accepted journal. -/
theorem ends_recover_journal {bytes : Bytes}
    {originals : List (String × Option Bytes)} (h : T.Ready)
    (hnone : T.files (.work .committed) = none)
    (hbytes : T.files (.work .journal) = some (.file bytes))
    (haccepted : Accepted codec bytes originals)
    (hfree : ∀ e ∈ originals, T.files (.entry e.1) ≠ some .dir) :
    Ends (recover codec).run T (.ok ()) (T.rolledBack originals).cleaned := by
  obtain ⟨hrollback, hready⟩ := ends_rollback h hbytes haccepted hfree
  have hcommitted := @ends_workExists T .committed
  rw [hnone, Option.isSome_none] at hcommitted
  have hjournal := @ends_workExists T .journal
  rw [hbytes, Option.isSome_some] at hjournal
  exact Ends.bindExcept hcommitted
    (Ends.bindExcept hjournal (Ends.bindExcept hrollback (ends_cleanup hready)))

/-! ## Sites -/

/-- A disk, and the names of `.tmp` that hold something else than the store puts
there: a directory in the place of a file, a file in the place of the staging
directory.  They are not on the disk itself. -/
structure Site where
  disk : Disk
  odd : WorkName → Bool

def Path.workName : Path → Option WorkName
  | .entry _ => none
  | .work name => some name
  | .staged _ => some .staging

/-- The names of `.tmp` that a primitive looks at. -/
def Op.workNames : Op → List WorkName
  | .workExists name => [name]
  | .isDir .staging | .createDir .staging | .syncDir .staging => [.staging]
  | .readStaging | .removeStaging => [.staging]
  | .read path | .createNew path | .removeFile path => path.workName.toList
  | .rename src dst => src.workName.toList ++ dst.workName.toList
  | .openLock | .lockFile => [.lock]
  | _ => []

/-- A primitive that meets an odd name.  What recovery does not do to such a
name is left open. -/
def performOdd (o : Op) (other : (o : Op) → Site → Reply o × Site) (s : Site) :
    Reply o × Site :=
  match o with
  | .workExists _ => (.ok true, s)
  | .read (.work name) =>
      if name = .staging then other (.read (.work name)) s
      else (.error (.os .isADirectory), s)
  | .removeFile (.work name) =>
      if name = .staging then other (.removeFile (.work name)) s
      else (.error (.os .isADirectory), s)
  | .readStaging => (.error (.os .other), s)
  | o => other o s

/-- The file system without faults. -/
def sites : Machine.Exec Op Reply Site where
  Choice := (o : Op) → Site → Reply o × Site
  allowed := fun _ => True
  exec := fun o other s =>
    if o.workNames.any s.odd then performOdd o other s
    else ((perform o s.disk).1, { s with disk := (perform o s.disk).2 })

namespace Site

variable (codec) (s : Site)

/-- `try_exists`. -/
def has (name : WorkName) : Bool :=
  s.odd name || (s.disk.work.view.lookup name).isSome

/-- The journal, if there is one that decodes. -/
def journal : Option Journal :=
  if s.odd .journal then none
  else (s.disk.work.view.lookup .journal).bind fun i =>
    (codec.decodeJournal (s.disk.data i)).toOption

/-- The entries of the journal. -/
def originals : List (String × Option Bytes) :=
  match s.journal codec with
  | some journal => journal.originals
  | none => []

/-- What recovery has to refuse. -/
inductive Rejected : Prop where
  | conflict (hcommitted : s.has .committed = true) (hjournal : s.has .journal = true)
  | undecodable (hjournal : s.has .journal = true) (hnone : s.journal codec = none)
  | version (journal : Journal) (hjournal : s.journal codec = some journal)
      (hversion : journal.version ≠ 1)
  | label (journal : Journal) (hjournal : s.journal codec = some journal)
      (e : String × Option Bytes) (he : e ∈ journal.originals)
      (hlabel : validateLabel e.1 ≠ .ok () ∨ e.1 = workDirName)

/-- Run recovery; `other` says what is left open. -/
def recover (other : (o : Op) → Site → Reply o × Site) :
    Except IoError Unit × Site :=
  sites.run (Filesystem.recover codec).run [] other s

end Site

/-! ## Refused journals -/

/-- Every label of the journal is checked. -/
theorem labels_of_checkLabels {originals : List (String × Option Bytes)}
    (h : checkLabels originals = .ok ()) :
    ∀ e ∈ originals, validateLabel e.1 = .ok () ∧ e.1 ≠ workDirName := by
  induction originals with
  | nil => exact fun e he => by cases he
  | cons first rest ih =>
      simp only [checkLabels] at h
      split at h
      · cases h
      · next hvalid =>
        split at h
        · cases h
        · next hne =>
          intro e he
          rcases List.mem_cons.mp he with rfl | he
          · exact ⟨hvalid, hne⟩
          · exact ih h e he

theorem of_checkJournal {journal : Journal} (h : checkJournal journal = .ok ()) :
    journal.version = 1 ∧ ∀ e ∈ journal.originals,
      validateLabel e.1 = .ok () ∧ e.1 ≠ workDirName := by
  simp only [checkJournal] at h
  split at h
  · cases h
  · next hversion => exact ⟨not_not.mp hversion, labels_of_checkLabels h⟩

section Refused

variable {s : Site}

/-- A primitive that changes nothing, whatever is left open. -/
theorem ends_site {o : Op} {r : Reply o}
    (h : ∀ other, sites.exec o other s = (r, s)) :
    sites.machine.Ends Eq (Prog.op o) s r s := by
  refine ends_op ?_
  rintro t rfl r' t' ⟨other, -, hexec⟩
  rw [h other] at hexec
  cases hexec
  exact ⟨rfl, rfl⟩

theorem ends_site_workExists (name : WorkName) :
    sites.machine.Ends Eq (workExists name).run s (.ok (s.has name)) s := by
  refine ends_site fun other => ?_
  cases hodd : s.odd name <;>
    simp [sites, Op.workNames, Site.has, performOdd, perform, hodd]

/-- A journal that is not accepted stops the rollback before it begins. -/
theorem ends_site_rollback (hjournal : s.has .journal = true)
    (hrejected : ∀ journal, s.journal codec = some journal →
      checkJournal journal ≠ .ok ()) :
    ∃ e, sites.machine.Ends Eq (rollback codec).run s (.error e) s := by
  cases hodd : s.odd .journal with
  | true =>
      refine ⟨.os .isADirectory, Ends.bindError (ends_site fun other => ?_)⟩
      simp [sites, Op.workNames, Path.workName, performOdd, hodd]
  | false =>
      obtain ⟨i, hi⟩ : ∃ i, s.disk.work.view.lookup .journal = some i := by
        simpa [Site.has, hodd, Option.isSome_iff_exists] using hjournal
      have hread : sites.machine.Ends Eq (readFile (.work .journal)).run s
          (.ok (s.disk.data i)) s := by
        refine ends_site fun other => ?_
        simp [sites, Op.workNames, Path.workName, hodd, perform, Disk.node, hi]
      cases hdecode : codec.decodeJournal (s.disk.data i) with
      | error text =>
          refine ⟨.codec text, Ends.bindExcept hread ?_⟩
          simp only [hdecode]
          exact ends_done _ s
      | ok journal =>
          have hsome : s.journal codec = some journal := by
            simp [Site.journal, hodd, hi, hdecode, Except.toOption]
          cases hcheck : checkJournal journal with
          | ok _ => exact absurd hcheck (hrejected journal hsome)
          | error e =>
              refine ⟨e, Ends.bindExcept hread ?_⟩
              simp only [hdecode, hcheck]
              exact ends_done _ s

theorem Site.has_journal {journal : Journal} (h : s.journal codec = some journal) :
    s.has .journal = true := by
  cases hodd : s.odd .journal with
  | true => simp [Site.has, hodd]
  | false =>
      cases hi : s.disk.work.view.lookup .journal with
      | some i => simp [Site.has, hi]
      | none => simp [Site.journal, hodd, hi] at h

theorem Site.Rejected.has_journal (h : s.Rejected codec) :
    s.has .journal = true := by
  cases h with
  | conflict _ hjournal => exact hjournal
  | undecodable hjournal _ => exact hjournal
  | version journal hjournal _ => exact Site.has_journal hjournal
  | label journal hjournal _ _ _ => exact Site.has_journal hjournal

theorem Site.Rejected.checkJournal (h : s.Rejected codec)
    (hnone : s.has .committed = false) {journal : Journal}
    (hjournal : s.journal codec = some journal) :
    checkJournal journal ≠ .ok () := by
  intro hcheck
  cases h with
  | conflict hcommitted _ =>
      rw [hnone] at hcommitted
      cases hcommitted
  | undecodable _ hundecodable =>
      rw [hundecodable] at hjournal
      cases hjournal
  | version journal' hjournal' hversion =>
      rw [hjournal'] at hjournal
      cases hjournal
      exact hversion (of_checkJournal hcheck).1
  | label journal' hjournal' e he hlabel =>
      rw [hjournal'] at hjournal
      cases hjournal
      obtain ⟨hvalid, hne⟩ := (of_checkJournal hcheck).2 e he
      exact hlabel.elim (fun h => h hvalid) hne

/-- Recovery refuses and nothing has happened. -/
theorem Site.Rejected.ends_recover (h : s.Rejected codec) :
    ∃ e, sites.machine.Ends Eq (Filesystem.recover codec).run s (.error e) s := by
  have hjournal := @ends_site_workExists s .journal
  rw [h.has_journal] at hjournal
  have hcommitted := @ends_site_workExists s .committed
  cases hhas : s.has .committed with
  | true =>
      rw [hhas] at hcommitted
      exact ⟨conflictingJournals, Ends.bindExcept hcommitted
        (Ends.bindExcept hjournal (Ends.bindError (ends_done _ s)))⟩
  | false =>
      rw [hhas] at hcommitted
      obtain ⟨e, hrollback⟩ := ends_site_rollback h.has_journal
        fun _ hsome => h.checkJournal hhas hsome
      exact ⟨e, Ends.bindExcept hcommitted
        (Ends.bindExcept hjournal (Ends.bindError hrollback))⟩

end Refused

/-! ## Accepted journals -/

/-- Nothing in `.tmp` is odd. -/
def Site.Plain (s : Site) : Prop :=
  ∀ name, s.odd name = false

/-- On a plain site a program runs as on its disk. -/
theorem safe_site {α : Type} {Q : α → Disk → Prop} {p : Prog Op Reply α}
    {s : Site} (hs : s.Plain)
    (h : (machine false).Safe (fun _ => True) Q p s.disk) :
    sites.machine.Safe (fun _ => True) (fun r t => t.Plain ∧ Q r t.disk) p s := by
  induction p generalizing s with
  | done a => exact ⟨trivial, hs, h.2⟩
  | call o k ih =>
      refine ⟨trivial, ?_⟩
      rintro r t ⟨other, -, hexec⟩
      have hnone : o.workNames.any s.odd = false := by simp [hs _]
      simp only [sites, hnone, Bool.false_eq_true, if_false] at hexec
      cases hexec
      exact ih _ hs (h.2 _ _ (step_machine_false.mpr rfl))

section Accepted

variable {s : Site} (other : (o : Op) → Site → Reply o × Site)

theorem Site.finishes_recover :
    sites.machine.Finishes (Filesystem.recover codec).run s
      (s.recover codec other).1 (s.recover codec other).2 :=
  Machine.Exec.finishes_run (X := sites) _ [] (fun _ h => by cases h) trivial s

/-- Recovery of a plain site by what it does to the tree. -/
theorem Site.Plain.recover (hs : s.Plain) (hsound : Sound s.disk) {T' : Tree}
    (h : Ends (Filesystem.recover codec).run s.disk.tree (.ok ()) T') :
    ∃ t, s.recover codec other = (.ok (), t) ∧ t.Plain ∧ IsTree t.disk T' := by
  have hend := ((safe_site hs (h s.disk ⟨hsound, rfl⟩)).finishes
    (s.finishes_recover other)).2
  exact ⟨_, Prod.ext hend.2.1 rfl, hend.1, hend.2.2⟩

theorem Disk.ready (hstore : s.disk.storeDir = true) (hwork : s.disk.workDir = true) :
    s.disk.tree.Ready where
  storeDir := hstore
  workDir := by rw [Disk.isSome_entry_workDir, hwork]
  workFiles := by
    intro name hname
    rw [Ne, Disk.files_eq_dir]
    exact Disk.node_work_ne_dir hname

theorem Site.Plain.has_eq (hs : s.Plain) (name : WorkName) :
    s.has name = (s.disk.tree.files (.work name)).isSome := by
  rw [Disk.isSome_work, Site.has, hs name, Bool.false_or]

/-- An accepted journal is read from its file. -/
theorem Site.Plain.accepted (hs : s.Plain) (haccepted : ¬s.Rejected codec)
    (hjournal : s.has .journal = true) :
    s.has .committed = false ∧ ∃ bytes,
      s.disk.tree.files (.work .journal) = some (.file bytes) ∧
        Accepted codec bytes (s.originals codec) := by
  constructor
  · rw [← Bool.not_eq_true]
    exact fun hcommitted => haccepted (.conflict hcommitted hjournal)
  · cases hsome : s.journal codec with
    | none => exact absurd (.undecodable hjournal hsome) haccepted
    | some journal =>
        have hdecoded := hsome
        simp only [Site.journal, hs .journal, Bool.false_eq_true, if_false,
          Option.bind_eq_some_iff] at hdecoded
        obtain ⟨i, hi, hdecodes⟩ := hdecoded
        refine ⟨s.disk.data i, ?_, ?_, ?_⟩
        · simp [Disk.tree, Disk.node, hi, Disk.content]
        · have hversion : journal.version = 1 := by
            by_contra hversion
            exact haccepted (.version journal hsome hversion)
          have horiginals : s.originals codec = journal.originals := by
            simp [Site.originals, hsome]
          cases hresult : codec.decodeJournal (s.disk.data i) with
          | error text =>
              rw [hresult] at hdecodes
              cases hdecodes
          | ok journal' =>
              rw [hresult] at hdecodes
              cases hdecodes
              rw [horiginals, ← hversion]
        · intro e he
          rw [Site.originals, hsome] at he
          by_contra hbad
          refine haccepted (.label journal hsome e he ?_)
          rw [not_and_or, not_not] at hbad
          exact hbad

/-- The tree that recovery leaves, if it does not refuse. -/
theorem Site.Plain.ends_recover (hs : s.Plain)
    (hready : s.disk.tree.Ready) (haccepted : ¬s.Rejected codec)
    (hfree : ∀ e ∈ s.originals codec, s.disk.tree.files (.entry e.1) ≠ some .dir) :
    ∃ T' : Tree,
      Ends (Filesystem.recover codec).run s.disk.tree (.ok ()) T'.cleaned ∧
      T'.Ready ∧ T'.files (.work .journal) = none ∧
      ∀ label, T'.files (.entry label) =
        match lastOriginal (s.originals codec) label with
        | some original => original.map .file
        | none => s.disk.tree.files (.entry label) := by
  by_cases hjournal : s.has .journal = true
  · obtain ⟨hnone, bytes, hbytes, hgood⟩ := hs.accepted haccepted hjournal
    rw [hs.has_eq, Option.isSome_eq_false_iff, Option.isNone_iff_eq_none] at hnone
    refine ⟨s.disk.tree.rolledBack (s.originals codec),
      ends_recover_journal hready hnone hbytes hgood hfree,
      (ends_rollback hready hbytes hgood hfree).2, ?_, ?_⟩
    · simp [Tree.rolledBack]
    · intro label
      simp only [Tree.rolledBack, Tree.files_set, reduceCtorEq, if_false]
      exact Tree.files_restoreAll_entry _ _ label
  · have hnone : s.disk.tree.files (.work .journal) = none := by
      rw [hs.has_eq, Option.isSome_iff_ne_none, not_not] at hjournal
      exact hjournal
    have horiginals : s.originals codec = [] := by
      cases hsome : s.journal codec with
      | none => simp [Site.originals, hsome]
      | some journal => exact absurd (Site.has_journal hsome) hjournal
    refine ⟨s.disk.tree, ends_recover_none hready hnone, hready, hnone, ?_⟩
    intro label
    rw [horiginals]
    rfl

end Accepted

theorem Tree.Ready.cleaned (h : T.Ready) : T.cleaned.Ready where
  storeDir := h.storeDir
  workDir := h.workDir
  workFiles := by
    intro name hname
    simp only [Tree.cleaned]
    split
    · simp
    · exact h.workFiles name hname

theorem lastOriginal_eq_none {originals : List (String × Option Bytes)}
    {label : String} (h : ∀ e ∈ originals, e.1 ≠ label) :
    lastOriginal originals label = none := by
  simpa [lastOriginal] using h

/-- The live entries once the tree is that of a recovered store. -/
theorem live_restored {d t : Disk} {T' : Tree}
    {originals : List (String × Option Bytes)} (hd : Sound d)
    (ht : IsTree t T'.cleaned) (hlabels : ∀ e ∈ originals, e.1 ≠ workDirName)
    (hfiles : ∀ label, T'.files (.entry label) =
      match lastOriginal originals label with
      | some original => original.map .file
      | none => d.tree.files (.entry label)) :
    t.live = restored originals d.live := by
  funext label
  rw [ht.1.live_eq, ht.2, restored]
  by_cases hname : label = workDirName
  · subst hname
    rw [lastOriginal_eq_none hlabels, hd.live_eq, if_pos rfl, if_pos rfl]
  · rw [if_neg hname]
    change T'.files (.entry label) = _
    rw [hfiles]
    cases lastOriginal originals label with
    | some original => rfl
    | none =>
        change d.tree.files (.entry label) = d.live label
        rw [hd.live_eq, if_neg hname]

/-- Recovery either refuses and changes nothing, or puts the last original of
every label back, removes its records and has nothing left to do. -/
theorem recovery_fails_closed (codec : Codec) (s : Site)
    (other : (o : Op) → Site → Reply o × Site) :
    (s.Rejected codec → ∃ e, s.recover codec other = (.error e, s)) ∧
    (¬s.Rejected codec → s.Plain → Sound s.disk → s.disk.storeDir = true →
      s.disk.workDir = true →
      (∀ e ∈ s.originals codec, s.disk.live e.1 ≠ some .dir) →
        ∃ t, s.recover codec other = (.ok (), t) ∧
          t.disk.live = restored (s.originals codec) s.disk.live ∧
          (∀ name, name ≠ .lock → t.has name = false) ∧
          ∃ t', t.recover codec other = (.ok (), t') ∧
            t'.odd = t.odd ∧ t'.disk.tree = t.disk.tree) := by
  constructor
  · intro h
    obtain ⟨e, hends⟩ := h.ends_recover
    obtain ⟨hresult, hsame⟩ := hends.finishes rfl (s.finishes_recover other)
    exact ⟨e, Prod.ext hresult hsame⟩
  · intro haccepted hs hsound hstore hwork hfree
    have hlabels : ∀ e ∈ s.originals codec, e.1 ≠ workDirName := by
      intro e he hname
      cases hsome : s.journal codec with
      | none => simp [Site.originals, hsome] at he
      | some journal =>
          rw [Site.originals, hsome] at he
          exact haccepted (.label journal hsome e he (Or.inr hname))
    have hfree' : ∀ e ∈ s.originals codec,
        s.disk.tree.files (.entry e.1) ≠ some .dir := by
      intro e he
      have hdir := hfree e he
      rwa [hsound.live_eq, if_neg (hlabels e he)] at hdir
    obtain ⟨T', hends, hready, hnone, hfiles⟩ :=
      hs.ends_recover (Disk.ready hstore hwork) haccepted hfree'
    obtain ⟨t, hrecover, ht, htree⟩ := hs.recover other hsound hends
    have hagain := @ends_recover_none codec _ hready.cleaned hnone
    rw [T'.cleaned_cleaned, ← htree.2] at hagain
    obtain ⟨t', hrecover', ht', htree'⟩ := ht.recover other htree.1 hagain
    refine ⟨t, hrecover, live_restored hsound htree hlabels hfiles, ?_, t',
      hrecover', funext fun name => (ht' name).trans (ht name).symm, htree'.2⟩
    intro name hname
    rw [ht.has_eq, htree.2]
    cases name with
    | lock => exact absurd rfl hname
    | journal =>
        change (T'.files (.work .journal)).isSome = false
        rw [hnone]
        rfl
    | _ => rfl

/-- A journal with two entries for one label. -/
def repeatedJournal : Journal := ⟨1, [("a", none), ("a", some [7])]⟩

def repeatedJournalBytes : Bytes :=
  [0xa2] ++ cborText "version" ++ [0x01] ++ cborText "originals" ++ [0x82] ++
    ([0x82] ++ cborText "a" ++ [0xf6]) ++ ([0x82] ++ cborText "a" ++ [0x81, 0x07])

/-- CBOR, with that journal as well. -/
def repeatedCodec : Codec where
  encodeEntry := sampleCodec.encodeEntry
  decodeEntry := sampleCodec.decodeEntry
  encodeJournal := fun j =>
    if j = repeatedJournal then .ok repeatedJournalBytes
    else sampleCodec.encodeJournal j
  decodeJournal := fun bytes =>
    if bytes = repeatedJournalBytes then .ok repeatedJournal
    else sampleCodec.decodeJournal bytes

/-- Entries `a` and `b`, the journal and a staged file. -/
def interruptedSite : Site where
  disk :=
    { emptyStore with
      store := Dir.synced ((∅ : HashMap String Node).insert "a" (.file 0) |>.insert
        "b" (.file 1))
      work := Dir.synced ((∅ : HashMap WorkName Ino).insert .journal 2 |>.insert
        .staging 3)
      staging := fun _ => Dir.synced ((∅ : HashMap ℕ Ino).insert 0 4)
      data := fun i => if i = 2 then repeatedJournalBytes else [UInt8.ofNat i]
      nextIno := 5
      fresh := fun _ _ => rfl }
  odd := fun _ => false

theorem sound_interruptedSite : Sound interruptedSite.disk := by
  refine .of_views ?_ ?_ ?_ (by decide +kernel)
  · intro label i hi
    change (((∅ : HashMap String Node).insert "a" (.file 0)).insert "b"
      (.file 1)).lookup label = _ at hi
    rw [HashMap.lookup_insert, HashMap.lookup_insert] at hi
    change i < 5
    split_ifs at hi <;> cases hi <;> decide
  · intro name i hi
    change (((∅ : HashMap WorkName Ino).insert .journal 2).insert .staging
      3).lookup name = _ at hi
    rw [HashMap.lookup_insert, HashMap.lookup_insert] at hi
    change i < 5
    split_ifs at hi <;> cases hi <;> decide
  · intro s index i hi
    change ((∅ : HashMap ℕ Ino).insert 0 4).lookup index = _ at hi
    rw [HashMap.lookup_insert] at hi
    change i < 5
    split_ifs at hi
    · cases hi
      decide
    · cases hi

theorem interruptedSite_accepted : ¬interruptedSite.Rejected repeatedCodec := by
  have hjournal : interruptedSite.journal repeatedCodec = some repeatedJournal := by
    decide +kernel
  rintro (⟨hcommitted, -⟩ | ⟨-, hnone⟩ | ⟨j, hj, hversion⟩ | ⟨j, hj, e, he, hlabel⟩)
  · exact absurd hcommitted (by decide +kernel)
  · rw [hjournal] at hnone
    cases hnone
  · rw [hjournal] at hj
    cases hj
    exact hversion rfl
  · rw [hjournal] at hj
    cases hj
    have hlabels : ∀ e ∈ repeatedJournal.originals, e.1 = "a" := by decide
    rw [hlabels e he] at hlabel
    exact hlabel.elim (fun h => h rfl) (by decide)

/-- Odd names that do not change. -/
def leaveOdd (o : Op) (s : Site) : Reply o × Site :=
  ((perform o s.disk).1, s)

/-- The second entry of the label counts, and the other entry stays. -/
theorem recovery_fails_closed_interruptedSite :
    ∃ t, interruptedSite.recover repeatedCodec leaveOdd = (.ok (), t) ∧
      t.disk.live "a" = some (.file [7]) ∧ t.disk.live "b" = some (.file [1]) ∧
      t.has .journal = false := by
  have hfree : ∀ e ∈ interruptedSite.originals repeatedCodec,
      interruptedSite.disk.live e.1 ≠ some .dir := by decide +kernel
  obtain ⟨t, hrecover, hlive, hgone, -⟩ :=
    (recovery_fails_closed repeatedCodec interruptedSite leaveOdd).2
      interruptedSite_accepted (fun _ => rfl) sound_interruptedSite rfl rfl hfree
  refine ⟨t, hrecover, ?_, ?_, hgone .journal (by decide)⟩
  · rw [hlive]
    decide +kernel
  · rw [hlive]
    decide +kernel

/-- A directory named like the commit record, and nothing else. -/
def oddSite : Site where
  disk := emptyStore
  odd := fun name => decide (name = .committed)

theorem odd_commit_record_stops_recovery :
    ¬oddSite.Rejected sampleCodec ∧ Sound oddSite.disk ∧
      oddSite.originals sampleCodec = [] ∧
      ∀ other, oddSite.recover sampleCodec other =
        (.error (.os .isADirectory), oddSite) := by
  refine ⟨?_, ?_, rfl, fun other => rfl⟩
  · rintro (⟨-, hjournal⟩ | ⟨hjournal, -⟩ | ⟨_, hjournal, -⟩ | ⟨_, hjournal, -⟩)
    · cases hjournal
    · cases hjournal
    · cases hjournal
    · cases hjournal
  · exact .of_views (fun _ _ h => by cases h) (fun _ _ h => by cases h)
      (fun _ _ _ h => by cases h) rfl

end Connexa.Keystore.Filesystem
