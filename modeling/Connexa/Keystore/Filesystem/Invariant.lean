import Connexa.Keystore.Filesystem.Store

/-!
# Invariants of a store on disk

Three conditions on a disk say what recovery makes of it: the entries are `O`
and nothing is under way (`AtRest`), recovery leads to `O` (`Undoable`), or
the entries are `N` already and only the loss of the commit record leads back
to `O` (`Committed`).  With `lossy` they speak about every state in which a
crash may leave the directories, without it about the current state only.

Most primitives are `Calm`: they touch neither the entries nor the journal,
and keep all three conditions.
-/

namespace Connexa.Keystore.Filesystem

open HashMap

variable {codec : Codec} {lossy : Bool} {d d' : Disk} {O N : Contents}

/-! ## Conditions -/

/-- The node found under a name has this content; the bytes of a file are
safely on disk. -/
def ShowsAt (d : Disk) (node : Option Node) (content : Option Content) : Prop :=
  content = node.map d.content ∧ ∀ i, node = some (.file i) → d.synced i = true

/-- The directory has these contents. -/
def Shows (d : Disk) (V : HashMap String Node) (O : Contents) : Prop :=
  ∀ label, ShowsAt d (V.lookup label) (O label)

/-- The file is a journal whose originals are those of `O`. -/
structure GoodJournal (codec : Codec) (d : Disk) (i : Ino)
    (L : List (String × Option Bytes)) (O : Contents) : Prop where
  synced : d.synced i = true
  decodes : codec.decodeJournal (d.data i) = .ok ⟨1, L⟩
  labels : ∀ e ∈ L, validateLabel e.1 = .ok () ∧ e.1 ≠ workDirName
  originals : ∀ e ∈ L, O e.1 = e.2.map .file

/-- Restoring the originals `L` turns the directory into `O`. -/
structure AgreesOff (d : Disk) (V : HashMap String Node)
    (L : List (String × Option Bytes)) (O : Contents) : Prop where
  others : ∀ label, (∀ e ∈ L, e.1 ≠ label) → ShowsAt d (V.lookup label) (O label)
  files : ∀ e ∈ L, V.lookup e.1 ≠ some .dir

/-- A journal, wherever one may be found, leads back to `O`. -/
def JournalsLeadTo (codec : Codec) (lossy : Bool) (O : Contents) (d : Disk) :
    Prop :=
  ∀ W, d.work.Sees lossy W → ∀ i, W.lookup .journal = some i →
    W.lookup .committed = none ∧
      ∃ L, GoodJournal codec d i L O ∧
        ∀ V, d.store.Sees lossy V → AgreesOff d V L O

/-- There is no journal. -/
def NoJournal (W : HashMap WorkName Ino) : Prop :=
  W.lookup .journal = none

/-- Recovery leads to `O`: there is a journal for sure, or the entries are `O`. -/
structure Undoable (codec : Codec) (lossy : Bool) (O : Contents) (d : Disk) :
    Prop where
  journals : JournalsLeadTo codec lossy O d
  held : (∀ W, d.work.Sees lossy W → ¬NoJournal W) ∨
    ∀ V, d.store.Sees lossy V → Shows d V O

/-- The entries are `N` and there is no journal.  Where updates can be lost,
an older journal may come back and lead to `O`. -/
structure Committed (codec : Codec) (lossy : Bool) (O N : Contents) (d : Disk) :
    Prop where
  journals : JournalsLeadTo codec lossy O d
  shown : ∀ V, d.store.Sees lossy V → Shows d V N
  gone : NoJournal d.work.view
  stays : O = N ∨ d.work.Stays lossy NoJournal

/-- The entries are `O` and there is neither a journal nor a commit record. -/
structure AtRest (lossy : Bool) (O : Contents) (d : Disk) : Prop where
  shown : ∀ V, d.store.Sees lossy V → Shows d V O
  absent : ∀ W, d.work.Sees lossy W → NoJournal W ∧ W.lookup .committed = none

/-- The number of journals that became commit records so far. -/
def Disk.commits (d : Disk) : ℕ :=
  d.renames.count (.work .journal, .work .committed)

/-- Unless there are faults the directories are there, and `n` batches were
committed. -/
structure Standing (faults : Bool) (n : ℕ) (d : Disk) : Prop where
  workDir : faults = false → d.workDir = true
  storeDir : faults = false → d.storeDir = true
  commits : d.commits = n

/-! ## Relations between them -/

theorem Shows.live_eq (h : Shows d d.store.view O) : d.live = O := by
  funext label
  exact (h label).1.symm

theorem AtRest.live_eq (h : AtRest lossy O d) : d.live = O :=
  (h.shown _ (Dir.sees_view lossy d.store)).live_eq

theorem AtRest.undoable (h : AtRest lossy O d) : Undoable codec lossy O d where
  journals := by
    intro W hW i hi
    have hnone : W.lookup .journal = none := (h.absent W hW).1
    rw [hnone] at hi
    cases hi
  held := Or.inr h.shown

theorem Undoable.committed (h : Undoable codec lossy O d)
    (hgone : NoJournal d.work.view) : Committed codec lossy O O d where
  journals := h.journals
  shown := by
    rcases h.held with hall | hshown
    · exact absurd hgone (hall _ (Dir.sees_view lossy d.work))
    · exact hshown
  gone := hgone
  stays := Or.inl rfl

theorem Committed.undoable (h : Committed codec lossy N N d) :
    Undoable codec lossy N d :=
  ⟨h.journals, Or.inr h.shown⟩

/-- Where nothing can be lost, a journal that is gone stays gone. -/
theorem Committed.undoable_of_not_lossy (h : Committed codec false O N d) :
    Undoable codec false N d where
  journals := by
    intro W hW i hi
    have hview : W = d.work.view := hW
    rw [hview, h.gone] at hi
    cases hi
  held := Or.inr h.shown

theorem Committed.live_eq (h : Committed codec lossy O N d) : d.live = N :=
  (h.shown _ (Dir.sees_view lossy d.store)).live_eq

/-! ## Calm steps -/

/-- Files that are safely on disk stay as they are. -/
def Kept (d d' : Disk) : Prop :=
  ∀ i, d.synced i = true → d'.synced i = true ∧ d'.data i = d.data i

/-- The step touches neither the entries nor the journal. -/
structure Calm (lossy : Bool) (d d' : Disk) : Prop where
  workDir : d.workDir = true → d'.workDir = true
  storeDir : d.storeDir = true → d'.storeDir = true
  store : ∀ V, d'.store.Sees lossy V → d.store.Sees lossy V
  storeView : d'.store.view = d.store.view
  work : ∀ W', d'.work.Sees lossy W' → ∃ W, d.work.Sees lossy W ∧
    W'.lookup .journal = W.lookup .journal ∧
      (W'.lookup .committed = none ∨
        W'.lookup .committed = W.lookup .committed)
  journal : d'.work.view.lookup .journal = d.work.view.lookup .journal
  committed : d.work.view.lookup .committed = none →
    d'.work.view.lookup .committed = none
  stays : d.work.Stays lossy NoJournal → d'.work.Stays lossy NoJournal
  kept : Kept d d'
  commits : d'.commits = d.commits

/-- A step that leaves both directories as they are. -/
theorem Calm.of_same (hwork : d'.work = d.work) (hstore : d'.store = d.store)
    (hrenames : d'.renames = d.renames)
    (hworkDir : d.workDir = true → d'.workDir = true)
    (hstoreDir : d.storeDir = true → d'.storeDir = true)
    (hkept : Kept d d') : Calm lossy d d' where
  workDir := hworkDir
  storeDir := hstoreDir
  store := fun _ h => hstore ▸ h
  storeView := by rw [hstore]
  work := fun W' h => ⟨W', hwork ▸ h, rfl, Or.inr rfl⟩
  journal := by rw [hwork]
  committed := fun h => by rwa [hwork]
  stays := fun h => by rwa [hwork]
  kept := hkept
  commits := by rw [Disk.commits, Disk.commits, hrenames]

theorem Calm.refl (d : Disk) : Calm lossy d d :=
  .of_same rfl rfl rfl id id fun _ h => ⟨h, rfl⟩

theorem Calm.trans {d'' : Disk} (h₁ : Calm lossy d d') (h₂ : Calm lossy d' d'') :
    Calm lossy d d'' where
  workDir := fun h => h₂.workDir (h₁.workDir h)
  storeDir := fun h => h₂.storeDir (h₁.storeDir h)
  store := fun V hV => h₁.store V (h₂.store V hV)
  storeView := h₂.storeView.trans h₁.storeView
  work := by
    intro W'' hW''
    obtain ⟨W', hW', hj', hc'⟩ := h₂.work W'' hW''
    obtain ⟨W, hW, hj, hc⟩ := h₁.work W' hW'
    refine ⟨W, hW, hj'.trans hj, ?_⟩
    rcases hc' with hc' | hc'
    · exact Or.inl hc'
    · rw [hc']
      exact hc
  journal := h₂.journal.trans h₁.journal
  committed := fun h => h₂.committed (h₁.committed h)
  stays := fun h => h₂.stays (h₁.stays h)
  kept := by
    intro i hi
    obtain ⟨hs', hd'⟩ := h₁.kept i hi
    obtain ⟨hs'', hd''⟩ := h₂.kept i hs'
    exact ⟨hs'', hd''.trans hd'⟩
  commits := h₂.commits.trans h₁.commits

/-! ### What calm steps keep -/

section Kept

variable (hkept : Kept d d')

include hkept

theorem ShowsAt.of_kept {node : Option Node} {content : Option Content}
    (h : ShowsAt d node content) : ShowsAt d' node content := by
  refine ⟨?_, fun i hi => (hkept i (h.2 i hi)).1⟩
  rw [h.1]
  cases node with
  | none => rfl
  | some n =>
      cases n with
      | dir => rfl
      | file i => simp [Disk.content, (hkept i (h.2 i rfl)).2]

theorem Shows.of_kept {V : HashMap String Node} (h : Shows d V O) :
    Shows d' V O :=
  fun label => (h label).of_kept hkept

theorem GoodJournal.of_kept {i : Ino} {L : List (String × Option Bytes)}
    (h : GoodJournal codec d i L O) : GoodJournal codec d' i L O where
  synced := (hkept i h.synced).1
  decodes := by
    rw [(hkept i h.synced).2]
    exact h.decodes
  labels := h.labels
  originals := h.originals

theorem AgreesOff.of_kept {V : HashMap String Node}
    {L : List (String × Option Bytes)} (h : AgreesOff d V L O) :
    AgreesOff d' V L O :=
  ⟨fun label hl => (h.others label hl).of_kept hkept, h.files⟩

end Kept

theorem JournalsLeadTo.of_calm (h : JournalsLeadTo codec lossy O d)
    (hcalm : Calm lossy d d') : JournalsLeadTo codec lossy O d' := by
  intro W' hW' i hi
  obtain ⟨W, hW, hj, hc⟩ := hcalm.work W' hW'
  obtain ⟨hnone, L, hgood, hagrees⟩ := h W hW i (hj ▸ hi)
  constructor
  · rcases hc with hc | hc
    · exact hc
    · rw [hc, hnone]
  · exact ⟨L, hgood.of_kept hcalm.kept,
      fun V hV => (hagrees V (hcalm.store V hV)).of_kept hcalm.kept⟩

theorem Undoable.of_calm (h : Undoable codec lossy O d)
    (hcalm : Calm lossy d d') : Undoable codec lossy O d' where
  journals := h.journals.of_calm hcalm
  held := by
    rcases h.held with hall | hshown
    · left
      intro W' hW'
      obtain ⟨W, hW, hj, -⟩ := hcalm.work W' hW'
      have hW := hall W hW
      rwa [NoJournal, ← hj] at hW
    · exact Or.inr fun V hV => (hshown V (hcalm.store V hV)).of_kept hcalm.kept

theorem Committed.of_calm (h : Committed codec lossy O N d)
    (hcalm : Calm lossy d d') : Committed codec lossy O N d' where
  journals := h.journals.of_calm hcalm
  shown := fun V hV => (h.shown V (hcalm.store V hV)).of_kept hcalm.kept
  gone := hcalm.journal.trans h.gone
  stays := h.stays.imp id hcalm.stays

theorem AtRest.of_calm (h : AtRest lossy O d) (hcalm : Calm lossy d d') :
    AtRest lossy O d' where
  shown := fun V hV => (h.shown V (hcalm.store V hV)).of_kept hcalm.kept
  absent := by
    intro W' hW'
    obtain ⟨W, hW, hj, hc⟩ := hcalm.work W' hW'
    obtain ⟨hnone, hcommitted⟩ := h.absent W hW
    constructor
    · exact hj.trans hnone
    · rcases hc with hc | hc
      · exact hc
      · exact hc.trans hcommitted

theorem Standing.of_calm {faults : Bool} {n : ℕ} (h : Standing faults n d)
    (hcalm : Calm lossy d d') : Standing faults n d' :=
  ⟨fun hf => hcalm.workDir (h.workDir hf),
    fun hf => hcalm.storeDir (h.storeDir hf),
    hcalm.commits.trans h.commits⟩

/-! ## Which primitives are calm -/

theorem Disk.synced_ne_nextIno {i : Ino} (hi : d.synced i = true) :
    i ≠ d.nextIno := by
  rintro rfl
  rw [d.fresh _ le_rfl] at hi
  cases hi

theorem calm_newFile (d : Disk) : Calm lossy d d.newFile :=
  .of_same rfl rfl rfl id id
    fun _ h => ⟨h, if_neg (Disk.synced_ne_nextIno h)⟩

theorem calm_write {ino : Ino} (bytes : Bytes) (h : d.synced ino = false) :
    Calm lossy d (d.write ino bytes) := by
  refine .of_same rfl rfl rfl id id ?_
  intro i hi
  have hne : i ≠ ino := by
    rintro rfl
    rw [h] at hi
    cases hi
  exact ⟨(if_neg hne).trans hi, if_neg hne⟩

theorem calm_syncFile (ino : Ino) (d : Disk) :
    Calm lossy d (d.syncFile ino) := by
  refine .of_same rfl rfl rfl id id ?_
  intro i hi
  refine ⟨?_, rfl⟩
  simp only [Disk.syncFile]
  split
  · rfl
  · exact hi

/-- Updates of `.tmp` are calm when they leave the journal alone and at most
remove the commit record. -/
theorem calm_work (name : WorkName) (value : Option Ino)
    (hjournal : name ≠ .journal) (hcommitted : name = .committed → value = none) :
    Calm lossy d { d with work := d.work.push [(name, value)] } where
  workDir := id
  storeDir := id
  store := fun _ h => h
  storeView := rfl
  work := by
    intro W' hW'
    rcases Dir.sees_push hW' with hW | rfl
    · exact ⟨W', hW, rfl, Or.inr rfl⟩
    · refine ⟨_, Dir.sees_view lossy d.work, ?_, ?_⟩
      · simp [Ne.symm hjournal]
      · by_cases hname : name = .committed
        · left
          simp [hname, hcommitted hname]
        · right
          simp [Ne.symm hname]
  journal := by simp [Ne.symm hjournal]
  committed := by
    intro hnone
    by_cases hname : name = .committed
    · simp [hname, hcommitted hname]
    · simpa [Ne.symm hname] using hnone
  stays := by
    intro hstays
    apply Dir.stays_push hstays
    intro hgone
    simpa [NoJournal, Ne.symm hjournal] using hgone
  kept := fun _ h => ⟨h, rfl⟩
  commits := rfl

theorem calm_onStaging (f : Dir ℕ Ino → Dir ℕ Ino) (d : Disk) :
    Calm lossy d (d.onStaging f) := by
  unfold Disk.onStaging
  split
  · exact .of_same rfl rfl rfl id id fun _ h => ⟨h, rfl⟩
  · exact Calm.refl d

theorem calm_makeDir (dir : DirName) (d : Disk) :
    Calm lossy d (d.makeDir dir) := by
  cases dir with
  | here => exact Calm.refl d
  | outside => exact .of_same rfl rfl rfl id id fun _ h => ⟨h, rfl⟩
  | store => exact .of_same rfl rfl rfl id (fun _ => rfl) fun _ h => ⟨h, rfl⟩
  | work => exact .of_same rfl rfl rfl (fun _ => rfl) id fun _ h => ⟨h, rfl⟩
  | staging =>
      have hname : Calm lossy d.newFile
          { d.newFile with work := d.work.push [(.staging, some d.nextIno)] } :=
        calm_work _ _ (by decide) (fun h => by cases h)
      refine ((calm_newFile d).trans hname).trans ?_
      exact .of_same rfl rfl rfl id id fun _ h => ⟨h, rfl⟩

theorem calm_syncDir (dir : DirName) (d : Disk) :
    Calm lossy d (d.syncDir dir) := by
  have hrefl : Calm lossy d d := Calm.refl d
  cases dir with
  | here => exact hrefl
  | outside => exact hrefl
  | staging => exact calm_onStaging Dir.sync d
  | store =>
      exact { hrefl with
        store := fun V hV => Dir.sees_sync hV ▸ Dir.sees_view lossy d.store }
  | work =>
      exact { hrefl with
        work := fun W' hW' => ⟨W',
          Dir.sees_sync hW' ▸ Dir.sees_view lossy d.work, rfl, Or.inr rfl⟩
        stays := fun _ => Dir.stays_sync lossy NoJournal d.work }

/-- Primitives that are calm whether they fail or not. -/
def Op.Quiet (d : Disk) : Op → Prop
  | .createNew (.work name) => name ≠ .journal ∧ name ≠ .committed
  | .createNew (.entry _) => False
  | .writeAll ino _ => d.synced ino = false
  | .rename _ _ => False
  | .removeFile (.work name) => name ≠ .journal
  | .removeFile (.entry _) => False
  | _ => True

theorem calm_performFault (o : Op) (f : Fault) (ho : o.Quiet d) :
    Calm lossy d (performFault o f d).2 := by
  cases o with
  | writeAll ino bytes => exact calm_write _ ho
  | _ => exact Calm.refl d

theorem calm_perform (o : Op) (ho : o.Quiet d) :
    Calm lossy d (perform o d).2 := by
  cases o with
  | createDir dir =>
      simp only [perform]
      split_ifs
      · exact Calm.refl d
      · exact calm_makeDir dir d
      · exact Calm.refl d
  | syncDir dir =>
      simp only [perform]
      split_ifs
      · exact calm_syncDir dir d
      · exact Calm.refl d
  | createNew path =>
      simp only [perform]
      split_ifs
      · exact Calm.refl d
      · refine (calm_newFile d).trans ?_
        cases path with
        | entry label => exact ho.elim
        | work name => exact calm_work _ _ ho.1 fun h => absurd h ho.2
        | staged index => exact calm_onStaging _ _
      · exact Calm.refl d
  | writeAll ino bytes => exact calm_write bytes ho
  | syncAll ino => exact calm_syncFile ino d
  | rename src dst => exact ho.elim
  | removeFile path =>
      simp only [perform]
      split
      · exact Calm.refl d
      · exact Calm.refl d
      · cases path with
        | entry label => exact ho.elim
        | work name => exact calm_work _ _ ho fun _ => rfl
        | staged index => exact calm_onStaging _ _
  | removeStaging =>
      simp only [perform]
      split
      · split_ifs
        · exact calm_work _ _ (by decide) fun _ => rfl
        · exact Calm.refl d
      · exact Calm.refl d
  | openLock =>
      simp only [perform]
      split_ifs
      · exact Calm.refl d
      · exact Calm.refl d
      · exact (calm_newFile d).trans
          (calm_work _ _ (by decide) fun h => by cases h)
  | isFile label =>
      simp only [perform]
      split <;> exact Calm.refl d
  | read path =>
      simp only [perform]
      split <;> exact Calm.refl d
  | readStaging =>
      simp only [perform]
      split <;> exact Calm.refl d
  | readStore =>
      simp only [perform]
      split_ifs <;> exact Calm.refl d
  | _ => exact Calm.refl d

theorem calm_exec {o : Op} (ho : o.Quiet d) (c : Option Fault) :
    Calm lossy d (exec o c d).2 := by
  cases c with
  | none => exact calm_perform o ho
  | some f => exact calm_performFault o f ho

/-! ## Steps that are not calm -/

section Restore

variable {V : HashMap String Node} {label : String} {node : Option Node}

theorem Shows.restore (h : Shows d V O) (hshows : ShowsAt d node (O label)) :
    Shows d (Dir.applyUpdate V [(label, node)]) O := by
  intro other
  by_cases hname : other = label
  · subst hname
    simpa using hshows
  · simpa [hname] using h other

theorem AgreesOff.restore {L : List (String × Option Bytes)}
    (h : AgreesOff d V L O) (hshows : ShowsAt d node (O label))
    (hfile : node ≠ some .dir) :
    AgreesOff d (Dir.applyUpdate V [(label, node)]) L O where
  others := by
    intro other hother
    by_cases hname : other = label
    · subst hname
      simpa using hshows
    · simpa [hname] using h.others other hother
  files := by
    intro e he
    by_cases hname : e.1 = label
    · simpa [hname] using hfile
    · simpa [hname] using h.files e he

/-- Putting an original back keeps the way back open. -/
theorem Undoable.restore (h : Undoable codec lossy O d)
    (hshows : ShowsAt d node (O label)) (hfile : node ≠ some .dir) :
    Undoable codec lossy O
      { d with store := d.store.push [(label, node)] } := by
  have hkept : Kept d { d with store := d.store.push [(label, node)] } :=
    fun _ h => ⟨h, rfl⟩
  constructor
  · intro W hW i hi
    obtain ⟨hnone, L, hgood, hagrees⟩ := h.journals W hW i hi
    refine ⟨hnone, L, hgood.of_kept hkept, ?_⟩
    intro V hV
    rcases Dir.sees_push hV with hV | rfl
    · exact (hagrees V hV).of_kept hkept
    · exact ((hagrees _ (Dir.sees_view lossy d.store)).restore hshows
        hfile).of_kept hkept
  · rcases h.held with hall | hshown
    · exact Or.inl hall
    · right
      intro V hV
      rcases Dir.sees_push hV with hV | rfl
      · exact (hshown V hV).of_kept hkept
      · exact ((hshown _ (Dir.sees_view lossy d.store)).restore
          hshows).of_kept hkept

end Restore

/-- The journal may go once the entries are `O` for sure. -/
theorem Undoable.removeJournal (h : Undoable codec lossy O d)
    (hshown : ∀ V, d.store.Sees lossy V → Shows d V O) :
    Undoable codec lossy O
      { d with work := d.work.push [(.journal, none)] } := by
  have hkept : Kept d { d with work := d.work.push [(.journal, none)] } :=
    fun _ h => ⟨h, rfl⟩
  constructor
  · intro W hW i hi
    rcases Dir.sees_push hW with hW | rfl
    · obtain ⟨hnone, L, hgood, hagrees⟩ := h.journals W hW i hi
      exact ⟨hnone, L, hgood.of_kept hkept,
        fun V hV => (hagrees V hV).of_kept hkept⟩
    · simp at hi
  · exact Or.inr fun V hV => (hshown V hV).of_kept hkept

/-! ## Crashes -/

theorem Crash.kept (h : Crash d d') : Kept d d' :=
  fun i hi => ⟨h.synced ▸ hi, h.data i hi⟩

theorem JournalsLeadTo.of_crash (h : JournalsLeadTo codec true O d)
    (hcrash : Crash d d') : JournalsLeadTo codec true O d' := by
  intro W hW i hi
  obtain ⟨hnone, L, hgood, hagrees⟩ := h W (hcrash.work.sees hW) i hi
  exact ⟨hnone, L, hgood.of_kept hcrash.kept,
    fun V hV => (hagrees V (hcrash.store.sees hV)).of_kept hcrash.kept⟩

theorem Undoable.of_crash (h : Undoable codec true O d) (hcrash : Crash d d') :
    Undoable codec true O d' where
  journals := h.journals.of_crash hcrash
  held := by
    rcases h.held with hall | hshown
    · exact Or.inl fun W hW => hall W (hcrash.work.sees hW)
    · exact Or.inr fun V hV =>
        (hshown V (hcrash.store.sees hV)).of_kept hcrash.kept

/-- A crash after a commit leaves it committed, or brings the journal back for
good. -/
theorem Committed.of_crash (h : Committed codec true O N d)
    (hcrash : Crash d d') :
    Undoable codec true O d' ∨ Committed codec true O N d' := by
  have hjournals := h.journals.of_crash hcrash
  have hshown : ∀ V, d'.store.Sees true V → Shows d' V N :=
    fun V hV => (h.shown V (hcrash.store.sees hV)).of_kept hcrash.kept
  rcases h.stays with rfl | hstays
  · exact Or.inl ⟨hjournals, Or.inr hshown⟩
  · have hstays' := hcrash.work.stays hstays
    by_cases hgone : NoJournal d'.work.view
    · exact Or.inr ⟨hjournals, hshown, hgone, Or.inr hstays'⟩
    · exact Or.inl ⟨hjournals,
        Or.inl fun W hW => Dir.Stays.not_of_not_view hstays' hgone hW⟩

end Connexa.Keystore.Filesystem
