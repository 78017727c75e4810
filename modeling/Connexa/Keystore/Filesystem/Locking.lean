import Connexa.Keystore.Filesystem.Operations

/-!
# What the file lock protects

A job of a store that does not hold the lock yet makes the directories and opens
the lock file.  While another job holds the lock these are all there, and so the
first one changes nothing that can be seen.  The holder itself never removes
them.
-/

namespace Connexa.Keystore.Filesystem

open HashMap Machine

variable {d d' u w : Disk}

/-! ## Disks that look the same -/

/-- The disks differ in what has been synced only. -/
structure Alike (u w : Disk) : Prop where
  outsideDir : u.outsideDir = w.outsideDir
  storeDir : u.storeDir = w.storeDir
  workDir : u.workDir = w.workDir
  store : u.store.view = w.store.view
  work : u.work.view = w.work.view
  staging : ∀ s, (u.staging s).view = (w.staging s).view
  data : u.data = w.data
  nextIno : u.nextIno = w.nextIno

namespace Alike

theorem refl (d : Disk) : Alike d d :=
  ⟨rfl, rfl, rfl, rfl, rfl, fun _ => rfl, rfl, rfl⟩

theorem stagingIno (h : Alike u w) : u.stagingIno = w.stagingIno := by
  simp only [Disk.stagingIno, h.work]

theorem node (h : Alike u w) : u.node = w.node := by
  funext path
  cases path with
  | entry label => simp only [Disk.node, h.workDir, h.store]
  | work name => simp only [Disk.node, h.work]
  | staged index => simp only [Disk.node, h.stagingIno, h.staging]

theorem hasDir (h : Alike u w) (dir : DirName) : u.hasDir dir = w.hasDir dir := by
  cases dir with
  | here => rfl
  | outside => exact h.outsideDir
  | store => exact h.storeDir
  | work => exact h.workDir
  | staging => simp only [Disk.hasDir, h.stagingIno]

theorem hasParent (h : Alike u w) (path : Path) :
    u.hasParent path = w.hasParent path := by
  cases path with
  | entry label => exact h.storeDir
  | work name => exact h.workDir
  | staged index => simp only [Disk.hasParent, h.stagingIno]

theorem tree (h : Alike u w) : u.tree = w.tree := by
  refine Tree.ext h.outsideDir h.storeDir ?_
  have hcontent : u.content = w.content := by
    funext node
    cases node <;> simp only [Disk.content, h.data]
  funext path
  simp only [Disk.tree, h.node, hcontent]

theorem sound (h : Alike u w) (hu : Sound u) : Sound w where
  linked := by
    intro path i hi
    rw [← h.node] at hi
    rw [← h.nextIno]
    exact hu.linked path i hi
  apart := by
    rw [← h.store]
    exact hu.apart

theorem onStaging (h : Alike u w) {f : Dir ℕ Ino → Dir ℕ Ino}
    (hf : ∀ a b : Dir ℕ Ino, a.view = b.view → (f a).view = (f b).view) :
    Alike (u.onStaging f) (w.onStaging f) := by
  simp only [Disk.onStaging, h.stagingIno]
  cases w.stagingIno with
  | none => exact h
  | some s =>
      refine { h with staging := fun s' => ?_ }
      by_cases hs : s' = s
      · simpa [hs] using hf _ _ (h.staging s)
      · simpa [hs] using h.staging s'

theorem view_push {N X : Type} [DecidableEq N] (updates : DirUpdate N X)
    {a b : Dir N X} (h : a.view = b.view) :
    (a.push updates).view = (b.push updates).view := by
  simp [h]

theorem assign (h : Alike u w) (path : Path) (value : Option Ino) :
    Alike (u.assign path value) (w.assign path value) := by
  cases path with
  | entry label => exact { h with store := view_push _ h.store }
  | work name => exact { h with work := view_push _ h.work }
  | staged index => exact h.onStaging fun _ _ hview => view_push _ hview

theorem newFile (h : Alike u w) : Alike u.newFile w.newFile :=
  { h with
    data := by simp only [Disk.newFile, h.data, h.nextIno]
    nextIno := by simp only [Disk.newFile, h.nextIno] }

theorem move (h : Alike u w) (src dst : Path) (i : Ino) :
    Alike (u.move src dst i) (w.move src dst i) := by
  have hrecord : ∀ renames renames',
      Alike { u with renames := renames } { w with renames := renames' } :=
    fun _ _ => { h with }
  unfold Disk.move
  split
  · exact { h with work := view_push _ h.work }
  · exact { h with store := view_push _ h.store }
  · exact (hrecord _ _).onStaging fun _ _ hview => view_push _ hview
  · exact ((hrecord _ _).assign dst (some i)).assign src none

theorem makeDir (h : Alike u w) (dir : DirName) :
    Alike (u.makeDir dir) (w.makeDir dir) := by
  cases dir with
  | here => exact h
  | outside => exact { h with outsideDir := rfl }
  | store => exact { h with storeDir := rfl }
  | work => exact { h with workDir := rfl }
  | staging =>
      refine { h.newFile with work := ?_, staging := fun s' => ?_ }
      · simp only [Disk.makeDir, h.nextIno]
        exact view_push _ h.work
      · simp only [Disk.makeDir, h.nextIno]
        split
        · rfl
        · exact h.staging s'

theorem syncDir (h : Alike u w) (dir : DirName) :
    Alike (u.syncDir dir) (w.syncDir dir) := by
  cases dir with
  | here => exact h
  | outside => exact h
  | store => exact { h with store := h.store }
  | work => exact { h with work := h.work }
  | staging => exact h.onStaging fun _ _ hview => hview

end Alike

/-- Syncing cannot be seen. -/
theorem alike_syncDir (dir : DirName) (d : Disk) : Alike d (d.syncDir dir) := by
  cases dir with
  | here => exact Alike.refl d
  | outside => exact Alike.refl d
  | store => exact { Alike.refl d with store := rfl }
  | work => exact { Alike.refl d with work := rfl }
  | staging =>
      simp only [Disk.syncDir, Disk.onStaging]
      cases d.stagingIno with
      | none => exact Alike.refl d
      | some s =>
          refine { Alike.refl d with staging := fun s' => ?_ }
          by_cases hs : s' = s
          · simp [hs]
          · simp [hs]

/-- A primitive without a fault cannot tell them apart. -/
theorem Alike.perform (h : Alike u w) (o : Op) :
    (perform o u).1 = (perform o w).1 ∧ Alike (perform o u).2 (perform o w).2 := by
  cases o with
  | isDir dir => exact ⟨h.hasDir dir, h⟩
  | storeExists => exact ⟨congrArg Except.ok h.storeDir, h⟩
  | workExists name =>
      simp only [Filesystem.perform, h.work]
      exact ⟨trivial, h⟩
  | createDir dir =>
      have hhas : u.hasDir = w.hasDir := funext h.hasDir
      simp only [Filesystem.perform, hhas]
      split_ifs
      · exact ⟨rfl, h⟩
      · exact ⟨rfl, h.makeDir dir⟩
      · exact ⟨rfl, h⟩
  | syncDir dir =>
      simp only [Filesystem.perform, h.hasDir]
      split_ifs
      · exact ⟨rfl, h.syncDir dir⟩
      · exact ⟨rfl, h⟩
  | isFile label =>
      simp only [Filesystem.perform, h.node]
      split
      · exact ⟨rfl, h⟩
      · exact ⟨rfl, h⟩
      · exact ⟨rfl, h⟩
  | read path =>
      simp only [Filesystem.perform, h.node, h.data]
      split
      · exact ⟨rfl, h⟩
      · exact ⟨rfl, h⟩
      · exact ⟨rfl, h⟩
  | createNew path =>
      simp only [Filesystem.perform, h.node, h.hasParent, h.nextIno]
      split_ifs
      · exact ⟨rfl, h⟩
      · exact ⟨rfl, h.newFile.assign path _⟩
      · exact ⟨rfl, h⟩
  | writeAll ino bytes =>
      refine ⟨rfl, { h with data := ?_ }⟩
      simp only [Filesystem.perform, Disk.write, h.data]
  | syncAll ino => exact ⟨rfl, { h with }⟩
  | rename src dst =>
      simp only [Filesystem.perform, h.node, h.hasParent]
      split
      · exact ⟨rfl, h⟩
      · exact ⟨rfl, h⟩
      · split_ifs
        · exact ⟨rfl, h⟩
        · exact ⟨rfl, h.move src dst _⟩
        · exact ⟨rfl, h⟩
  | removeFile path =>
      simp only [Filesystem.perform, h.node]
      split
      · exact ⟨rfl, h⟩
      · exact ⟨rfl, h⟩
      · exact ⟨rfl, h.assign path none⟩
  | readStaging =>
      simp only [Filesystem.perform, h.stagingIno, h.staging]
      split
      · exact ⟨rfl, h⟩
      · exact ⟨rfl, h⟩
  | removeStaging =>
      simp only [Filesystem.perform, h.stagingIno, h.staging]
      split
      · split_ifs
        · exact ⟨rfl, { h with work := view_push _ h.work }⟩
        · exact ⟨rfl, h⟩
      · exact ⟨rfl, h⟩
  | openLock =>
      simp only [Filesystem.perform, h.workDir, h.work, h.nextIno]
      split_ifs
      · exact ⟨rfl, h⟩
      · exact ⟨rfl, h⟩
      · exact ⟨rfl, h.newFile.assign (.work .lock) (some w.nextIno)⟩
  | lockFile => exact ⟨rfl, h⟩
  | readStore =>
      simp only [Filesystem.perform, h.storeDir, h.workDir, h.store]
      split_ifs
      all_goals exact ⟨rfl, h⟩

/-! ## The directories and the lock file -/

/-- Everything that a job needs to take the lock is there. -/
structure Disk.Lockable (d : Disk) : Prop where
  outsideDir : d.outsideDir = true
  storeDir : d.storeDir = true
  workDir : d.workDir = true
  lock : (d.work.view.lookup .lock).isSome = true

/-- A directory is there if something in it is. -/
structure Disk.Nested (d : Disk) : Prop where
  outsideDir : d.storeDir = true → d.outsideDir = true
  storeDir : d.workDir = true → d.storeDir = true
  workDir : (d.work.view.lookup .lock).isSome = true → d.workDir = true

/-- What `d` has of them, `d'` has too. -/
structure Disk.Grows (d d' : Disk) : Prop where
  outsideDir : d.outsideDir = true → d'.outsideDir = true
  storeDir : d.storeDir = true → d'.storeDir = true
  workDir : d.workDir = true → d'.workDir = true
  lock : (d.work.view.lookup .lock).isSome = true →
    (d'.work.view.lookup .lock).isSome = true

theorem Disk.Grows.refl (d : Disk) : d.Grows d :=
  ⟨id, id, id, id⟩

theorem Disk.Grows.trans {v : Disk} (h : u.Grows v) (h' : v.Grows w) : u.Grows w :=
  ⟨h'.outsideDir ∘ h.outsideDir, h'.storeDir ∘ h.storeDir, h'.workDir ∘ h.workDir,
    h'.lock ∘ h.lock⟩

theorem Disk.Lockable.nested (h : d.Lockable) : d.Nested :=
  ⟨fun _ => h.outsideDir, fun _ => h.storeDir, fun _ => h.workDir⟩

theorem Disk.Lockable.grows (h : d'.Lockable) : d.Grows d' :=
  ⟨fun _ => h.outsideDir, fun _ => h.storeDir, fun _ => h.workDir, fun _ => h.lock⟩

theorem Disk.Nested.lockable (h : d.Nested)
    (hlock : (d.work.view.lookup .lock).isSome = true) : d.Lockable :=
  ⟨h.outsideDir (h.storeDir (h.workDir hlock)), h.storeDir (h.workDir hlock),
    h.workDir hlock, hlock⟩

theorem Alike.lockable (h : Alike u w) (hu : u.Lockable) : w.Lockable where
  outsideDir := h.outsideDir ▸ hu.outsideDir
  storeDir := h.storeDir ▸ hu.storeDir
  workDir := h.workDir ▸ hu.workDir
  lock := h.work ▸ hu.lock

/-! ## The holder of the lock -/

/-- Primitives that neither take the lock nor remove its file. -/
def Op.SparesLock : Op → Prop
  | .lockFile => False
  | .removeFile path => path ≠ .work .lock
  | .rename src _ => src ≠ .work .lock
  | _ => True

theorem Disk.lock_assign {path : Path} {value : Option Ino}
    (h : path ≠ .work .lock ∨ value.isSome = true)
    (hlock : (d.work.view.lookup .lock).isSome = true) :
    ((d.assign path value).work.view.lookup .lock).isSome = true := by
  cases path with
  | entry label => exact hlock
  | work name =>
      by_cases hname : WorkName.lock = name
      · subst hname
        simpa [Disk.assign] using h
      · simpa [Disk.assign, hname] using hlock
  | staged index =>
      simp only [Disk.assign]
      rw [Disk.onStaging_eq]
      exact hlock

theorem Disk.Lockable.assign (h : d.Lockable) {path : Path} {value : Option Ino}
    (hspares : path ≠ .work .lock ∨ value.isSome = true) :
    (d.assign path value).Lockable where
  outsideDir := (d.dirs_assign path value).1.trans h.outsideDir
  storeDir := (d.dirs_assign path value).2.trans h.storeDir
  workDir := (Disk.workDir_assign path value d).trans h.workDir
  lock := Disk.lock_assign hspares h.lock

theorem Disk.Lockable.move (h : d.Lockable) {src : Path}
    (hspares : src ≠ .work .lock) (dst : Path) (i : Ino) :
    (d.move src dst i).Lockable := by
  unfold Disk.move
  split
  · next a b =>
    have hne : WorkName.lock ≠ a := fun h => hspares (h ▸ rfl)
    refine { h with lock := ?_ }
    by_cases hb : WorkName.lock = b
    · subst hb
      simp [hne]
    · simpa [hne, hb] using h.lock
  · exact { h with }
  · rw [Disk.onStaging_eq]
    exact { h with }
  · have hrenamed : Disk.Lockable { d with renames := d.renames ++ [(src, dst)] } :=
      { h with }
    exact (hrenamed.assign (Or.inr rfl)).assign (Or.inl hspares)

theorem Disk.Lockable.perform (h : d.Lockable) {o : Op} (ho : o.SparesLock) :
    (perform o d).2.Lockable := by
  cases o with
  | createDir dir =>
      simp only [Filesystem.perform]
      split_ifs
      · exact h
      · cases dir with
        | here => exact h
        | outside => exact { h with outsideDir := rfl }
        | store => exact { h with storeDir := rfl }
        | work => exact { h with workDir := rfl }
        | staging => exact { h with lock := by simpa [Disk.makeDir] using h.lock }
      · exact h
  | syncDir dir =>
      simp only [Filesystem.perform]
      split_ifs
      · exact (alike_syncDir dir d).lockable h
      · exact h
  | isFile label =>
      simp only [Filesystem.perform]
      split <;> exact h
  | read path =>
      simp only [Filesystem.perform]
      split <;> exact h
  | createNew path =>
      simp only [Filesystem.perform]
      split_ifs
      · exact h
      · have hnew : d.newFile.Lockable := { h with }
        exact hnew.assign (Or.inr rfl)
      · exact h
  | rename src dst =>
      simp only [Filesystem.perform]
      split
      · exact h
      · exact h
      · split_ifs
        · exact h
        · exact h.move ho dst _
        · exact h
  | removeFile path =>
      simp only [Filesystem.perform]
      split
      · exact h
      · exact h
      · exact h.assign (Or.inl ho)
  | readStaging =>
      simp only [Filesystem.perform]
      split <;> exact h
  | removeStaging =>
      simp only [Filesystem.perform]
      split
      · split_ifs
        · exact { h with lock := by simpa using h.lock }
        · exact h
      · exact h
  | openLock =>
      simp only [Filesystem.perform]
      split_ifs
      · exact h
      · exact h
      · next hlock => exact absurd h.lock hlock
  | readStore =>
      simp only [Filesystem.perform]
      split_ifs <;> exact h
  | lockFile => exact ho.elim
  | isDir dir => exact h
  | storeExists => exact h
  | workExists name => exact h
  | writeAll ino bytes => exact { h with }
  | syncAll ino => exact { h with }

/-- A program that spares the lock keeps the way to it. -/
theorem safe_lockable {α : Type} {p : Prog Op Reply α} (hp : p.Calls Op.SparesLock)
    (hd : d.Lockable) :
    (machine false).Safe Disk.Lockable (fun _ _ => True) p d := by
  refine safe_of_calls ?_ hp hd
  intro o t r t' ho ht hstep
  rw [step_machine_false] at hstep
  have hnext := ht.perform ho
  rwa [hstep] at hnext

/-! ## The programs of the holder -/

section Spares

variable {codec : Codec} {path : Path}

theorem spares_op {o : Op} (h : o.SparesLock) :
    (Prog.op o : Prog Op Reply (Reply o)).Calls Op.SparesLock :=
  Prog.calls_op h

theorem spares_writeNew (bytes : Bytes) :
    (writeNew path bytes).run.Calls Op.SparesLock :=
  Prog.Calls.bindExcept (spares_op trivial) fun _ =>
    Prog.Calls.bindExcept (spares_op trivial) fun _ => spares_op trivial

theorem spares_removeFile (h : path ≠ .work .lock) :
    (removeFile path).run.Calls Op.SparesLock := by
  refine Prog.Calls.bind (spares_op h) ?_
  intro r
  cases r <;> trivial

theorem spares_discard {x : Io Bool} (h : x.run.Calls Op.SparesLock) :
    (discard x).run.Calls Op.SparesLock := by
  refine Prog.Calls.bind h ?_
  intro r
  cases r <;> trivial

theorem spares_removeStaged (names : List ℕ) :
    (removeStaged names).run.Calls Op.SparesLock := by
  induction names with
  | nil => trivial
  | cons index rest ih =>
      have hop : (Op.removeFile (.staged index)).SparesLock := nofun
      exact Prog.Calls.bindExcept (spares_op hop) fun _ => ih

theorem spares_discardStaging : discardStaging.run.Calls Op.SparesLock := by
  have hall : removeStagingAll.run.Calls Op.SparesLock :=
    Prog.Calls.bindExcept (spares_op trivial) fun names =>
      Prog.Calls.bindExcept (spares_removeStaged names) fun _ => spares_op trivial
  refine Prog.Calls.bind hall ?_
  intro r
  cases r <;> trivial

theorem spares_restore (label : String) (original : Option Bytes) :
    (restore label original).run.Calls Op.SparesLock := by
  cases original with
  | none => exact spares_discard (spares_removeFile nofun)
  | some bytes =>
      have hrename : (Op.rename (.work .restore) (.entry label)).SparesLock := nofun
      exact Prog.Calls.bindExcept (spares_discard (spares_removeFile nofun))
        fun _ => Prog.Calls.bindExcept (spares_writeNew bytes)
          fun _ => spares_op hrename

theorem spares_restoreAll (originals : List (String × Option Bytes)) :
    (restoreAll originals).run.Calls Op.SparesLock := by
  induction originals with
  | nil => trivial
  | cons e rest ih =>
      exact Prog.Calls.bindExcept (spares_restore e.1 e.2) fun _ => ih

theorem spares_recover : (recover codec).run.Calls Op.SparesLock := by
  have hrollback : (rollback codec).run.Calls Op.SparesLock := by
    refine Prog.Calls.bindExcept (spares_op trivial) fun bytes => ?_
    cases codec.decodeJournal bytes with
    | error text => trivial
    | ok journal =>
        simp only
        cases checkJournal journal with
        | error e => trivial
        | ok _ =>
            exact Prog.Calls.bindExcept (spares_restoreAll journal.originals)
              fun _ => Prog.Calls.bindExcept (spares_op trivial)
                fun _ => Prog.Calls.bindExcept
                  (spares_discard (spares_removeFile nofun))
                    fun _ => spares_op trivial
  have hcleanup : cleanup.run.Calls Op.SparesLock :=
    Prog.Calls.bindExcept (spares_discard (spares_removeFile nofun)) fun _ =>
      Prog.Calls.bindExcept (spares_discard (spares_removeFile nofun)) fun _ =>
        Prog.Calls.bindExcept (spares_discard (spares_removeFile nofun)) fun _ =>
          Prog.Calls.bindExcept spares_discardStaging fun _ => spares_op trivial
  have hjournal : (do
      if ← workExists .journal then rollback codec
      cleanup : Io Unit).run.Calls Op.SparesLock := by
    refine Prog.Calls.bindExcept (spares_op trivial) fun b => ?_
    cases b with
    | true => exact Prog.Calls.bindExcept hrollback fun _ => hcleanup
    | false => exact hcleanup
  refine Prog.Calls.bindExcept (spares_op trivial) fun b => ?_
  cases b with
  | false => exact hjournal
  | true =>
      refine Prog.Calls.bindExcept (spares_op trivial) fun b => ?_
      cases b with
      | true => trivial
      | false => exact hjournal

theorem spares_encodeEntries (entries : List EncryptedEntry)
    (encoded : HashMap String Bytes) :
    (encodeEntries codec entries encoded).run.Calls Op.SparesLock := by
  induction entries generalizing encoded with
  | nil => trivial
  | cons entry rest ih =>
      unfold encodeEntries
      cases validateLabel entry.metadata.label with
      | error e => trivial
      | ok _ =>
          have hnext : (do
              let bytes ← codecResult (codec.encodeEntry entry)
              encodeEntries codec rest
                (encoded.insert entry.metadata.label bytes) :
              StoreM (HashMap String Bytes)).run.Calls Op.SparesLock :=
            Prog.Calls.bindExcept (calls_codecResult _) fun _ => ih _
          refine Prog.Calls.bindExcept
            (Prog.Calls.bind (spares_op trivial) fun _ => trivial) fun r => ?_
          cases r with
          | error _ => exact hnext
          | ok isFile =>
              cases isFile with
              | true => exact hnext
              | false => trivial

theorem spares_stage (index : ℕ) (files : List (String × Bytes)) :
    (stage index files).run.Calls Op.SparesLock := by
  induction files generalizing index with
  | nil => trivial
  | cons e rest ih =>
      exact Prog.Calls.bindExcept (calls_readOriginal trivial) fun _ =>
        Prog.Calls.bindExcept (calls_mapBackend (spares_writeNew e.2)) fun _ =>
          Prog.Calls.bindExcept (ih _) fun _ => trivial

theorem spares_prepare (entries : List EncryptedEntry) :
    (prepare codec entries).run.Calls Op.SparesLock := by
  have hrename : (Op.rename (.work .journalNew) (.work .journal)).SparesLock :=
    nofun
  have hjournal : ∀ originals,
      (writeJournal codec originals).run.Calls Op.SparesLock := fun originals =>
    Prog.Calls.bindExcept (calls_codecResult _) fun bytes =>
      Prog.Calls.bindExcept (calls_mapBackend (spares_writeNew bytes)) fun _ =>
        Prog.Calls.bindExcept (calls_mapBackend (spares_op hrename)) fun _ =>
          calls_mapBackend (spares_op trivial)
  have hcreate : (createDir .staging).run.Calls Op.SparesLock :=
    calls_createDirBelow (fun _ => ⟨trivial, trivial, trivial⟩) .staging _
  exact Prog.Calls.bindExcept (spares_encodeEntries entries ∅) fun encoded =>
    Prog.Calls.bindExcept (calls_mapBackend hcreate)
      fun _ => Prog.Calls.bindExcept (spares_stage 0 (sortedEntries encoded))
        fun originals => Prog.Calls.bindExcept (calls_mapBackend (spares_op trivial))
          fun _ => Prog.Calls.bindExcept (hjournal originals) fun _ => trivial

theorem spares_replaceEntries (afterReplace : ℕ → Except IoError Unit)
    (index : ℕ) (labels : List String) :
    (replaceEntries afterReplace index labels).run.Calls Op.SparesLock := by
  induction labels generalizing index with
  | nil => trivial
  | cons label rest ih =>
      have hrename : (Op.rename (.staged index) (.entry label)).SparesLock := nofun
      refine Prog.Calls.bindExcept (spares_op hrename) fun _ => ?_
      cases afterReplace index with
      | error e => trivial
      | ok _ => exact ih _

theorem spares_commitBatch (entries : List EncryptedEntry)
    (afterReplace : ℕ → Except IoError Unit) :
    (commitBatch codec entries afterReplace).run.Calls Op.SparesLock := by
  have hrollback : ∀ error,
      (rollbackError codec error).run.Calls Op.SparesLock := by
    intro error
    refine Prog.Calls.bind spares_recover ?_
    intro r
    cases r <;> trivial
  have hcommit : (Op.rename (.work .journal) (.work .committed)).SparesLock :=
    nofun
  have happly : ∀ labels,
      (apply afterReplace labels).run.Calls Op.SparesLock := fun labels =>
    Prog.Calls.bindExcept (spares_replaceEntries afterReplace 0 labels) fun _ =>
      Prog.Calls.bindExcept (spares_op trivial) fun _ => spares_op hcommit
  have hfinish : (finishCommit codec).run.Calls Op.SparesLock := by
    refine Prog.Calls.bindExcept (calls_mapBackend (spares_op trivial)) fun _ => ?_
    refine Prog.Calls.bind (Prog.Calls.bind spares_recover fun _ => trivial) ?_
    intro r
    cases r <;> trivial
  refine Prog.Calls.bind (spares_prepare entries) ?_
  intro r
  cases r with
  | error e => exact hrollback e
  | ok labels =>
      refine Prog.Calls.bind (happly labels) ?_
      intro r
      cases r with
      | error e => exact hrollback _
      | ok _ => exact hfinish

/-- The operations spare the lock. -/
theorem spares_operation (call : Call) :
    (call.operation codec).run.Calls Op.SparesLock := by
  cases call with
  | put entry => exact spares_commitBatch [entry] _
  | putMany entries =>
      cases entries with
      | nil => trivial
      | cons e rest => exact spares_commitBatch (e :: rest) _
  | get label => exact calls_getEntry trivial
  | list => exact calls_listEntries trivial fun _ => trivial
  | remove label =>
      exact Prog.Calls.bindExcept (calls_mapBackend (spares_removeFile nofun))
        fun _ => Prog.Calls.bindExcept (calls_mapBackend (spares_op trivial))
          fun _ => trivial

end Spares

end Connexa.Keystore.Filesystem
