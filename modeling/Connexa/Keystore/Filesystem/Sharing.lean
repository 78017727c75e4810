import Connexa.Support.Linearize
import Connexa.Keystore.Metadata
import Connexa.Keystore.Filesystem.Locking

/-!
# Stores that share a directory

Any number of `FilesystemKeystore` values on one directory, whose jobs take turns
at single primitives.  To their callers they are one `MemoryKeystore`: every call
takes effect at some point between its start and its return.
-/

namespace Connexa.Keystore.Filesystem

open HashMap Machine

variable {codec : Codec} {m : MemoryKeystore} {d d' : Disk}

/-! ## Calls -/

namespace Call

/-- The labels of the call can be those of entries. -/
def Allowed : Call → Prop
  | .put entry => EntryLabel entry.metadata.label
  | .putMany entries => ∀ e ∈ entries, EntryLabel e.metadata.label
  | .get label => EntryLabel label
  | .list => True
  | .remove label => EntryLabel label

/-- What `MemoryKeystore` does. -/
def answer : (call : Call) → MemoryKeystore →
    Except Error call.Result × MemoryKeystore
  | .put entry, m => m.put entry
  | .putMany entries, m => m.putMany entries
  | .get label, m => m.get label
  | .list, m => m.list
  | .remove label, m => m.remove label

/-- Lists of the same metadata, in any order. -/
def SameList : Except Error (List KeyMetadata) → Except Error (List KeyMetadata) → Prop
  | .ok a, .ok b => a.Perm b
  | .error e, .error e' => e = e'
  | _, _ => False

/-- The results are the same, lists up to their order. -/
def Same : (call : Call) → Except Error call.Result → Except Error call.Result → Prop
  | .put _ => Eq
  | .putMany _ => Eq
  | .get _ => Eq
  | .list => SameList
  | .remove _ => Eq

end Call

/-- Jobs of stores on one directory, without faults. -/
def jobs (codec : Codec) :
    JobSystem Op Reply Call (fun call => Except Error call.Result) Disk where
  machine := machine false
  locks := fun o =>
    match o with
    | .lockFile => true
    | _ => false
  program := fun call => (call.program codec).run
  allowed := Call.Allowed

/-- A `MemoryKeystore`. -/
def memory : Object Call (fun call => Except Error call.Result) MemoryKeystore where
  answer := Call.answer
  allowed := Call.Allowed

/-! ## The map behind a disk -/

/-- Every entry is stored under its label, which is not `.tmp`. -/
def Labelled (m : MemoryKeystore) : Prop :=
  ∀ label e, m.lookup label = some e → e.metadata.label = label ∧ label ≠ workDirName

/-- With the lock free, the disk holds the entries of the map and nothing else. -/
structure Stands (codec : Codec) (m : MemoryKeystore) (d : Disk) : Prop where
  sound : Sound d
  nested : d.Nested
  contents : d.tree.contents = codec.contents m
  labelled : Labelled m
  work : ∀ name, name ≠ .lock → d.work.view.lookup name = none
  missing : d.storeDir = false → m = ∅

theorem Stands.of_alike {u w : Disk} (h : Alike u w) (hu : Stands codec m u) :
    Stands codec m w where
  sound := h.sound hu.sound
  nested := by
    obtain ⟨houtside, hstore, hwork⟩ := hu.nested
    rw [h.storeDir, h.outsideDir] at houtside
    rw [h.workDir, h.storeDir] at hstore
    rw [h.work, h.workDir] at hwork
    exact ⟨houtside, hstore, hwork⟩
  contents := by
    rw [← h.tree]
    exact hu.contents
  labelled := hu.labelled
  work := by
    rw [← h.work]
    exact hu.work
  missing := by
    rw [← h.storeDir]
    exact hu.missing

/-! ## Before the lock -/

/-- The primitives of a job that has not taken the lock. -/
def Op.Opens : Op → Prop
  | .isDir _ => True
  | .storeExists => True
  | .createDir dir => dir ≠ .staging
  | .syncDir _ => True
  | .openLock => True
  | _ => False

theorem Alike.grows {u w : Disk} (h : Alike u w) : u.Grows w where
  outsideDir := fun hu => h.outsideDir ▸ hu
  storeDir := fun hu => h.storeDir ▸ hu
  workDir := fun hu => h.workDir ▸ hu
  lock := fun hu => h.work ▸ hu

/-- While the lock is held they change nothing that can be seen. -/
theorem Op.Opens.alike {o : Op} (ho : o.Opens) (h : d.Lockable) :
    Alike d (perform o d).2 := by
  cases o with
  | createDir dir =>
      have hhas : d.hasDir dir = true := by
        cases dir with
        | here => rfl
        | outside => exact h.outsideDir
        | store => exact h.storeDir
        | work => exact h.workDir
        | staging => exact absurd rfl ho
      simp only [perform, hhas, if_true]
      exact Alike.refl d
  | syncDir dir =>
      simp only [perform]
      split_ifs
      · exact alike_syncDir dir d
      · exact Alike.refl d
  | openLock =>
      simp only [perform, h.workDir, h.lock]
      exact Alike.refl d
  | isDir dir => exact Alike.refl d
  | storeExists => exact Alike.refl d
  | _ => exact ho.elim

theorem Sound.tree_newFile (h : Sound d) : d.newFile.tree = d.tree := by
  refine Disk.tree_congr rfl rfl rfl fun path i hi => ?_
  have hne : i ≠ d.nextIno := (h.linked path i hi).ne
  simp [Disk.newFile, hne]

/-- The lock file is made. -/
theorem Stands.openLock (h : Stands codec m d) (hwork : d.workDir = true) :
    Stands codec m (d.newFile.assign (.work .lock) (some d.nextIno)) where
  sound := by
    refine h.sound.newFile.assign (Path.plain_work .lock (by decide)) nofun ?_
    rintro i hi
    cases hi
    exact Nat.lt_succ_self _
  nested := ⟨h.nested.outsideDir, h.nested.storeDir, fun _ => hwork⟩
  contents := by
    have htree := @Disk.tree_assign d.newFile (.work .lock)
      (Path.plain_work .lock (by decide)) (some d.nextIno) nofun
    rw [htree, h.sound.tree_newFile, ← h.contents]
    funext label
    simp [Tree.contents]
  labelled := h.labelled
  work := by
    intro name hname
    simpa [Disk.assign, Disk.newFile, hname] using h.work name hname
  missing := h.missing

theorem Sound.makeDir (h : Sound d) {dir : DirName} (hdir : dir ≠ .staging) :
    Sound (d.makeDir dir) := by
  cases dir with
  | here => exact h
  | outside => exact h.congr rfl le_rfl rfl
  | store => exact h.congr rfl le_rfl rfl
  | staging => exact absurd rfl hdir
  | work =>
      refine ⟨fun path i hi => ?_, h.apart⟩
      cases path with
      | entry label =>
          by_cases hlabel : label = workDirName
          · simp [Disk.makeDir, Disk.node, hlabel] at hi
          · refine h.linked (.entry label) i ?_
            simpa [Disk.makeDir, Disk.node, hlabel] using hi
      | work name => exact h.linked (.work name) i hi
      | staged index => exact h.linked (.staged index) i hi

theorem Disk.contents_makeDir {dir : DirName} (hdir : dir ≠ .staging) :
    (d.makeDir dir).tree.contents = d.tree.contents := by
  cases dir with
  | staging => exact absurd rfl hdir
  | work =>
      funext label
      by_cases hlabel : label = workDirName
      · simp [Tree.contents, hlabel]
      · simp only [Tree.contents, Disk.tree, Disk.node, if_neg hlabel]
        rfl
  | _ => rfl

theorem Stands.makeDir (h : Stands codec m d) {dir : DirName}
    (hdir : dir ≠ .staging) (hparent : dir.ancestors.head?.all d.hasDir = true) :
    Stands codec m (d.makeDir dir) where
  sound := h.sound.makeDir hdir
  contents := (Disk.contents_makeDir hdir).trans h.contents
  labelled := h.labelled
  nested := by
    obtain ⟨houtside, hstore, hwork⟩ := h.nested
    cases dir with
    | here => exact h.nested
    | outside => exact ⟨fun _ => rfl, hstore, hwork⟩
    | store => exact ⟨fun _ => hparent, fun _ => rfl, hwork⟩
    | work => exact ⟨houtside, fun _ => hparent, fun _ => rfl⟩
    | staging => exact absurd rfl hdir
  work := by
    cases dir with
    | staging => exact absurd rfl hdir
    | _ => exact h.work
  missing := by
    cases dir with
    | store => exact nofun
    | staging => exact absurd rfl hdir
    | _ => exact h.missing

theorem Disk.grows_makeDir {dir : DirName} (hdir : dir ≠ .staging) :
    d.Grows (d.makeDir dir) := by
  cases dir with
  | here => exact .refl d
  | outside => exact { Disk.Grows.refl d with outsideDir := fun _ => rfl }
  | store => exact { Disk.Grows.refl d with storeDir := fun _ => rfl }
  | work => exact { Disk.Grows.refl d with workDir := fun _ => rfl }
  | staging => exact absurd rfl hdir

/-- While the lock is free they keep the map. -/
theorem Op.Opens.stands {o : Op} (ho : o.Opens) (h : Stands codec m d) :
    Stands codec m (perform o d).2 ∧ d.Grows (perform o d).2 := by
  cases o with
  | createDir dir =>
      simp only [perform]
      split_ifs with hhas hparent
      · exact ⟨h, .refl d⟩
      · exact ⟨h.makeDir ho hparent, Disk.grows_makeDir ho⟩
      · exact ⟨h, .refl d⟩
  | syncDir dir =>
      simp only [perform]
      split_ifs
      · exact ⟨h.of_alike (alike_syncDir dir d), (alike_syncDir dir d).grows⟩
      · exact ⟨h, .refl d⟩
  | openLock =>
      simp only [perform]
      split_ifs with hmissing hlock
      · exact ⟨h, .refl d⟩
      · exact ⟨h, .refl d⟩
      · have hwork : d.workDir = true := by simpa using hmissing
        exact ⟨h.openLock hwork,
          { Disk.Grows.refl d with lock := fun h => absurd h hlock }⟩
  | isDir dir => exact ⟨h, .refl d⟩
  | storeExists => exact ⟨h, .refl d⟩
  | _ => exact ho.elim

/-- The jobs, seen as calls of a `MemoryKeystore`. -/
def sharing (codec : Codec) : Linearization (jobs codec) memory where
  same := Call.Same
  rep := Stands codec
  busy := Disk.Lockable
  sound := Disk.Nested
  grows := Disk.Grows
  still := Alike
  opens := Op.Opens
  allowed := fun _ h => h
  sound_of_rep := fun h => h.nested
  sound_of_busy := fun h => h.nested
  grows_refl := Disk.Grows.refl
  grows_trans := fun h h' => h.trans h'
  grows_of_busy := fun _ h => h.grows
  busy_of_still := fun h hu => h.lockable hu
  rep_of_still := fun h hu => hu.of_alike h
  step_of_still := by
    intro o r u w w' h hstep
    obtain ⟨hreply, halike⟩ := h.perform o
    rw [show perform o w = (r, w') from step_machine_false.mp hstep] at hreply halike
    exact ⟨(perform o u).2, step_machine_false.mpr (Prod.ext hreply rfl), halike⟩
  opens_rep := by
    intro o r m w w' ho h hstep
    have hnext := ho.stands h
    rwa [show perform o w = (r, w') from step_machine_false.mp hstep] at hnext
  opens_busy := by
    intro o r w w' ho h hstep
    have hnext := ho.alike h
    rw [show perform o w = (r, w') from step_machine_false.mp hstep] at hnext
    exact ⟨hnext, hnext.grows⟩

/-! ## Under the lock -/

/-- A codec that gives every entry back and takes every journal. -/
structure Codec.RoundTrips (codec : Codec) : Prop where
  entry : ∀ e, ∃ bytes, codec.encodeEntry e = .ok bytes ∧
    codec.decodeEntry bytes = .ok e
  journal : ∀ j, ∃ bytes, codec.encodeJournal j = .ok bytes

theorem Labelled.insert (h : Labelled m) {entry : EncryptedEntry}
    (hentry : EntryLabel entry.metadata.label) :
    Labelled (m.insert entry.metadata.label entry) := by
  intro label e he
  rw [lookup_insert] at he
  split at he
  · next hlabel =>
    cases he
    exact ⟨hlabel.symm, hlabel ▸ hentry.2⟩
  · exact h label e he

theorem Labelled.answer (h : Labelled m) {call : Call} (hcall : call.Allowed) :
    Labelled (call.answer m).2 := by
  cases call with
  | put entry => exact h.insert hcall
  | putMany entries =>
      simp only [Call.answer, MemoryKeystore.putMany]
      simp only [Call.Allowed] at hcall
      induction entries generalizing m with
      | nil => exact h
      | cons entry rest ih =>
          exact ih (h.insert (hcall entry List.mem_cons_self))
            fun e he => hcall e (List.mem_cons_of_mem _ he)
  | get label => exact h
  | list => exact h
  | remove label =>
      intro other e he
      simp only [Call.answer, MemoryKeystore.remove, lookup_erase] at he
      split at he
      · cases he
      · exact h other e he

section Locked

variable {bytes : EncryptedEntry → Bytes}
  (hencode : ∀ e, codec.encodeEntry e = .ok (bytes e))

include hencode

theorem Stands.atRest (h : Stands codec m d) (hlock : d.Lockable) :
    d.tree.AtRest where
  storeDir := hlock.storeDir
  workDir := by
    rw [d.isSome_entry_workDir]
    exact hlock.workDir
  workFiles := by
    intro name hname
    rw [Ne, Disk.files_eq_dir]
    exact Disk.node_work_ne_dir hname
  work := by
    intro name hname
    rw [Disk.files_eq_none, Disk.node, h.work name hname]
  staged := by
    intro index
    have hstaging : d.stagingIno = none := h.work .staging (by decide)
    rw [Disk.files_eq_none, Disk.node, hstaging]
  entries := by
    intro label hlabel
    rw [← Tree.contents_of_ne hlabel, h.contents]
    exact Codec.contents_ne_dir hencode m label

omit hencode in
/-- The end of a job: the disk has a tree at rest with the entries of the map. -/
theorem Stands.of_tree {T : Tree} (hd : IsTree d T) (hlock : d.Lockable)
    (hrest : T.AtRest) (hcontents : T.contents = codec.contents m)
    (hm : Labelled m) : Stands codec m d where
  sound := hd.1
  nested := hlock.nested
  contents := by
    rw [hd.2]
    exact hcontents
  labelled := hm
  work := by
    intro name hname
    have hnone := hrest.work name hname
    rw [← hd.2, Disk.files_eq_none] at hnone
    exact Disk.lookup_of_node_work_eq_none hnone
  missing := by
    rw [hlock.storeDir]
    exact nofun

variable (hdecode : ∀ e, codec.decodeEntry (bytes e) = .ok e)
  (hjournal : ∀ j, ∃ b, codec.encodeJournal j = .ok b)

theorem Tree.AtRest.withMap {T : Tree} (h : T.AtRest) (hm : Labelled m) :
    (T.withContents (codec.contents m)).AtRest ∧
      (T.withContents (codec.contents m)).contents = codec.contents m := by
  refine ⟨h.withContents (Codec.contents_ne_dir hencode m),
    Tree.contents_withContents ?_⟩
  rw [Codec.contents_apply hencode, Option.map_eq_none_iff,
    Option.eq_none_iff_forall_ne_some]
  exact fun e he => (hm workDirName e he).2 rfl

omit hencode in
/-- The disk has a tree at rest with the entries of the map. -/
def Holds (codec : Codec) (m : MemoryKeystore) (d : Disk) : Prop :=
  ∃ T : Tree, T.AtRest ∧ T.contents = codec.contents m ∧ IsTree d T

omit hencode in
theorem safe_of_ends {α : Type} {p : Prog Op Reply α} {T T' : Tree} {a : α}
    (h : Ends p T a T') (hd : IsTree d T) (hrest : T'.AtRest)
    (hcontents : T'.contents = codec.contents m) {Q : α → Prop} (ha : Q a) :
    (machine false).Safe (fun _ => True) (fun r t => Q r ∧ Holds codec m t) p d := by
  refine (h d hd).mono (fun _ h => h) ?_
  rintro _ t - ⟨rfl, ht⟩
  exact ⟨ha, T', hrest, hcontents, ht⟩

include hdecode hjournal in
/-- An operation answers as the map does. -/
theorem safe_answer {call : Call} (hcall : call.Allowed) (hd : Holds codec m d)
    (hm : Labelled m) :
    (machine false).Safe (fun _ => True)
      (fun r t => call.Same r (call.answer m).1 ∧
        Holds codec (call.answer m).2 t)
      (call.operation codec).run d := by
  obtain ⟨T, hrest, hcontents, hd⟩ := hd
  have hbatch : ∀ entries : List EncryptedEntry,
      (∀ e ∈ entries, EntryLabel e.metadata.label) →
      Ends (commitBatch codec entries fun _ => .ok ()).run T (.ok ())
        (T.withContents (codec.contents (m.putMany entries).2)) := by
    intro entries hentries
    rw [Codec.contents_putMany hencode, ← hcontents]
    exact ends_commitBatch hrest hencode hjournal hentries
  have hafter := Tree.AtRest.withMap hencode hrest (hm.answer hcall)
  cases call with
  | put entry =>
      have hentries : ∀ e ∈ [entry], EntryLabel e.metadata.label := by
        intro e he
        rw [List.mem_singleton] at he
        exact he ▸ hcall
      exact safe_of_ends (hbatch [entry] hentries) hd hafter.1 hafter.2 rfl
  | putMany entries =>
      cases entries with
      | nil => exact ⟨trivial, rfl, T, hrest, hcontents, hd⟩
      | cons e rest =>
          exact safe_of_ends (hbatch (e :: rest) hcall) hd hafter.1 hafter.2 rfl
  | get label =>
      exact safe_of_ends (ends_getEntry hencode hdecode hcontents hcall.2) hd hrest
        hcontents rfl
  | list =>
      refine (safe_listEntries hencode hdecode hcontents hd hrest.storeDir hm).mono
        (fun _ h => h) ?_
      rintro _ t - ⟨⟨metadata, rfl, hperm⟩, ht⟩
      exact ⟨hperm, T, hrest, hcontents, ht⟩
  | remove label =>
      have hremove := ends_removeEntry hencode hcontents hrest.storeDir hcall.2
      rw [hcontents, ← Codec.contents_erase hencode] at hremove
      exact safe_of_ends hremove hd hafter.1 hafter.2 rfl

end Locked

/-- What a job does once it has the lock. -/
def Call.locked (codec : Codec) (call : Call) : StoreM call.Result := do
  mapBackend (recover codec)
  call.operation codec

theorem spares_locked (call : Call) : (call.locked codec).run.Calls Op.SparesLock :=
  Prog.Calls.bindExcept (calls_mapBackend spares_recover) fun _ =>
    spares_operation call

/-- The job that has the lock answers as the map does. -/
theorem safe_locked (hcodec : codec.RoundTrips) {call : Call}
    (hcall : call.Allowed) (hd : Stands codec m d) (hlock : d.Lockable) :
    (machine false).Safe Disk.Lockable
      ((sharing codec).Post call (call.answer m).1 (call.answer m).2)
      (call.locked codec).run d := by
  choose bytes hencode hdecode using hcodec.entry
  have hrest := hd.atRest hencode hlock
  have hrecover := @ends_recover_none codec _ hrest.toReady
    (hrest.work .journal (by decide))
  rw [hrest.cleaned] at hrecover
  have hanswer : (machine false).Safe (fun _ => True)
      (fun r t => call.Same r (call.answer m).1 ∧
        Holds codec (call.answer m).2 t) (call.locked codec).run d := by
    apply Safe.bind
    refine ((ends_mapBackend hrecover) d ⟨hd.sound, rfl⟩).mono (fun _ h => h) ?_
    rintro _ t - ⟨rfl, ht⟩
    exact safe_answer hencode hdecode hcodec.journal hcall
      ⟨_, hrest, hd.contents, ht⟩ hd.labelled
  refine (hanswer.and (safe_lockable (spares_locked call) hlock)).mono
    (fun _ h => h.2) ?_
  rintro r t ⟨-, ht⟩ ⟨⟨hsame, T, hrestT, hcontentsT, hT⟩, -⟩
  exact ⟨hsame, Stands.of_tree hT ht hrestT hcontentsT (hd.labelled.answer hcall)⟩

/-! ## The way to the lock -/

/-- The calls that make the store directory if it is missing. -/
def Call.creates : Call → Bool
  | .put _ => true
  | .putMany entries => !entries.isEmpty
  | _ => false

/-- The part of `lock` before the lock is taken. -/
def openLock : StoreM Unit := do
  mapBackend (createDir .work)
  mapBackend (ExceptT.mk (Prog.op Op.openLock) : Io Unit)

/-- Take the lock, recover and run the operation. -/
def Call.enter (codec : Codec) (call : Call) : StoreM call.Result := do
  openLock
  mapBackend (ExceptT.mk (Prog.op Op.lockFile) : Io Unit)
  call.locked codec

theorem Call.guard_eq {call : Call} (hcall : call.Allowed) :
    call.guard codec = passRecover codec call.creates := by
  cases call with
  | get label => simp only [Call.guard, hcall.1, Call.creates]
  | remove label => simp only [Call.guard, hcall.1, Call.creates]
  | _ => rfl

theorem passRecover_true {α : Type} (next : Bool → StoreM α) :
    passRecover codec true >>= next = (do
      openLock
      mapBackend (ExceptT.mk (Prog.op Op.lockFile) : Io Unit)
      mapBackend (recover codec)
      next true) := by
  simp [passRecover, lock, openLock]

theorem Call.program_of_creates {call : Call} (hcall : call.Allowed)
    (hcreates : call.creates = true) :
    call.program codec = call.enter codec := by
  rw [Call.program_eq, Call.guard_eq hcall, hcreates, passRecover_true]
  rfl

theorem Call.program_of_not_creates {call : Call} (hcall : call.Allowed)
    (hcreates : call.creates = false) :
    call.program codec = (do
      if ← mapBackend (ExceptT.mk (Prog.op Op.storeExists) : Io Bool) then
        call.enter codec
      else return call.missing) := by
  have hpass : passRecover codec false = (do
      if ← mapBackend (ExceptT.mk (Prog.op Op.storeExists) : Io Bool) then
        passRecover codec true
      else return false) := by
    simp only [passRecover, Bool.not_false, if_true]
    congr 1
    funext b
    cases b <;> rfl
  rw [Call.program_eq, Call.guard_eq hcall, hcreates, hpass, bind_assoc]
  congr 1
  funext b
  cases b with
  | true => exact passRecover_true _
  | false => exact pure_bind _ _

section Enter

variable {w : Disk}

theorem Disk.Grows.hasDir (h : d.Grows d') {dir : DirName} (hdir : dir ≠ .staging)
    (hd : d.hasDir dir = true) : d'.hasDir dir = true := by
  cases dir with
  | here => rfl
  | outside => exact h.outsideDir hd
  | store => exact h.storeDir hd
  | work => exact h.workDir hd
  | staging => exact absurd rfl hdir

/-- A primitive before the lock, on a disk that others may have changed. -/
theorem outside_op {o : Op} {Q : Reply o → Disk → Prop} (ho : o.Opens)
    (h : ∀ t, w.Grows t → Q (perform o t).1 (perform o t).2) :
    (sharing codec).Outside Q (Prog.op o) w := by
  intro t hgrows _
  have hlocks : (jobs codec).locks o = false := by
    cases o with
    | lockFile => exact ho.elim
    | _ => rfl
  refine ⟨hlocks, ho, fun r t' hstep => ?_⟩
  have hq := h t hgrows
  rwa [show perform o t = (r, t') from step_machine_false.mp hstep] at hq

theorem outside_isDir (dir : DirName) :
    (sharing codec).Outside
      (Yields (fun b t => w.Grows t ∧ (b = true → t.hasDir dir = true))
        fun _ _ => False) (isDir dir).run w :=
  Linearization.Outside.bind (outside_op trivial fun _ hgrows =>
    ⟨hgrows, fun h => h⟩)

theorem outside_syncDir {dir : DirName} (hdir : dir ≠ .staging)
    (h : w.hasDir dir = true) :
    (sharing codec).Outside (Yields (fun _ t => w.Grows t) fun _ _ => False)
      (syncDir dir).run w := by
  refine outside_op trivial fun t hgrows => ?_
  simp only [perform, hgrows.hasDir hdir h, if_true]
  exact hgrows.trans (alike_syncDir dir t).grows

theorem outside_buildDir {dir : DirName} (hdir : dir ≠ .staging)
    (hparent : ∀ t, w.Grows t → dir.ancestors.head?.all t.hasDir = true) :
    (sharing codec).Outside
      (Yields (fun _ t => w.Grows t ∧ t.hasDir dir = true) fun _ _ => False)
      (buildDir dir).run w := by
  apply Linearization.Outside.bind
  refine outside_op hdir fun t hgrows => ?_
  cases hhas : t.hasDir dir with
  | true =>
      -- another job was faster
      simp only [perform, hhas, if_true]
      refine Linearization.Outside.bind (outside_op trivial fun t' hgrows' => ?_)
      have hstill := hgrows'.hasDir hdir hhas
      simp only [perform, hstill]
      exact ⟨hgrows.trans hgrows', hstill⟩
  | false =>
      simp only [perform, hhas, hparent t hgrows, if_true, Bool.false_eq_true,
        if_false]
      refine ⟨hgrows.trans (Disk.grows_makeDir hdir), ?_⟩
      cases dir with
      | staging => exact absurd rfl hdir
      | _ => rfl

/-- Making one directory, after what makes its parent. -/
theorem outside_ensure {dir parent : DirName} (hdir : dir ≠ .staging)
    (hparent : parent ≠ .staging)
    (hnear : ∀ t : Disk, t.hasDir parent = true →
      dir.ancestors.head?.all t.hasDir = true) {before : Io Unit}
    (hbefore : ∀ w, (sharing codec).Outside
      (Yields (fun _ t => t.hasDir parent = true) fun _ _ => False) before.run w)
    (w : Disk) :
    (sharing codec).Outside
      (Yields (fun _ t => t.hasDir dir = true) fun _ _ => False)
      (do
        if ← isDir dir then return
        before
        buildDir dir
        syncDir dir
        syncDir parent : Io Unit).run w := by
  refine Linearization.Outside.bindExcept (outside_isDir dir) ?_
  rintro b t ⟨-, hb⟩
  cases b with
  | true => exact hb rfl
  | false =>
      refine Linearization.Outside.bindExcept (hbefore t) fun _ t hhas => ?_
      refine Linearization.Outside.bindExcept
        (outside_buildDir hdir fun t' hgrows => hnear t' (hgrows.hasDir hparent hhas)) ?_
      rintro _ t' ⟨hgrows, hmade⟩
      refine Linearization.Outside.bindExcept (outside_syncDir hdir hmade) ?_
      intro _ t'' hgrows'
      have hhas'' := hgrows'.hasDir hparent (hgrows.hasDir hparent hhas)
      refine (outside_syncDir hparent hhas'').mono ?_
      intro r u hr
      cases r with
      | error e => exact hr
      | ok _ => exact (hgrows'.trans hr).hasDir hdir hmade

theorem outside_createWork (w : Disk) :
    (sharing codec).Outside
      (Yields (fun _ t => t.workDir = true) fun _ _ => False)
      (createDir .work).run w := by
  have houtside : ∀ w, (sharing codec).Outside
      (Yields (fun _ t => t.hasDir .outside = true) fun _ _ => False)
      (createDirBelow .outside []).run w :=
    @outside_ensure codec .outside .here nofun nofun (fun _ _ => rfl) (pure ())
      fun _ => rfl
  have hstore : ∀ w, (sharing codec).Outside
      (Yields (fun _ t => t.hasDir .store = true) fun _ _ => False)
      (createDirBelow .store [.outside]).run w :=
    @outside_ensure codec .store .outside nofun nofun (fun _ h => h) _ houtside
  exact @outside_ensure codec .work .store nofun nofun (fun _ h => h) _ hstore w

/-- Before the lock is taken its file is there. -/
theorem outside_openLock (w : Disk) :
    (sharing codec).Outside
      (Yields (fun _ t => (t.work.view.lookup .lock).isSome = true)
        fun _ _ => False) openLock.run w := by
  have hmapBackend : ∀ {α : Type} {x : Io α} {P : α → Disk → Prop} {w : Disk},
      (sharing codec).Outside (Yields P fun _ _ => False) x.run w →
      (sharing codec).Outside (Yields P fun _ _ => False) (mapBackend x).run w := by
    intro α x P w h
    refine Linearization.Outside.bind (h.mono ?_)
    intro r t hr
    cases r with
    | ok a => exact hr
    | error e => exact hr.elim
  refine Linearization.Outside.bindExcept (hmapBackend (outside_createWork w)) ?_
  intro _ t hwork
  refine hmapBackend (outside_op trivial fun t' hgrows => ?_)
  simp only [perform, hgrows.workDir hwork, Bool.not_true, Bool.false_eq_true,
    if_false]
  split_ifs with hlock
  · exact hlock
  · simp [Disk.assign]

/-- The lock is taken on a disk where it can be. -/
theorem approach_enter (hcodec : codec.RoundTrips) {call : Call}
    (hcall : call.Allowed) (w : Disk) :
    (sharing codec).Approach call (call.enter codec).run w := by
  refine Linearization.Outside.approach (outside_openLock w) ?_
  intro r t hr
  cases r with
  | error e => exact hr.elim
  | ok _ =>
      refine fun t₁ hgrows hnested => ⟨fun _ => ?_, fun h => by cases h⟩
      have hlockable : t₁.Lockable := hnested.lockable (hgrows.lock hr)
      refine ⟨hlockable, fun m r t₂ hstands hstep => ?_⟩
      cases step_machine_false.mp hstep
      refine ⟨safe_locked hcodec hcall hstands hlockable,
        (spares_locked call).mono fun o ho => ?_⟩
      cases o with
      | lockFile => exact ho.elim
      | _ => rfl

/-- Without a store the map is empty. -/
theorem Call.answer_empty {call : Call} (hcreates : call.creates = false) :
    call.Same (.ok call.missing) (call.answer ∅).1 ∧ (call.answer ∅).2 = ∅ := by
  cases call with
  | put entry => cases hcreates
  | putMany entries =>
      cases entries with
      | nil => exact ⟨rfl, rfl⟩
      | cons e rest => cases hcreates
  | get label => exact ⟨rfl, rfl⟩
  | list => exact ⟨List.Perm.refl _, rfl⟩
  | remove label => exact ⟨rfl, rfl⟩

theorem approach_program (hcodec : codec.RoundTrips) {call : Call}
    (hcall : call.Allowed) (w : Disk) :
    (sharing codec).Approach call (call.program codec).run w := by
  cases hcreates : call.creates with
  | true =>
      rw [Call.program_of_creates hcall hcreates]
      exact approach_enter hcodec hcall w
  | false =>
      rw [Call.program_of_not_creates hcall hcreates]
      refine fun t _ _ => ⟨(fun h => by cases h),
        fun _ => ⟨trivial, fun r t' hstep => ?_⟩⟩
      cases step_machine_false.mp hstep
      cases hstore : t.storeDir with
      | true => exact Or.inl (approach_enter hcodec hcall t)
      | false =>
          refine Or.inr ⟨?_, .ok call.missing, rfl, ?_⟩
          · intro hlockable
            rw [hlockable.storeDir] at hstore
            cases hstore
          · intro m hstands
            rw [hstands.missing hstore]
            exact Call.answer_empty hcreates

end Enter

/-! ## Runs -/

/-- There is no store directory, or it is empty. -/
structure Disk.Unused (d : Disk) : Prop where
  outsideDir : d.storeDir = true → d.outsideDir = true
  workDir : d.workDir = false
  store : d.store.view = ∅
  work : d.work.view = ∅

theorem Disk.Unused.node (h : d.Unused) (path : Path) : d.node path = none := by
  cases path with
  | entry label => simp [Disk.node, h.workDir, h.store]
  | work name => simp [Disk.node, h.work]
  | staged index => simp [Disk.node, Disk.stagingIno, h.work]

theorem Disk.Unused.stands (h : d.Unused) : Stands codec ∅ d where
  sound := by
    refine ⟨fun path i hi => ?_, by rw [h.store]; rfl⟩
    rw [h.node path] at hi
    cases hi
  nested := by
    refine ⟨h.outsideDir, ?_, ?_⟩
    · rw [h.workDir]
      exact nofun
    · rw [h.work]
      exact nofun
  contents := by
    funext label
    simp [Tree.contents, Disk.tree, h.node, Codec.contents]
  labelled := nofun
  work := by
    intro name _
    rw [h.work]
    rfl
  missing := fun _ => rfl

/-- Stores on one directory are to their callers a `MemoryKeystore`.  Start with a
directory that is missing or empty, and let any number of calls run with their
primitives in any order, those after the file lock by whoever holds it.  Then a
map that acts on every call in one step, between its start and its return, gives
the callers the same results in the same order, lists of metadata in any order.
And whatever has happened so far, every call can still return. -/
theorem shared_stores_refine_memory (hcodec : codec.RoundTrips) (hd : d.Unused)
    {s : (jobs codec).State} (hs : (jobs codec).Reachable d s) :
    (∃ a, memory.Reachable ∅ a ∧
      List.Forall₂ (JobEvent.Same Call.Same) s.history a.history) ∧
    ∀ i, ∃ t, Relation.ReflTransGen (jobs codec).Step s t ∧ t.jobs i = none := by
  obtain ⟨a, ha, hsim⟩ := (sharing codec).refines
    (fun call hcall w _ => approach_program hcodec hcall w) hd.stands hs
  refine ⟨⟨a, ha, hsim.history⟩, fun i => hsim.returns ?_ i⟩
  exact fun o w => ⟨_, _, step_machine_false.mpr rfl⟩

/-- The bytes of an entry other than the sample, its metadata escaped. -/
def otherBytes (e : EncryptedEntry) : Bytes :=
  (metadataAad e.metadata).flatMap (fun b => [1, b]) ++ 0 :: e.ciphertext

theorem escaped_inj {a b x y : Bytes}
    (h : a.flatMap (fun b => [1, b]) ++ 0 :: x = b.flatMap (fun b => [1, b]) ++ 0 :: y) :
    a = b ∧ x = y := by
  induction a generalizing b with
  | nil =>
      cases b with
      | nil => exact ⟨rfl, by simpa using h⟩
      | cons _ _ => simp at h
  | cons c rest ih =>
      cases b with
      | nil => simp at h
      | cons c' rest' =>
          simp only [List.flatMap_cons, List.cons_append, List.nil_append,
            List.cons.injEq, true_and] at h
          obtain ⟨hrest, hx⟩ := ih h.2
          exact ⟨by rw [h.1, hrest], hx⟩

theorem otherBytes_injective : Function.Injective otherBytes := by
  intro e e' h
  obtain ⟨hmetadata, hciphertext⟩ := escaped_inj h
  cases e
  cases e'
  simp only [EncryptedEntry.mk.injEq]
  exact ⟨eq_of_metadataAad_eq hmetadata, hciphertext⟩

theorem otherBytes_ne_sample (e : EncryptedEntry) : otherBytes e ≠ sampleEntryBytes := by
  unfold otherBytes
  cases metadataAad e.metadata with
  | nil => exact fun h => by cases h
  | cons b rest => exact fun h => by cases h

/-- The sample codec, made to take every entry. -/
noncomputable def everyCodec : Codec where
  encodeEntry := fun e =>
    if e = sampleEntry then .ok sampleEntryBytes else .ok (otherBytes e)
  decodeEntry := fun bytes =>
    if bytes = sampleEntryBytes then .ok sampleEntry
    else .ok (@Function.invFun _ _ ⟨sampleEntry⟩ otherBytes bytes)
  encodeJournal := fun j =>
    if j = sampleJournal then .ok sampleJournalBytes else .ok []
  decodeJournal := sampleCodec.decodeJournal

theorem roundTrips_everyCodec : everyCodec.RoundTrips where
  entry := by
    intro e
    by_cases he : e = sampleEntry
    · exact ⟨sampleEntryBytes, by simp [everyCodec, he]⟩
    · have hne := otherBytes_ne_sample e
      have hinv := @Function.leftInverse_invFun _ _ ⟨sampleEntry⟩ otherBytes
        otherBytes_injective e
      refine ⟨otherBytes e, ?_, ?_⟩
      · simp [everyCodec, he]
      · simp [everyCodec, hne, hinv]
  journal := by
    intro j
    simp only [everyCodec]
    split_ifs
    · exact ⟨_, rfl⟩
    · exact ⟨_, rfl⟩

/-- There is no store directory yet. -/
def noStore : Disk :=
  { emptyStore with outsideDir := false, storeDir := false, workDir := false }

/-- A list that returns while the first entry is being stored. -/
theorem shared_stores_refine_memory_firstList :
    ∃ s : (jobs everyCodec).State, (jobs everyCodec).Reachable noStore s ∧
      s.history = [.called 0 (.put sampleEntry), .called 1 .list,
        .returned 1 .list (.ok [])] ∧
      ∃ a, memory.Reachable ∅ a ∧
        List.Forall₂ (JobEvent.Same Call.Same) s.history a.history := by
  have hallowed : (Call.put sampleEntry).Allowed := ⟨rfl, by decide⟩
  have hunused : noStore.Unused := ⟨nofun, rfl, rfl, rfl⟩
  have hstore : (jobs everyCodec).machine.step .storeExists noStore (.ok false) noStore :=
    step_machine_false.mpr rfl
  have hput : (jobs everyCodec).Reachable noStore _ :=
    .single (.call 0 (Call.put sampleEntry) rfl hallowed)
  have hlist := hput.tail (.call 1 Call.list rfl trivial)
  have hrun := hlist.tail (.run (i := 1) rfl nofun hstore)
  have hs := hrun.tail (.finish (i := 1) rfl nofun)
  exact ⟨_, hs, rfl, (shared_stores_refine_memory roundTrips_everyCodec hunused hs).1⟩

end Connexa.Keystore.Filesystem
