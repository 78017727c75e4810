import Connexa.Keystore.Filesystem.Invariant

/-!
# Recovery

What `recover` does to a store: a rollback leads to the originals of the
journal, the cleanup after it to a store at rest.  Without faults recovery
always succeeds; with faults it may fail, and the next one goes on from there.
-/

namespace Connexa.Keystore.Filesystem

open HashMap Machine

variable {codec : Codec} {lossy faults : Bool} {n : ℕ} {d d' : Disk}
  {O N : Contents} {I : Disk → Prop}

/-- A condition that calm steps keep. -/
def Steady (lossy : Bool) (I : Disk → Prop) : Prop :=
  ∀ ⦃d d'⦄, I d → Calm lossy d d' → I d'

theorem Steady.and {J : Disk → Prop} (hI : Steady lossy I)
    (hJ : Steady lossy J) : Steady lossy fun d => I d ∧ J d :=
  fun _ _ h hcalm => ⟨hI h.1 hcalm, hJ h.2 hcalm⟩

/-- Recovery fails only with faults, and never over conflicting journals. -/
def Failed (faults : Bool) (e : IoError) (_ : Disk) : Prop :=
  faults = true ∧ e ≠ conflictingJournals

theorem failed_of_fault {f : Fault} (h : (files faults).allowed (some f))
    (d : Disk) : Failed faults (.os f.kind) d := by
  refine ⟨h.resolve_right nofun, ?_⟩
  intro he
  cases he

/-! ## Primitives -/

/-- A primitive by what it does without a fault and with one. -/
theorem safe_prim {o : Op} {r : Reply o} {t : Disk} {Q : Reply o → Disk → Prop}
    (hd : I d) (hexec : perform o d = (r, t)) (ht : I t) (hr : Q r t)
    (hfault : ∀ f, (files faults).allowed (some f) →
      I (performFault o f d).2 ∧ Q (performFault o f d).1 (performFault o f d).2) :
    (machine faults).Safe I Q (Prog.op o) d := by
  apply safe_op hd
  rintro _ _ ⟨c, hc, hstep⟩
  cases c with
  | none =>
      have hsame : (_, _) = (r, t) := hstep.symm.trans hexec
      cases hsame
      exact ⟨ht, hr⟩
  | some f =>
      have hsame : performFault o f d = _ := hstep
      have hf := hfault f hc
      rw [hsame] at hf
      exact hf

theorem safe_workExists (hd : I d) (name : WorkName) :
    (machine faults).Safe I
      (Yields (fun b t => b = (d.work.view.lookup name).isSome ∧ t = d)
        (Failed faults))
      (workExists name).run d :=
  safe_prim hd rfl hd ⟨rfl, rfl⟩ fun _ hf => ⟨hd, failed_of_fault hf d⟩

theorem safe_readWork (hd : I d) {name : WorkName} {i : Ino}
    (hname : name ≠ .staging) (hi : d.work.view.lookup name = some i) :
    (machine faults).Safe I
      (Yields (fun bytes t => bytes = d.data i ∧ t = d) (Failed faults))
      (readFile (.work name)).run d := by
  have hexec : perform (.read (.work name)) d = (.ok (d.data i), d) := by
    simp [perform, Disk.node, hi, hname]
  exact safe_prim hd hexec hd ⟨rfl, rfl⟩ fun _ hf => ⟨hd, failed_of_fault hf d⟩

theorem safe_syncDir (hI : Steady lossy I) (hd : I d) (dir : DirName)
    (hdir : faults = false → d.hasDir dir = true) :
    (machine faults).Safe I
      (Yields (fun _ t => t = d.syncDir dir) (Failed faults))
      (syncDir dir).run d := by
  by_cases hhas : d.hasDir dir = true
  · have hexec : perform (.syncDir dir) d = (.ok (), d.syncDir dir) := by
      simp [perform, hhas]
    exact safe_prim hd hexec (hI hd (calm_syncDir dir d)) rfl
      fun _ hf => ⟨hd, failed_of_fault hf d⟩
  · have hexec : perform (.syncDir dir) d = (.error (.os .notFound), d) := by
      simp [perform, hhas]
    have hfaults : faults = true := by
      cases faults with
      | true => rfl
      | false => exact absurd (hdir rfl) hhas
    exact safe_prim hd hexec hd ⟨hfaults, fun h => by cases h⟩
      fun _ hf => ⟨hd, failed_of_fault hf d⟩

/-- Removing a file that may be missing. -/
theorem safe_removeFile (hd : I d) {path : Path} {P : Disk → Prop}
    (hdir : d.node path ≠ some .dir) (hmissing : d.node path = none → P d)
    (hfile : d.node path ≠ none →
      I (d.assign path none) ∧ P (d.assign path none)) :
    (machine faults).Safe I (Yields (fun _ t => P t) (Failed faults))
      (discard (removeFile path)).run d := by
  apply Safe.discardExcept
  apply Safe.bind
  have hfault : ∀ f : Fault, (files faults).allowed (some f) →
      Yields (fun (_ : Bool) t => P t) (Failed faults)
        (if f.kind = .notFound then .ok false else .error (.os f.kind)) d := by
    intro f hf
    rw [if_neg f.real]
    exact failed_of_fault hf d
  cases hnode : d.node path with
  | none =>
      have hexec : perform (.removeFile path) d =
          (.error (.os .notFound), d) := by
        simp [perform, hnode]
      exact safe_prim hd hexec hd ⟨hd, hmissing hnode⟩
        fun f hf => ⟨hd, hd, hfault f hf⟩
  | some node =>
      cases node with
      | dir => exact absurd hnode hdir
      | file i =>
          have hexec : perform (.removeFile path) d =
              (.ok (), d.assign path none) := by
            simp [perform, hnode]
          obtain ⟨ht, hP⟩ := hfile (by simp [hnode])
          exact safe_prim hd hexec ht ⟨ht, hP⟩
            fun f hf => ⟨hd, hd, hfault f hf⟩

theorem Disk.node_work_ne_dir {name : WorkName} (h : name ≠ .staging) :
    d.node (.work name) ≠ some .dir := by
  simp only [Disk.node]
  split <;> simp [h]

theorem Disk.lookup_of_node_work_eq_none {name : WorkName}
    (h : d.node (.work name) = none) : d.work.view.lookup name = none := by
  simp only [Disk.node] at h
  split at h
  · split at h <;> cases h
  · assumption

/-- Removing a file of `.tmp` other than the journal. -/
theorem safe_removeWork (hI : Steady lossy I) (hd : I d) {name : WorkName}
    (hjournal : name ≠ .journal) (hstaging : name ≠ .staging) :
    (machine faults).Safe I
      (Yields (fun _ t => t.work.view.lookup name = none) (Failed faults))
      (discard (removeFile (.work name))).run d := by
  apply safe_removeFile hd (Disk.node_work_ne_dir hstaging)
  · exact Disk.lookup_of_node_work_eq_none
  · intro _
    exact ⟨hI hd (calm_work name none hjournal fun _ => rfl),
      by simp [Disk.assign]⟩

/-! ## The staging directory -/

/-- There is a staging directory and its names are the given ones. -/
def StagingHas (d : Disk) (names : List ℕ) : Prop :=
  ∃ s, d.stagingIno = some s ∧
    ∀ index, ((d.staging s).view.lookup index).isSome ↔ index ∈ names

theorem stagingHas_keys {s : Ino} (h : d.stagingIno = some s) :
    StagingHas d (d.staging s).view.keys :=
  ⟨s, h, fun index => by
    rw [AList.lookup_isSome, AList.mem_keys]⟩

theorem StagingHas.removeFile {index : ℕ} {rest : List ℕ}
    (h : StagingHas d (index :: rest)) (hnodup : index ∉ rest) :
    perform (.removeFile (.staged index)) d =
        (.ok (), d.assign (.staged index) none) ∧
      StagingHas (d.assign (.staged index) none) rest := by
  obtain ⟨s, hs, hnames⟩ := h
  obtain ⟨i, hi⟩ : ∃ i, (d.staging s).view.lookup index = some i :=
    Option.isSome_iff_exists.mp ((hnames index).mpr List.mem_cons_self)
  constructor
  · simp [perform, Disk.node, hs, hi]
  · have hassign : d.assign (.staged index) none =
        { d with staging := fun s' =>
            if s' = s then (d.staging s).push [(index, none)]
            else d.staging s' } := by
      simp [Disk.assign, Disk.onStaging, hs]
    rw [hassign]
    refine ⟨s, hs, ?_⟩
    intro other
    by_cases hother : other = index
    · subst hother
      simp [hnodup]
    · simp [hother, hnames other]

theorem StagingHas.removeStaging (h : StagingHas d []) :
    perform .removeStaging d =
      (.ok (), { d with work := d.work.push [(.staging, none)] }) := by
  obtain ⟨s, hs, hnames⟩ := h
  have hempty : (d.staging s).view.keys = [] := by
    rw [List.eq_nil_iff_forall_not_mem]
    intro index hindex
    rw [← AList.mem_keys, ← AList.lookup_isSome, hnames index] at hindex
    cases hindex
  simp [perform, hs, hempty]

/-- An error of the operating system. -/
theorem failed_os (hfaults : faults = true) (kind : ErrorKind) (d : Disk) :
    Failed faults (.os kind) d :=
  ⟨hfaults, fun h => by cases h⟩

/-- Emptying the staging directory succeeds unless there are faults. -/
theorem safe_removeStaged (hI : Steady lossy I) (hd : I d) {names : List ℕ}
    (hnodup : names.Nodup) (hnames : faults = false → StagingHas d names) :
    (machine faults).Safe I
      (Yields (fun _ t => faults = false → StagingHas t []) (Failed faults))
      (removeStaged names).run d := by
  induction names generalizing d with
  | nil => exact safe_pure hd hnames
  | cons index rest ih =>
      rw [List.nodup_cons] at hnodup
      apply Safe.bindExcept
      have hcalm : I (perform (.removeFile (.staged index)) d).2 :=
        hI hd (calm_perform _ trivial)
      have hfault : ∀ f, (files faults).allowed (some f) →
          I d ∧ Failed faults (.os f.kind) d :=
        fun f hf => ⟨hd, failed_of_fault hf d⟩
      by_cases hfaults : faults = false
      · obtain ⟨hexec, hrest⟩ := (hnames hfaults).removeFile hnodup.1
        rw [hexec] at hcalm
        exact safe_prim hd hexec hcalm
          (ih hcalm hnodup.2 fun _ => hrest) hfault
      · rw [Bool.not_eq_false] at hfaults
        have hnext : ∀ t, I t → (machine faults).Safe I
            (Yields (fun _ t => faults = false → StagingHas t []) (Failed faults))
            (removeStaged rest).run t :=
          fun t ht => ih ht hnodup.2 fun h => by simp [hfaults] at h
        -- with faults about, the file may be missing as well
        refine safe_prim hd rfl hcalm ?_ hfault
        simp only [perform] at hcalm
        split
        · exact failed_os hfaults _ d
        · exact failed_os hfaults _ d
        · next hnode =>
          rw [hnode] at hcalm
          exact hnext _ hcalm

/-- Removing the staging directory, which may be missing. -/
theorem safe_discardStaging (hI : Steady lossy I) (hd : I d) :
    (machine faults).Safe I (Yields (fun _ _ => True) (Failed faults))
      discardStaging.run d := by
  apply Safe.bind
  have hmissing : (machine faults).Safe I
      (Yields (fun _ _ => True)
        (fun e t => e.kind = .notFound ∨ Failed faults e t))
      removeStagingAll.run d := by
    apply Safe.bindExcept
    cases hs : d.stagingIno with
    | none =>
        have hexec : perform .readStaging d = (.error (.os .notFound), d) := by
          simp [perform, hs]
        exact safe_prim hd hexec hd (Or.inl rfl)
          fun _ hf => ⟨hd, Or.inr (failed_of_fault hf d)⟩
    | some s =>
        have hexec : perform .readStaging d =
            (.ok (d.staging s).view.keys, d) := by
          simp [perform, hs]
        refine safe_prim hd hexec hd ?_
          fun _ hf => ⟨hd, Or.inr (failed_of_fault hf d)⟩
        apply Safe.bindExcept
        refine (safe_removeStaged hI hd (AList.keys_nodup _)
          fun _ => stagingHas_keys hs).monoExcept (fun _ h => h) ?_
          fun _ _ _ h => Or.inr h
        intro _ t ht hempty
        have hcalm : I (perform .removeStaging t).2 :=
          hI ht (calm_perform _ trivial)
        have hfault : ∀ f, (files faults).allowed (some f) →
            I t ∧ ((IoError.os f.kind).kind = .notFound ∨
              Failed faults (.os f.kind) t) :=
          fun f hf => ⟨ht, Or.inr (failed_of_fault hf t)⟩
        by_cases hfaults : faults = false
        · have hexec := (hempty hfaults).removeStaging
          rw [hexec] at hcalm
          exact safe_prim ht hexec hcalm trivial hfault
        · rw [Bool.not_eq_false] at hfaults
          refine safe_prim ht rfl hcalm ?_ hfault
          split
          · split
            · trivial
            · exact Or.inr (failed_os hfaults _ t)
          · exact Or.inl rfl
  refine hmissing.mono (fun _ h => h) ?_
  intro r t ht hr
  cases r with
  | ok _ => exact safe_done ht trivial
  | error e =>
      refine safe_done ht ?_
      by_cases hkind : e.kind = .notFound
      · simp [hkind]
      · simpa [hkind] using hr

/-! ## Cleanup -/

/-- What a committed batch guards while its remains are removed. -/
def Cleaning (codec : Codec) (lossy faults : Bool) (n : ℕ) (O N : Contents)
    (d : Disk) : Prop :=
  Standing faults n d ∧ Committed codec lossy O N d

theorem steady_cleaning :
    Steady lossy (Cleaning codec lossy faults n O N) :=
  fun _ _ h hcalm => ⟨h.1.of_calm hcalm, h.2.of_calm hcalm⟩

theorem atRest_of_syncDir (h : Committed codec lossy O N d)
    (hcommitted : d.work.view.lookup .committed = none) :
    AtRest lossy N (d.syncDir .work) where
  shown := (h.of_calm (calm_syncDir .work d)).shown
  absent := by
    intro W hW
    have hview : W = d.work.view := Dir.sees_sync hW
    rw [hview]
    exact ⟨h.gone, hcommitted⟩

theorem safe_cleanup (hd : Cleaning codec lossy faults n O N d) :
    (machine faults).Safe (Cleaning codec lossy faults n O N)
      (Yields (fun _ t => AtRest lossy N t) (Failed faults))
      cleanup.run d := by
  have hsteady : Steady lossy fun t =>
      Cleaning codec lossy faults n O N t ∧
        t.work.view.lookup .committed = none :=
    steady_cleaning.and fun _ _ h hcalm => hcalm.committed h
  apply Safe.bindExcept
  refine (safe_removeWork steady_cleaning hd (by decide)
    (by decide)).monoExcept (fun _ h => h) ?_ fun _ _ _ h => h
  intro _ t ht hcommitted
  -- the commit record is gone for the rest of the program
  refine Safe.monoExcept (C := fun t =>
      Cleaning codec lossy faults n O N t ∧
        t.work.view.lookup .committed = none)
    ?_ (fun _ h => h.1) (fun _ _ _ h => h) fun _ _ _ h => h
  have hd : Cleaning codec lossy faults n O N t ∧
      t.work.view.lookup .committed = none := ⟨ht, hcommitted⟩
  apply Safe.bindExcept
  refine (safe_removeWork hsteady hd (by decide)
    (by decide)).monoExcept (fun _ h => h) ?_ fun _ _ _ h => h
  intro _ t ht _
  apply Safe.bindExcept
  refine (safe_removeWork hsteady ht (by decide)
    (by decide)).monoExcept (fun _ h => h) ?_ fun _ _ _ h => h
  intro _ t ht _
  apply Safe.bindExcept
  refine (safe_discardStaging hsteady ht).monoExcept (fun _ h => h) ?_
    fun _ _ _ h => h
  intro _ t ht _
  refine (safe_syncDir hsteady ht .work ht.1.1.workDir).monoExcept
    (fun _ h => h) ?_ fun _ _ _ h => h
  rintro _ _ _ rfl
  exact atRest_of_syncDir ht.1.2 ht.2

/-! ## New files -/

/-- The disk after the file was created, written and synced. -/
def Disk.withNew (path : Path) (bytes : Bytes) (d : Disk) : Disk :=
  ((d.newFile.assign path (some d.nextIno)).write d.nextIno bytes).syncFile
    d.nextIno

theorem Disk.onStaging_eq (f : Dir ℕ Ino → Dir ℕ Ino) (d : Disk) :
    d.onStaging f = { d with staging := (d.onStaging f).staging } := by
  unfold Disk.onStaging
  split <;> rfl

@[simp] theorem Disk.synced_assign (path : Path) (value : Option Ino)
    (d : Disk) : (d.assign path value).synced = d.synced := by
  cases path with
  | entry label => rfl
  | work name => rfl
  | staged index =>
      simp only [Disk.assign]
      rw [Disk.onStaging_eq]

@[simp] theorem Disk.nextIno_assign (path : Path) (value : Option Ino)
    (d : Disk) : (d.assign path value).nextIno = d.nextIno := by
  cases path with
  | entry label => rfl
  | work name => rfl
  | staged index =>
      simp only [Disk.assign]
      rw [Disk.onStaging_eq]

theorem Disk.synced_withNew (path : Path) (bytes : Bytes) (d : Disk) :
    (d.withNew path bytes).synced d.nextIno = true := by
  simp [Disk.withNew, Disk.syncFile, Disk.write, Disk.newFile]

theorem Disk.data_withNew (path : Path) (bytes : Bytes) (d : Disk) :
    (d.withNew path bytes).data d.nextIno = bytes := by
  simp [Disk.withNew, Disk.syncFile, Disk.write]

@[simp] theorem Disk.data_assign (path : Path) (value : Option Ino)
    (d : Disk) : (d.assign path value).data = d.data := by
  cases path with
  | entry label => rfl
  | work name => rfl
  | staged index =>
      simp only [Disk.assign]
      rw [Disk.onStaging_eq]

theorem Disk.kept_withNew (path : Path) (bytes : Bytes) (d : Disk) :
    Kept d (d.withNew path bytes) := by
  intro i hi
  have hne : i ≠ d.nextIno := Disk.synced_ne_nextIno hi
  simp [Disk.withNew, Disk.syncFile, Disk.write, Disk.newFile, hne, hi]

/-- Writing a new file succeeds without faults where the name is free. -/
theorem safe_writeNew (hI : Steady lossy I) (hd : I d) (path : Path)
    (bytes : Bytes) (hquiet : (Op.createNew path).Quiet d) :
    (machine faults).Safe I
      (Yields (fun _ t => d.hasParent path = true ∧ t = d.withNew path bytes)
        (fun e _ => e ≠ conflictingJournals ∧ (faults = false →
          d.node path = none → d.hasParent path = false)))
      (writeNew path bytes).run d := by
  have hfault : ∀ (f : Fault) (t : Disk), (files faults).allowed (some f) →
      (IoError.os f.kind ≠ conflictingJournals ∧ (faults = false →
        d.node path = none → d.hasParent path = false)) := by
    intro f t hf
    obtain ⟨hfaults, hne⟩ := failed_of_fault hf t
    exact ⟨hne, fun h => by simp [hfaults] at h⟩
  apply Safe.bindExcept
  have hcreated : I (perform (.createNew path) d).2 :=
    hI hd (calm_perform _ hquiet)
  by_cases hnode : d.node path = none
  · by_cases hparent : d.hasParent path = true
    · have hexec : perform (.createNew path) d =
          (.ok d.nextIno, d.newFile.assign path (some d.nextIno)) := by
        simp [perform, hnode, hparent]
      rw [hexec] at hcreated
      refine safe_prim hd hexec hcreated ?_ fun f hf => ⟨hd, hfault f d hf⟩
      apply Safe.bindExcept
      have hfresh : (d.newFile.assign path (some d.nextIno)).synced d.nextIno =
          false := by
        simp [Disk.newFile, d.fresh d.nextIno le_rfl]
      have hwritten : ∀ bytes', I ((d.newFile.assign path
          (some d.nextIno)).write d.nextIno bytes') :=
        fun bytes' => hI hcreated (calm_write bytes' hfresh)
      refine safe_prim hcreated rfl (hwritten bytes) ?_
        fun f hf => ⟨hwritten _, hfault f d hf⟩
      exact safe_prim (hwritten bytes) rfl
        (hI (hwritten bytes) (calm_syncFile _ _)) ⟨hparent, rfl⟩
        fun f hf => ⟨hwritten bytes, hfault f d hf⟩
    · have hexec : perform (.createNew path) d =
          (.error (.os .notFound), d) := by
        simp [perform, hnode, hparent]
      exact safe_prim hd hexec hd
        ⟨fun h => (by cases h), fun _ _ => by simpa using hparent⟩
        fun f hf => ⟨hd, hfault f d hf⟩
  · have hexec : perform (.createNew path) d =
        (.error (.os .alreadyExists), d) := by
      simp [perform, Option.isSome_iff_ne_none, hnode]
    exact safe_prim hd hexec hd
      ⟨fun h => (by cases h), fun _ h => absurd h hnode⟩
      fun f hf => ⟨hd, hfault f d hf⟩

/-! ## Rollback -/

/-- What a rollback keeps. -/
def Undoing (codec : Codec) (lossy faults : Bool) (n : ℕ) (O : Contents)
    (d : Disk) : Prop :=
  Standing faults n d ∧ Undoable codec lossy O d

theorem steady_undoing : Steady lossy (Undoing codec lossy faults n O) :=
  fun _ _ h hcalm => ⟨h.1.of_calm hcalm, h.2.of_calm hcalm⟩

/-- All entries but those of `L` are as in `O`. -/
def Remaining (L : List (String × Option Bytes)) (O : Contents) (d : Disk) :
    Prop :=
  AgreesOff d d.store.view L O

theorem steady_remaining {L : List (String × Option Bytes)} :
    Steady lossy (Remaining L O) := by
  intro d d' h hcalm
  unfold Remaining
  rw [hcalm.storeView]
  exact h.of_kept hcalm.kept

theorem AgreesOff.tail {V : HashMap String Node} {label : String}
    {original : Option Bytes} {rest : List (String × Option Bytes)}
    (h : AgreesOff d V ((label, original) :: rest) O)
    (hshows : ShowsAt d (V.lookup label) (O label)) : AgreesOff d V rest O where
  others := by
    intro other hother
    by_cases hname : other = label
    · exact hname ▸ hshows
    · apply h.others
      intro e he
      rcases List.mem_cons.mp he with rfl | he
      · exact Ne.symm hname
      · exact hother e he
  files := fun e he => h.files e (List.mem_cons_of_mem _ he)

/-- Renames other than that of the journal to the commit record. -/
theorem calm_renames {src dst : Path}
    (h : (src, dst) ≠ (.work .journal, .work .committed)) (d : Disk) :
    Calm lossy d { d with renames := d.renames ++ [(src, dst)] } :=
  { Calm.refl d with
    commits := by simp [Disk.commits, List.count_append, h] }

theorem safe_rename (hd : I d) {src dst : Path} {i : Ino} {P : Disk → Prop}
    (hsrc : d.node src = some (.file i)) (hdst : d.node dst ≠ some .dir)
    (hparent : faults = false → d.hasParent dst = true)
    (ht : I (d.move src dst i)) (hP : P (d.move src dst i)) :
    (machine faults).Safe I (Yields (fun _ t => P t) (Failed faults))
      (renameFile src dst).run d := by
  by_cases hhas : d.hasParent dst = true
  · have hexec : perform (.rename src dst) d = (.ok (), d.move src dst i) := by
      simp [perform, hsrc, hdst, hhas]
    exact safe_prim hd hexec ht hP fun _ hf => ⟨hd, failed_of_fault hf d⟩
  · have hexec : perform (.rename src dst) d = (.error (.os .notFound), d) := by
      simp [perform, hsrc, hdst, hhas]
    have hfaults : faults = true := by
      cases faults with
      | true => rfl
      | false => exact absurd (hparent rfl) hhas
    exact safe_prim hd hexec hd (failed_os hfaults _ d)
      fun _ hf => ⟨hd, failed_of_fault hf d⟩

section Restore

variable {label : String} {node : Option Node} {original : Option Bytes}
  {rest : List (String × Option Bytes)}

theorem Undoing.restore (h : Undoing codec lossy faults n O d)
    (hshows : ShowsAt d node (O label)) (hfile : node ≠ some .dir) :
    Undoing codec lossy faults n O
      { d with store := d.store.push [(label, node)] } :=
  ⟨⟨h.1.workDir, h.1.storeDir, h.1.commits⟩, h.2.restore hshows hfile⟩

theorem Remaining.restore (h : Remaining ((label, original) :: rest) O d)
    (hshows : ShowsAt d node (O label)) (hfile : node ≠ some .dir) :
    Remaining rest O { d with store := d.store.push [(label, node)] } := by
  have hkept : Kept d { d with store := d.store.push [(label, node)] } :=
    fun _ h => ⟨h, rfl⟩
  have hview := AgreesOff.restore h hshows hfile
  unfold Remaining
  simp only [Dir.view_push]
  exact (hview.tail (by simpa using hshows)).of_kept hkept

/-- Restoring one entry. -/
theorem safe_restore (hd : Undoing codec lossy faults n O d)
    (hremaining : Remaining ((label, original) :: rest) O d)
    (hlabel : label ≠ workDirName) (horiginal : O label = original.map .file) :
    (machine faults).Safe (Undoing codec lossy faults n O)
      (Yields (fun _ t => Remaining rest O t) (Failed faults))
      (restore label original).run d := by
  have hnode : ∀ t : Disk, t.node (.entry label) = t.store.view.lookup label :=
    fun t => by simp [Disk.node, hlabel]
  have hnotDir : ∀ t, Remaining ((label, original) :: rest) O t →
      t.node (.entry label) ≠ some .dir := by
    intro t ht
    rw [hnode]
    exact ht.files (label, original) List.mem_cons_self
  cases original with
  | none =>
      have hnone : ∀ t, ShowsAt t none (O label) := fun _ => ⟨horiginal, nofun⟩
      apply safe_removeFile hd (hnotDir d hremaining)
      · intro hmissing
        rw [hnode] at hmissing
        apply AgreesOff.tail hremaining
        rw [hmissing]
        exact hnone d
      · intro _
        exact ⟨hd.restore (hnone d) nofun, hremaining.restore (hnone d) nofun⟩
  | some bytes =>
      have hsteady : Steady lossy fun t => Undoing codec lossy faults n O t ∧
          Remaining ((label, some bytes) :: rest) O t :=
        steady_undoing.and steady_remaining
      -- until the rename the entry itself is not touched
      apply Safe.bindExcept
      refine (safe_removeWork hsteady ⟨hd, hremaining⟩ (by decide)
        (by decide)).monoExcept (fun _ h => h.1) ?_ fun _ _ _ h => h
      intro _ t ht hfree
      apply Safe.bindExcept
      refine (safe_writeNew hsteady ht (.work .restore) bytes
        ⟨by decide, by decide⟩).monoExcept (fun _ h => h.1) ?_ ?_
      · rintro _ _ hnew ⟨-, rfl⟩
        have hsrc : (t.withNew (.work .restore) bytes).node (.work .restore) =
            some (.file t.nextIno) := by
          simp [Disk.node, Disk.withNew, Disk.syncFile, Disk.write, Disk.assign,
            Disk.newFile]
        have hshows : ShowsAt (t.withNew (.work .restore) bytes)
            (some (.file t.nextIno)) (O label) := by
          constructor
          · rw [horiginal]
            simp [Disk.content, Disk.data_withNew]
          · rintro i hi
            cases hi
            exact Disk.synced_withNew _ _ t
        have hmove : Calm lossy _ _ := calm_renames
          (show (Path.work .restore, Path.entry label) ≠
            (.work .journal, .work .committed) by simp)
          (t.withNew (.work .restore) bytes)
        have hmoved := hsteady hnew hmove
        have hunlink : ∀ u : Disk, Calm lossy u
            { u with work := u.work.push [(.restore, none)] } :=
          fun u => calm_work _ _ (by decide) fun _ => rfl
        apply safe_rename hnew.1 hsrc (hnotDir _ hnew.2)
          (fun hf => hnew.1.1.storeDir hf)
        · exact steady_undoing (hmoved.1.restore hshows (by simp)) (hunlink _)
        · exact steady_remaining (hmoved.2.restore hshows (by simp)) (hunlink _)
      · intro e _ _ he
        refine ⟨?_, he.1⟩
        by_contra hfaults
        rw [Bool.not_eq_true] at hfaults
        have hparent := he.2 hfaults (by simp [Disk.node, hfree])
        have hwork : t.workDir = true := ht.1.1.workDir hfaults
        simp [Disk.hasParent, hwork] at hparent

theorem safe_restoreAll {L : List (String × Option Bytes)}
    (hd : Undoing codec lossy faults n O d) (hremaining : Remaining L O d)
    (hlabels : ∀ e ∈ L, e.1 ≠ workDirName)
    (horiginals : ∀ e ∈ L, O e.1 = e.2.map .file) :
    (machine faults).Safe (Undoing codec lossy faults n O)
      (Yields (fun _ t => Shows t t.store.view O) (Failed faults))
      (restoreAll L).run d := by
  induction L generalizing d with
  | nil => exact safe_pure hd fun label => hremaining.others label nofun
  | cons e rest ih =>
      apply Safe.bindExcept
      refine (safe_restore hd hremaining (hlabels e List.mem_cons_self)
        (horiginals e List.mem_cons_self)).monoExcept (fun _ h => h) ?_
        fun _ _ _ h => h
      intro _ t ht hrest
      exact ih ht hrest (fun e' he' => hlabels e' (List.mem_cons_of_mem _ he'))
        fun e' he' => horiginals e' (List.mem_cons_of_mem _ he')

end Restore

theorem checkLabels_eq_ok {L : List (String × Option Bytes)}
    (h : ∀ e ∈ L, validateLabel e.1 = .ok () ∧ e.1 ≠ workDirName) :
    checkLabels L = .ok () := by
  induction L with
  | nil => rfl
  | cons e rest ih =>
      obtain ⟨hvalid, hne⟩ := h e List.mem_cons_self
      simp only [checkLabels, hvalid, if_neg hne]
      exact ih fun e' he' => h e' (List.mem_cons_of_mem _ he')

theorem checkJournal_eq_ok {L : List (String × Option Bytes)}
    (h : ∀ e ∈ L, validateLabel e.1 = .ok () ∧ e.1 ≠ workDirName) :
    checkJournal ⟨1, L⟩ = .ok () := by
  simp [checkJournal, checkLabels_eq_ok h]

/-- Undoing the batch of the journal. -/
theorem safe_rollback (hd : Undoing codec lossy faults n O d) {i : Ino}
    (hi : d.work.view.lookup .journal = some i) :
    (machine faults).Safe (Undoing codec lossy faults n O)
      (Yields (fun _ t => NoJournal t.work.view) (Failed faults))
      (rollback codec).run d := by
  obtain ⟨-, L, hgood, hagrees⟩ :=
    hd.2.journals _ (Dir.sees_view lossy d.work) i hi
  apply Safe.bindExcept
  refine (safe_readWork hd (by decide) hi).monoExcept (fun _ h => h) ?_
    fun _ _ _ h => h
  rintro _ d' _ ⟨rfl, rfl⟩
  rw [hgood.decodes]
  simp only [checkJournal_eq_ok hgood.labels]
  apply Safe.bindExcept
  refine (safe_restoreAll hd (hagrees _ (Dir.sees_view lossy d'.store))
    (fun e he => (hgood.labels e he).2) hgood.originals).monoExcept
    (fun _ h => h) ?_ fun _ _ _ h => h
  intro _ t ht hshows
  apply Safe.bindExcept
  refine (safe_syncDir steady_undoing ht .store ht.1.storeDir).monoExcept
    (fun _ h => h) ?_ fun _ _ _ h => h
  rintro _ _ hsynced rfl
  have hall : ∀ V, (t.syncDir .store).store.Sees lossy V →
      Shows (t.syncDir .store) V O := by
    intro V hV
    have hview : V = t.store.view := Dir.sees_sync hV
    rw [hview]
    exact hshows
  have hremove : Undoing codec lossy faults n O
      ((t.syncDir .store).assign (.work .journal) none) :=
    ⟨⟨hsynced.1.workDir, hsynced.1.storeDir, hsynced.1.commits⟩,
      hsynced.2.removeJournal hall⟩
  apply Safe.bindExcept
  refine Safe.monoExcept (P := fun _ t => NoJournal t.work.view)
    (safe_removeFile hsynced (Disk.node_work_ne_dir (by decide))
      Disk.lookup_of_node_work_eq_none
      fun _ => ⟨hremove, by simp [NoJournal, Disk.assign]⟩)
    (fun _ h => h) ?_ fun _ _ _ h => h
  intro _ t ht hgone
  refine (safe_syncDir steady_undoing ht .work
    ht.1.workDir).monoExcept (fun _ h => h) ?_ fun _ _ _ h => h
  rintro _ _ _ rfl
  exact hgone

/-! ## Recovery -/

/-- Recovery of a store without a journal. -/
theorem safe_recover_of_committed (hd : Cleaning codec lossy faults n O N d) :
    (machine faults).Safe (Cleaning codec lossy faults n O N)
      (Yields (fun _ t => AtRest lossy N t) (Failed faults))
      (recover codec).run d := by
  have hgone : (d.work.view.lookup .journal).isSome = false := by
    rw [hd.2.gone]
    rfl
  have hrest : (machine faults).Safe (Cleaning codec lossy faults n O N)
      (Yields (fun _ t => AtRest lossy N t) (Failed faults))
      (do
        if ← workExists .journal then rollback codec
        cleanup : Io Unit).run d := by
    apply Safe.bindExcept
    refine (safe_workExists hd .journal).monoExcept (fun _ h => h) ?_
      fun _ _ _ h => h
    rintro _ t _ ⟨rfl, rfl⟩
    simp only [hgone, Bool.false_eq_true, if_false]
    exact safe_cleanup hd
  apply Safe.bindExcept
  refine (safe_workExists hd .committed).monoExcept (fun _ h => h) ?_
    fun _ _ _ h => h
  rintro b t _ ⟨-, rfl⟩
  cases b with
  | false => exact hrest
  | true =>
      simp only [if_true]
      apply Safe.bindExcept
      refine (safe_workExists hd .journal).monoExcept (fun _ h => h) ?_
        fun _ _ _ h => h
      rintro _ t _ ⟨rfl, rfl⟩
      simp only [hgone, Bool.false_eq_true, if_false]
      exact hrest

theorem Cleaning.undoing (h : Cleaning codec lossy faults n O O d) :
    Undoing codec lossy faults n O d :=
  ⟨h.1, h.2.undoable⟩

theorem safe_recover (hd : Undoing codec lossy faults n O d) :
    (machine faults).Safe (Undoing codec lossy faults n O)
      (Yields (fun _ t => AtRest lossy O t) (Failed faults))
      (recover codec).run d := by
  by_cases hgone : NoJournal d.work.view
  · exact (safe_recover_of_committed ⟨hd.1, hd.2.committed hgone⟩).monoExcept
      (fun _ h => h.undoing) (fun _ _ _ h => h) fun _ _ _ h => h
  · obtain ⟨i, hi⟩ : ∃ i, d.work.view.lookup .journal = some i :=
      Option.ne_none_iff_exists'.mp hgone
    obtain ⟨hnone, -⟩ := hd.2.journals _ (Dir.sees_view lossy d.work) i hi
    apply Safe.bindExcept
    refine (safe_workExists hd .committed).monoExcept (fun _ h => h) ?_
      fun _ _ _ h => h
    rintro _ t _ ⟨rfl, rfl⟩
    simp only [hnone, Option.isSome_none, Bool.false_eq_true, if_false]
    apply Safe.bindExcept
    refine (safe_workExists hd .journal).monoExcept (fun _ h => h) ?_
      fun _ _ _ h => h
    rintro _ t _ ⟨rfl, rfl⟩
    simp only [hi, Option.isSome_some, if_true]
    apply Safe.bindExcept
    refine (safe_rollback hd hi).monoExcept (fun _ h => h) ?_ fun _ _ _ h => h
    intro _ t ht hgone
    exact (safe_cleanup ⟨ht.1, ht.2.committed hgone⟩).monoExcept
      (fun _ h => h.undoing) (fun _ _ _ h => h) fun _ _ _ h => h

end Connexa.Keystore.Filesystem
