import Connexa.Keystore.Filesystem.Recovery

/-!
# Committing a batch

`commit_batch` step by step: staging touches no entry, the journal arms the
way back, the entries are replaced one by one, and the rename of the journal
to the commit record is the point where the batch counts.
-/

namespace Connexa.Keystore.Filesystem

open HashMap Machine

variable {codec : Codec} {lossy faults : Bool} {n : ℕ} {d d' : Disk}
  {O N : Contents} {I : Disk → Prop}

/-! ## The batch as a whole -/

/-- The contents with one entry stored. -/
def applyEntry (codec : Codec) (O : Contents) (entry : EncryptedEntry) :
    Contents :=
  fun label =>
    if label = entry.metadata.label then
      match codec.encodeEntry entry with
      | .ok bytes => some (.file bytes)
      | .error _ => O label
    else O label

/-- The contents with the whole batch stored; the last entry of a label wins. -/
def applyBatch (codec : Codec) (entries : List EncryptedEntry) (O : Contents) :
    Contents :=
  entries.foldl (applyEntry codec) O

/-- The contents with the encoded entries stored. -/
def overlay (encoded : HashMap String Bytes) (O : Contents) : Contents :=
  fun label =>
    match encoded.lookup label with
    | some bytes => some (.file bytes)
    | none => O label

@[simp] theorem overlay_empty (O : Contents) : overlay ∅ O = O := rfl

theorem overlay_insert (encoded : HashMap String Bytes) (O : Contents)
    {entry : EncryptedEntry} {bytes : Bytes}
    (h : codec.encodeEntry entry = .ok bytes) :
    overlay (encoded.insert entry.metadata.label bytes) O =
      applyEntry codec (overlay encoded O) entry := by
  funext label
  simp only [overlay, applyEntry, h, lookup_insert]
  by_cases hlabel : label = entry.metadata.label
  · simp [hlabel]
  · simp [hlabel]

/-- All labels of the map are valid. -/
def ValidLabels (encoded : HashMap String Bytes) : Prop :=
  ∀ label bytes, encoded.lookup label = some bytes → validateLabel label = .ok ()

theorem ValidLabels.insert {encoded : HashMap String Bytes}
    (h : ValidLabels encoded) {label : String} (hlabel : validateLabel label = .ok ())
    (bytes : Bytes) : ValidLabels (encoded.insert label bytes) := by
  intro other bytes' hother
  rw [lookup_insert] at hother
  by_cases hname : other = label
  · exact hname ▸ hlabel
  · rw [if_neg hname] at hother
    exact h other bytes' hother

theorem exec_isFile_disk (label : String) (c : Option Fault) (d : Disk) :
    (exec (.isFile label) c d).2 = d := by
  cases c with
  | none =>
      simp only [exec, perform]
      split <;> rfl
  | some f => rfl

/-- Encoding reads the disk only. -/
theorem safe_encodeEntries (hd : I d) (entries : List EncryptedEntry)
    {encoded : HashMap String Bytes} (hvalid : ValidLabels encoded) :
    (machine faults).Safe I
      (Yields (fun m t => t = d ∧ ValidLabels m ∧
          overlay m O = applyBatch codec entries (overlay encoded O))
        (fun _ _ => True))
      (encodeEntries codec entries encoded).run d := by
  induction entries generalizing encoded with
  | nil => exact safe_pure hd ⟨rfl, hvalid, rfl⟩
  | cons entry rest ih =>
      unfold encodeEntries
      cases hlabel : validateLabel entry.metadata.label with
      | error e => exact safe_throw hd trivial
      | ok _ =>
          have hnext : (machine faults).Safe I
              (Yields (fun m t => t = d ∧ ValidLabels m ∧ overlay m O =
                applyBatch codec (entry :: rest) (overlay encoded O))
                (fun _ _ => True))
              (do
                let bytes ← codecResult (codec.encodeEntry entry)
                encodeEntries codec rest
                  (encoded.insert entry.metadata.label bytes) :
                StoreM (HashMap String Bytes)).run d := by
            cases hencode : codec.encodeEntry entry with
            | error text => exact safe_throw hd trivial
            | ok bytes =>
                have hih := ih (hvalid.insert hlabel bytes)
                rw [overlay_insert encoded O hencode] at hih
                exact hih
          apply Safe.bindExcept
          apply Safe.liftExcept
          apply safe_op hd
          rintro reply t ⟨c, -, hstep⟩
          have hsame : t = d := by
            have hdisk := exec_isFile_disk entry.metadata.label c d
            rw [show exec (.isFile entry.metadata.label) c d = _ from hstep]
              at hdisk
            exact hdisk
          subst hsame
          refine ⟨hd, ?_⟩
          match reply with
          | .ok false => exact safe_throw hd trivial
          | .ok true => exact hnext
          | .error _ => exact hnext

/-! ## Staging -/

theorem safe_mapBackend {α : Type} {x : Io α} {P : α → Disk → Prop}
    {E : IoError → Disk → Prop} {E' : Error → Disk → Prop}
    (h : (machine faults).Safe I (Yields P E) x.run d)
    (hE : ∀ e t, I t → E e t → E' (.backend e) t) :
    (machine faults).Safe I (Yields P E') (mapBackend x).run d := by
  apply Safe.bind
  refine h.mono (fun _ h => h) ?_
  intro r t ht hr
  cases r with
  | ok a => exact safe_done ht hr
  | error e => exact safe_done ht (hE e t ht hr)

/-- Primitives that are calm on every disk. -/
def Op.AlwaysQuiet (o : Op) : Prop :=
  ∀ d, o.Quiet d

theorem safe_of_quiet {α ε : Type} {x : ExceptT ε (Prog Op Reply) α}
    (hI : Steady lossy I) (hd : I d) (hx : x.run.Calls Op.AlwaysQuiet) :
    (machine faults).Safe I (Yields (fun _ _ => True) (fun _ _ => True))
      x.run d := by
  have hstep : ∀ o t r t', Op.AlwaysQuiet o → I t →
      (machine faults).step o t r t' → I t' := by
    rintro o t r t' ho ht ⟨c, -, hexec⟩
    have hcalm : Calm lossy t (exec o c t).2 := calm_exec (ho t) c
    rw [show exec o c t = _ from hexec] at hcalm
    exact hI ht hcalm
  have hsafe : (machine faults).Safe I (fun _ _ => True) x.run d :=
    safe_of_calls hstep hx hd
  refine hsafe.mono (fun _ h => h) ?_
  intro r t _ _
  cases r with
  | ok a => trivial
  | error e => trivial

theorem calls_syncDir (dir : DirName) :
    (syncDir dir).run.Calls Op.AlwaysQuiet :=
  Prog.calls_op fun _ => trivial

section Calls

variable {P : Op → Prop}

theorem calls_isDir {dir : DirName} (h : P (.isDir dir)) :
    (isDir dir).run.Calls P :=
  Prog.Calls.bind (Prog.calls_op h) fun _ => trivial

theorem calls_buildDir {dir : DirName} (hcreate : P (.createDir dir))
    (hisDir : P (.isDir dir)) : (buildDir dir).run.Calls P := by
  refine Prog.Calls.bind (Prog.calls_op hcreate) ?_
  intro r
  cases r with
  | ok _ => trivial
  | error e =>
      by_cases hkind : e.kind = .alreadyExists
      · simp only [if_pos hkind]
        refine Prog.Calls.bind (Prog.calls_op hisDir) ?_
        intro b
        cases b <;> trivial
      · simp only [if_neg hkind]
        trivial

/-- Creating directories looks for them, makes them and syncs them. -/
theorem calls_createDirBelow
    (h : ∀ dir, P (.isDir dir) ∧ P (.createDir dir) ∧ P (.syncDir dir))
    (dir : DirName) (above : List DirName) :
    (createDirBelow dir above).run.Calls P := by
  have hsync : ∀ dir, (syncDir dir).run.Calls P :=
    fun dir => Prog.calls_op (h dir).2.2
  induction above generalizing dir with
  | nil =>
      refine Prog.Calls.bindExcept (calls_isDir (h dir).1) ?_
      intro b
      cases b with
      | true => trivial
      | false =>
          refine Prog.Calls.bindExcept (calls_buildDir (h dir).2.1 (h dir).1)
            fun _ => ?_
          exact Prog.Calls.bindExcept (hsync dir) fun _ => hsync .here
  | cons parent above ih =>
      refine Prog.Calls.bindExcept (calls_isDir (h dir).1) ?_
      intro b
      cases b with
      | true => trivial
      | false =>
          refine Prog.Calls.bindExcept (ih parent) fun _ => ?_
          refine Prog.Calls.bindExcept (calls_buildDir (h dir).2.1 (h dir).1)
            fun _ => ?_
          exact Prog.Calls.bindExcept (hsync dir) fun _ => hsync parent

end Calls

/-- Creating directories is calm. -/
theorem quiet_createDirBelow (dir : DirName) (above : List DirName) :
    (createDirBelow dir above).run.Calls Op.AlwaysQuiet :=
  calls_createDirBelow (fun _ => ⟨fun _ => trivial, fun _ => trivial, fun _ => trivial⟩)
    dir above

/-- The staged file holds these bytes, safely on disk. -/
def StagedAs (index : ℕ) (bytes : Bytes) (d : Disk) : Prop :=
  ∃ i, d.node (.staged index) = some (.file i) ∧ d.synced i = true ∧
    d.data i = bytes

/-- The encoded entries are staged from `index` on. -/
def StagedFrom : ℕ → List (String × Bytes) → Disk → Prop
  | _, [], _ => True
  | index, (_, bytes) :: rest, d =>
      StagedAs index bytes d ∧ StagedFrom (index + 1) rest d

theorem StagedAs.of_kept {index : ℕ} {bytes : Bytes} (h : StagedAs index bytes d)
    (hnode : d'.node (.staged index) = d.node (.staged index))
    (hkept : Kept d d') : StagedAs index bytes d' := by
  obtain ⟨i, hi, hsynced, hdata⟩ := h
  obtain ⟨hsynced', hdata'⟩ := hkept i hsynced
  exact ⟨i, hnode.trans hi, hsynced', hdata'.trans hdata⟩

theorem StagedFrom.of_kept {index : ℕ} {files : List (String × Bytes)}
    (h : StagedFrom index files d)
    (hnode : ∀ k, index ≤ k → d'.node (.staged k) = d.node (.staged k))
    (hkept : Kept d d') : StagedFrom index files d' := by
  induction files generalizing index with
  | nil => trivial
  | cons e rest ih =>
      exact ⟨h.1.of_kept (hnode index le_rfl) hkept,
        ih h.2 fun k hk => hnode k (Nat.le_of_succ_le hk)⟩

theorem Disk.node_staged_assign_of_ne {index k : ℕ} (h : k ≠ index)
    (value : Option Ino) (d : Disk) :
    (d.assign (.staged index) value).node (.staged k) = d.node (.staged k) := by
  cases hs : d.stagingIno with
  | none => simp [Disk.assign, Disk.onStaging, hs]
  | some s =>
      have hassign : d.assign (.staged index) value =
          { d with staging := fun s' =>
              if s' = s then (d.staging s).push [(index, value)]
              else d.staging s' } := by
        simp [Disk.assign, Disk.onStaging, hs]
      have hs' : (d.assign (.staged index) value).stagingIno = some s := by
        rw [hassign]
        exact hs
      simp only [Disk.node, hs, hs']
      rw [hassign]
      simp [h]

theorem Disk.node_staged_assign {s : Ino} (hs : d.stagingIno = some s)
    (index : ℕ) (value : Option Ino) :
    (d.assign (.staged index) value).node (.staged index) =
      value.map .file := by
  have hassign : d.assign (.staged index) value =
      { d with staging := fun s' =>
          if s' = s then (d.staging s).push [(index, value)]
          else d.staging s' } := by
    simp [Disk.assign, Disk.onStaging, hs]
  have hs' : (d.assign (.staged index) value).stagingIno = some s := by
    rw [hassign]
    exact hs
  simp only [Disk.node, hs']
  rw [hassign]
  simp

/-- What holds until the journal is in place. -/
def Resting (lossy faults : Bool) (n : ℕ) (O : Contents) (d : Disk) : Prop :=
  Standing faults n d ∧ AtRest lossy O d ∧ d.workDir = true

theorem steady_resting : Steady lossy (Resting lossy faults n O) :=
  fun _ _ h hcalm =>
    ⟨h.1.of_calm hcalm, h.2.1.of_calm hcalm, hcalm.workDir h.2.2⟩

/-- The original that is read is that of `O`. -/
theorem safe_readOriginal (hd : Resting lossy faults n O d) (label : String) :
    (machine faults).Safe (Resting lossy faults n O)
      (Yields (fun old t => t = d ∧ label ≠ workDirName ∧
          O label = old.map .file) (fun _ _ => True))
      (readOriginal label).run d := by
  have hshows := hd.2.1.shown _ (Dir.sees_view lossy d.store) label
  have hwork : d.workDir = true := hd.2.2
  apply Safe.bind
  have hfault : ∀ f : Fault,
      Yields (fun (old : Option Bytes) t => t = d ∧ label ≠ workDirName ∧
          O label = old.map .file) (fun _ _ => True)
        (if f.kind = .notFound then .ok none
          else .error (Error.backend (.os f.kind))) d := by
    intro f
    rw [if_neg f.real]
    trivial
  by_cases hlabel : label = workDirName
  · have hexec : perform (.read (.entry label)) d =
        (.error (.os .isADirectory), d) := by
      simp [perform, Disk.node, hlabel, hwork]
    exact safe_prim hd hexec hd ⟨hd, trivial⟩ fun f _ => ⟨hd, hd, hfault f⟩
  · have hnode : d.node (.entry label) = d.store.view.lookup label := by
      simp [Disk.node, hlabel]
    cases hview : d.store.view.lookup label with
    | none =>
        have hexec : perform (.read (.entry label)) d =
            (.error (.os .notFound), d) := by
          simp [perform, hnode, hview]
        rw [hview] at hshows
        exact safe_prim hd hexec hd ⟨hd, rfl, hlabel, hshows.1⟩
          fun f _ => ⟨hd, hd, hfault f⟩
    | some node =>
        rw [hview] at hshows
        cases node with
        | dir =>
            have hexec : perform (.read (.entry label)) d =
                (.error (.os .isADirectory), d) := by
              simp [perform, hnode, hview]
            exact safe_prim hd hexec hd ⟨hd, trivial⟩
              fun f _ => ⟨hd, hd, hfault f⟩
        | file i =>
            have hexec : perform (.read (.entry label)) d =
                (.ok (d.data i), d) := by
              simp [perform, hnode, hview]
            exact safe_prim hd hexec hd ⟨hd, rfl, hlabel, hshows.1⟩
              fun f _ => ⟨hd, hd, hfault f⟩

theorem stagedAs_withNew {index : ℕ} (bytes : Bytes)
    (hparent : d.hasParent (.staged index) = true) :
    StagedAs index bytes (d.withNew (.staged index) bytes) := by
  obtain ⟨s, hs⟩ : ∃ s, d.newFile.stagingIno = some s :=
    Option.isSome_iff_exists.mp hparent
  exact ⟨d.nextIno, Disk.node_staged_assign hs index (some d.nextIno),
    Disk.synced_withNew _ _ d, Disk.data_withNew _ _ d⟩

/-- Staging reads the originals of `O` and leaves the entries alone. -/
theorem safe_stage (hd : Resting lossy faults n O d) (index : ℕ)
    (files : List (String × Bytes)) :
    (machine faults).Safe (Resting lossy faults n O)
      (Yields (fun originals t =>
          originals.map Prod.fst = files.map Prod.fst ∧
          (∀ e ∈ originals, e.1 ≠ workDirName ∧ O e.1 = e.2.map .file) ∧
          StagedFrom index files t ∧
          ∀ k bytes, k < index → StagedAs k bytes d → StagedAs k bytes t)
        (fun _ _ => True))
      (stage index files).run d := by
  induction files generalizing index d with
  | nil => exact safe_pure hd ⟨rfl, nofun, trivial, fun _ _ _ h => h⟩
  | cons e rest ih =>
      obtain ⟨label, bytes⟩ := e
      apply Safe.bindExcept
      refine (safe_readOriginal hd label).monoExcept (fun _ h => h) ?_
        fun _ _ _ h => h
      rintro old d' _ ⟨rfl, hlabel, hold⟩
      apply Safe.bindExcept
      refine (safe_mapBackend (safe_writeNew steady_resting hd (.staged index)
        bytes trivial) fun _ _ _ _ => trivial).monoExcept (fun _ h => h) ?_
        fun _ _ _ h => h
      rintro _ _ hnew ⟨hparent, rfl⟩
      have hstaged := stagedAs_withNew bytes hparent
      apply Safe.bindExcept
      refine (ih hnew (index + 1)).monoExcept (fun _ h => h) ?_
        fun _ _ _ h => h
      rintro originals t ht ⟨hlabels, horiginals, hfrom, hframe⟩
      refine safe_pure ht ⟨by simp [hlabels], ?_, ⟨?_, hfrom⟩, ?_⟩
      · intro e he
        rcases List.mem_cons.mp he with rfl | he
        · exact ⟨hlabel, hold⟩
        · exact horiginals e he
      · exact hframe index bytes (Nat.lt_succ_self index) hstaged
      · intro k bytes' hk hbefore
        apply hframe k bytes' (Nat.lt_succ_of_lt hk)
        exact hbefore.of_kept
          (Disk.node_staged_assign_of_ne (Nat.ne_of_lt hk) _ d'.newFile)
          (Disk.kept_withNew _ _ d')

theorem safe_syncStaging (hd : Resting lossy faults n O d) :
    (machine faults).Safe (Resting lossy faults n O)
      (Yields (fun _ t => (∀ k, t.node (.staged k) = d.node (.staged k)) ∧
        Kept d t) (fun _ _ => True))
      (syncDir .staging).run d := by
  cases hs : d.stagingIno with
  | none =>
      have hexec : perform (.syncDir .staging) d = (.error (.os .notFound), d) := by
        simp [perform, Disk.hasDir, hs]
      exact safe_prim hd hexec hd trivial fun _ _ => ⟨hd, trivial⟩
  | some s =>
      have hexec : perform (.syncDir .staging) d =
          (.ok (), d.syncDir .staging) := by
        simp [perform, Disk.hasDir, hs]
      have hcalm : Calm lossy d (d.syncDir .staging) := calm_syncDir .staging d
      have hsync : d.syncDir .staging = { d with staging := fun s' =>
          if s' = s then (d.staging s).sync else d.staging s' } := by
        simp [Disk.syncDir, Disk.onStaging, hs]
      refine safe_prim hd hexec (steady_resting hd hcalm) ⟨?_, hcalm.kept⟩
        fun _ _ => ⟨hd, trivial⟩
      intro k
      have hs' : (d.syncDir .staging).stagingIno = some s := by
        rw [hsync]
        exact hs
      simp only [Disk.node, hs, hs']
      rw [hsync]
      simp

/-! ## The journal -/

/-- A journal with the originals of these labels is there for sure. -/
structure Armed (codec : Codec) (lossy : Bool) (labels : List String)
    (O : Contents) (d : Disk) : Prop where
  undoable : Undoable codec lossy O d
  listed : ∀ W, d.work.Sees lossy W → ∃ i L, W.lookup .journal = some i ∧
    d.synced i = true ∧ codec.decodeJournal (d.data i) = .ok ⟨1, L⟩ ∧
      ∀ label ∈ labels, ∃ e ∈ L, e.1 = label

theorem Armed.of_calm {labels : List String} (h : Armed codec lossy labels O d)
    (hcalm : Calm lossy d d') : Armed codec lossy labels O d' where
  undoable := h.undoable.of_calm hcalm
  listed := by
    intro W' hW'
    obtain ⟨W, hW, hj, -⟩ := hcalm.work W' hW'
    obtain ⟨i, L, hi, hsynced, hdecodes, hlabels⟩ := h.listed W hW
    obtain ⟨hsynced', hdata'⟩ := hcalm.kept i hsynced
    exact ⟨i, L, hj.trans hi, hsynced', by rw [hdata', hdecodes], hlabels⟩

/-- Replacing a listed entry keeps the way back open. -/
theorem Armed.replace {labels : List String} (h : Armed codec lossy labels O d)
    {label : String} (hlabel : label ∈ labels) (i : Ino) :
    Armed codec lossy labels O
      { d with store := d.store.push [(label, some (.file i))] } := by
  have hkept : Kept d
      { d with store := d.store.push [(label, some (.file i))] } :=
    fun _ h => ⟨h, rfl⟩
  refine ⟨⟨?_, Or.inl ?_⟩, h.listed⟩
  · intro W hW j hj
    obtain ⟨hnone, L, hgood, hagrees⟩ := h.undoable.journals W hW j hj
    refine ⟨hnone, L, hgood.of_kept hkept, ?_⟩
    intro V hV
    rcases Dir.sees_push hV with hV | rfl
    · exact (hagrees V hV).of_kept hkept
    · have hview := (hagrees _ (Dir.sees_view lossy d.store)).of_kept hkept
      -- the label is one of the journal's, so the others are as before
      obtain ⟨j', L', hj', -, hdecodes', hlabels'⟩ := h.listed W hW
      have hL : L' = L := by
        have hjj : j' = j := Option.some.inj (hj'.symm.trans hj)
        rw [hjj, hgood.decodes] at hdecodes'
        simpa using hdecodes'.symm
      obtain ⟨e, he, rfl⟩ := hlabels' label hlabel
      constructor
      · intro other hother
        have hne : other ≠ e.1 := Ne.symm (hother e (hL ▸ he))
        simpa [hne] using hview.others other hother
      · intro e' he'
        by_cases hname : e'.1 = e.1
        · simp [hname]
        · simpa [hname] using hview.files e' he'
  · intro W hW hgone
    obtain ⟨j, L, hj, -⟩ := h.listed W hW
    have hgone : W.lookup .journal = none := hgone
    rw [hj] at hgone
    cases hgone

theorem Disk.node_staged_congr (hs : d'.stagingIno = d.stagingIno)
    (hstaging : d'.staging = d.staging) (k : ℕ) :
    d'.node (.staged k) = d.node (.staged k) := by
  simp only [Disk.node, hs, hstaging]

theorem shows_ne_dir {V : HashMap String Node} (h : Shows d V O)
    {label : String} {original : Option Bytes}
    (horiginal : O label = original.map .file) :
    V.lookup label ≠ some .dir := by
  intro hdir
  have hshows := (h label).1
  rw [hdir, horiginal] at hshows
  cases original <;> simp [Disk.content] at hshows

/-- A finished journal in place of a store at rest. -/
theorem AtRest.journal (h : AtRest lossy O d) {i : Ino}
    {originals : List (String × Option Bytes)}
    (hgood : GoodJournal codec d i originals O) :
    Undoable codec lossy O { d with
      work := d.work.push [(.journal, some i), (.journalNew, none)] } := by
  have hkept : Kept d { d with
      work := d.work.push [(.journal, some i), (.journalNew, none)] } :=
    fun _ h => ⟨h, rfl⟩
  refine ⟨?_, Or.inr fun V hV => (h.shown V hV).of_kept hkept⟩
  intro W hW j hj
  rcases Dir.sees_push hW with hW | rfl
  · have hnone : W.lookup .journal = none := (h.absent W hW).1
    rw [hnone] at hj
    cases hj
  · have hview := h.absent _ (Dir.sees_view lossy d.work)
    have hji : i = j := by simpa using hj
    subst hji
    refine ⟨by simpa using hview.2, originals, hgood.of_kept hkept, ?_⟩
    intro V hV
    have hshows := h.shown V hV
    exact AgreesOff.of_kept hkept
      ⟨fun label _ => hshows label,
        fun e he => shows_ne_dir hshows (hgood.originals e he)⟩

/-- Writing the journal, the last step before entries are replaced. -/
theorem safe_writeJournal
    (hcodec : ∀ j bytes, codec.encodeJournal j = .ok bytes →
      codec.decodeJournal bytes = .ok j)
    (hd : Resting lossy faults n O d) {files : List (String × Bytes)}
    {originals : List (String × Option Bytes)}
    (hlabels : ∀ e ∈ originals, validateLabel e.1 = .ok ())
    (horiginals : ∀ e ∈ originals, e.1 ≠ workDirName ∧ O e.1 = e.2.map .file)
    (hstaged : StagedFrom 0 files d) :
    (machine faults).Safe (Undoing codec lossy faults n O)
      (Yields (fun _ t => Armed codec lossy (originals.map Prod.fst) O t ∧
          (∀ V, t.store.Sees lossy V → Shows t V O) ∧ StagedFrom 0 files t)
        (fun _ _ => True))
      (writeJournal codec originals).run d := by
  have hundo : ∀ t, Resting lossy faults n O t →
      Undoing codec lossy faults n O t :=
    fun t ht => ⟨ht.1, ht.2.1.undoable⟩
  unfold writeJournal
  cases hencode : codec.encodeJournal ⟨1, originals⟩ with
  | error text => exact safe_throw (hundo d hd) trivial
  | ok bytes =>
      apply Safe.bindExcept
      refine safe_pure (hundo d hd) ?_
      apply Safe.bindExcept
      refine (safe_mapBackend (safe_writeNew steady_resting hd
        (.work .journalNew) bytes ⟨by decide, by decide⟩)
        fun _ _ _ _ => trivial).monoExcept hundo ?_ fun _ _ _ h => h
      rintro _ t₁ hnew ⟨-, rfl⟩
      have hsrc : (d.withNew (.work .journalNew) bytes).node
          (.work .journalNew) = some (.file d.nextIno) := by
        simp [Disk.node, Disk.withNew, Disk.syncFile, Disk.write, Disk.assign,
          Disk.newFile]
      have hgood : GoodJournal codec (d.withNew (.work .journalNew) bytes)
          d.nextIno originals O :=
        { synced := Disk.synced_withNew _ _ d
          decodes := by
            rw [Disk.data_withNew]
            exact hcodec _ _ hencode
          labels := fun e he => ⟨hlabels e he, (horiginals e he).1⟩
          originals := fun e he => (horiginals e he).2 }
      have hcalm : Calm lossy _ _ := calm_renames
        (show (Path.work .journalNew, Path.work .journal) ≠
          (.work .journal, .work .committed) by simp)
        (d.withNew (.work .journalNew) bytes)
      have hmoved := steady_resting hnew hcalm
      have hundoing : Undoing codec lossy faults n O
          ((d.withNew (.work .journalNew) bytes).move (.work .journalNew)
            (.work .journal) d.nextIno) :=
        ⟨⟨hmoved.1.workDir, hmoved.1.storeDir, hmoved.1.commits⟩,
          hmoved.2.1.journal (hgood.of_kept hcalm.kept)⟩
      apply Safe.bindExcept
      refine Safe.monoExcept (P := fun _ t => t =
          (d.withNew (.work .journalNew) bytes).move (.work .journalNew)
            (.work .journal) d.nextIno)
        (safe_mapBackend (safe_rename (hundo _ hnew) hsrc
          (Disk.node_work_ne_dir (by decide)) hnew.1.workDir
          hundoing rfl) fun _ _ _ _ => trivial)
        (fun _ h => h) ?_ fun _ _ _ h => h
      rintro _ t₂ ht rfl
      refine (safe_mapBackend (safe_syncDir steady_undoing ht .work
        ht.1.workDir) fun _ _ _ _ => trivial).monoExcept
        (fun _ h => h) ?_ fun _ _ _ h => h
      rintro _ t₃ hsynced rfl
      refine ⟨⟨hsynced.2, ?_⟩, ?_, ?_⟩
      · intro W hW
        have hview : W = _ := Dir.sees_sync hW
        refine ⟨d.nextIno, originals, ?_, hgood.synced, hgood.decodes, ?_⟩
        · rw [hview]
          simp [Disk.move]
        · intro label hlabel
          obtain ⟨e, he, rfl⟩ := List.mem_map.mp hlabel
          exact ⟨e, he, rfl⟩
      · exact hmoved.2.1.shown
      · refine hstaged.of_kept ?_ (Disk.kept_withNew _ _ d)
        intro k _
        apply Disk.node_staged_congr
        · simp [Disk.stagingIno, Disk.syncDir, Disk.move, Disk.withNew,
            Disk.syncFile, Disk.write, Disk.assign, Disk.newFile]
        · rfl

/-- The entries that are still to be replaced, as those to be restored. -/
def toReplace (files : List (String × Bytes)) : List (String × Option Bytes) :=
  files.map fun e => (e.1, some e.2)

/-- The files, staged from `index` on, are all that is missing from `N`. -/
structure Prepared (codec : Codec) (lossy : Bool) (labels : List String)
    (O N : Contents) (index : ℕ) (files : List (String × Bytes)) (d : Disk) :
    Prop where
  armed : Armed codec lossy labels O d
  listed : ∀ e ∈ files, e.1 ∈ labels ∧ e.1 ≠ workDirName
  bytes : ∀ e ∈ files, N e.1 = some (.file e.2)
  remaining : Remaining (toReplace files) N d
  staged : StagedFrom index files d

theorem overlay_of_mem {encoded : HashMap String Bytes} {e : String × Bytes}
    (he : e ∈ sortedEntries encoded) : overlay encoded O e.1 = some (.file e.2) := by
  have hlookup : encoded.lookup e.1 = some e.2 :=
    lookup_eq_some_iff.mpr (mem_sortedEntries.mp he)
  simp [overlay, hlookup]

theorem remaining_overlay {encoded : HashMap String Bytes}
    (hshows : Shows d d.store.view O)
    (hfiles : ∀ e ∈ sortedEntries encoded, d.store.view.lookup e.1 ≠ some .dir) :
    Remaining (toReplace (sortedEntries encoded)) (overlay encoded O) d where
  others := by
    intro label hlabel
    have hnone : encoded.lookup label = none := by
      rw [Option.eq_none_iff_forall_ne_some]
      intro bytes hbytes
      have hmem : (label, bytes) ∈ sortedEntries encoded :=
        mem_sortedEntries.mpr (lookup_eq_some_iff.mp hbytes)
      exact hlabel (label, some bytes) (List.mem_map_of_mem hmem) rfl
    simp only [overlay, hnone]
    exact hshows label
  files := by
    intro e he
    obtain ⟨e', he', rfl⟩ := List.mem_map.mp he
    exact hfiles e' he'

/-- Preparing a batch leaves the entries alone and arms the way back. -/
theorem safe_prepare
    (hcodec : ∀ j bytes, codec.encodeJournal j = .ok bytes →
      codec.decodeJournal bytes = .ok j)
    (hd : Resting lossy faults n O d) (entries : List EncryptedEntry) :
    (machine faults).Safe (Undoing codec lossy faults n O)
      (Yields (fun labels t => ∃ files, labels = files.map Prod.fst ∧
          Prepared codec lossy labels O (applyBatch codec entries O) 0 files t)
        (fun _ _ => True))
      (prepare codec entries).run d := by
  have hundo : ∀ t, Resting lossy faults n O t →
      Undoing codec lossy faults n O t :=
    fun t ht => ⟨ht.1, ht.2.1.undoable⟩
  apply Safe.bindExcept
  refine (safe_encodeEntries (O := O) hd entries
    (fun _ _ h => by cases h)).monoExcept hundo ?_ fun _ _ _ h => h
  rintro encoded d' hd ⟨rfl, hvalid, hoverlay⟩
  rw [overlay_empty] at hoverlay
  apply Safe.bindExcept
  refine (safe_mapBackend (safe_of_quiet steady_resting hd
    (quiet_createDirBelow .staging _)) fun _ _ _ _ => trivial).monoExcept
    hundo ?_ fun _ _ _ h => h
  intro _ t ht _
  apply Safe.bindExcept
  refine (safe_stage ht 0 (sortedEntries encoded)).monoExcept hundo ?_
    fun _ _ _ h => h
  rintro originals t ht ⟨hlabels, horiginals, hstaged, -⟩
  have hfiles : ∀ e ∈ sortedEntries encoded, ∃ e' ∈ originals, e'.1 = e.1 := by
    intro e he
    have hmem : e.1 ∈ originals.map Prod.fst := by
      rw [hlabels]
      exact List.mem_map_of_mem he
    simpa using hmem
  apply Safe.bindExcept
  refine (safe_mapBackend (safe_syncStaging ht)
    fun _ _ _ _ => trivial).monoExcept hundo ?_ fun _ _ _ h => h
  rintro _ t' ht' hstaging
  have hvalidLabels : ∀ e ∈ originals, validateLabel e.1 = .ok () := by
    intro e he
    have hmem : e.1 ∈ (sortedEntries encoded).map Prod.fst := by
      rw [← hlabels]
      exact List.mem_map_of_mem he
    obtain ⟨e', he', hname⟩ := List.mem_map.mp hmem
    rw [← hname]
    exact hvalid e'.1 e'.2 (lookup_eq_some_iff.mpr (mem_sortedEntries.mp he'))
  apply Safe.bindExcept
  refine (safe_writeJournal hcodec ht' hvalidLabels horiginals
    (hstaged.of_kept (fun k _ => hstaging.1 k) hstaging.2)).monoExcept
    (fun _ h => h) ?_ fun _ _ _ h => h
  rintro _ u hu ⟨harmed, hshows, hstaged⟩
  refine safe_pure hu ⟨sortedEntries encoded, hlabels, ?_⟩
  rw [← hoverlay]
  have hview := hshows _ (Dir.sees_view lossy u.store)
  refine ⟨harmed, ?_, fun e he => overlay_of_mem he, ?_, hstaged⟩
  · intro e he
    obtain ⟨e', he', hname⟩ := hfiles e he
    rw [← hname]
    exact ⟨List.mem_map_of_mem he', (horiginals e' he').1⟩
  · apply remaining_overlay hview
    intro e he
    obtain ⟨e', he', hname⟩ := hfiles e he
    rw [← hname]
    exact shows_ne_dir hview (horiginals e' he').2

/-! ## Replacing the entries -/

theorem Prepared.move {labels : List String} {index : ℕ} {label : String}
    {bytes : Bytes} {rest : List (String × Bytes)} {i : Ino}
    (h : Prepared codec lossy labels O N index ((label, bytes) :: rest) d)
    (hi : d.node (.staged index) = some (.file i)) :
    Prepared codec lossy labels O N (index + 1) rest
      (d.move (.staged index) (.entry label) i) := by
  have hrename : Calm lossy _ _ := calm_renames
    (show (Path.staged index, Path.entry label) ≠
      (.work .journal, .work .committed) by simp) d
  have hunlink : ∀ u : Disk, Calm lossy u (u.assign (.staged index) none) :=
    fun u => calm_onStaging _ u
  obtain ⟨i', hi', hsynced, hdata⟩ := h.staged.1
  obtain rfl : i' = i := by
    rw [hi] at hi'
    simpa using hi'.symm
  have hshows : ShowsAt d (some (.file i')) (N label) := by
    constructor
    · rw [h.bytes (label, bytes) List.mem_cons_self, ← hdata]
      rfl
    · intro j hj
      cases hj
      exact hsynced
  constructor
  · exact (((h.armed.of_calm hrename).replace
      (h.listed (label, bytes) List.mem_cons_self).1 i').of_calm (hunlink _))
  · exact fun e he => h.listed e (List.mem_cons_of_mem _ he)
  · exact fun e he => h.bytes e (List.mem_cons_of_mem _ he)
  · have hrenamed : Remaining (toReplace ((label, bytes) :: rest)) N _ :=
      steady_remaining h.remaining hrename
    exact steady_remaining
      (hrenamed.restore (hshows.of_kept hrename.kept) nofun) (hunlink _)
  · refine h.staged.2.of_kept ?_ fun j hj => ?_
    · intro k hk
      have hne : k ≠ index := by omega
      exact Disk.node_staged_assign_of_ne hne none _
    · simp [Disk.move, hj]

theorem Standing.assignEntry {label : String} {value : Option Ino}
    (h : Standing faults n d) :
    Standing faults n (d.assign (.entry label) value) :=
  ⟨h.workDir, h.storeDir, h.commits⟩

theorem Standing.move {index : ℕ} {label : String} {i : Ino}
    (h : Standing faults n d) :
    Standing faults n (d.move (.staged index) (.entry label) i) := by
  have hrename : Calm false _ _ := calm_renames
    (show (Path.staged index, Path.entry label) ≠
      (.work .journal, .work .committed) by simp) d
  have hunlink : ∀ u : Disk, Calm false u (u.assign (.staged index) none) :=
    fun u => calm_onStaging _ u
  exact (h.of_calm hrename).assignEntry.of_calm (hunlink _)

/-- Moving the staged entries into place, with the way back open all along. -/
theorem safe_replaceEntries (afterReplace : ℕ → Except IoError Unit)
    {labels : List String} {index : ℕ} {files : List (String × Bytes)}
    (hstanding : Standing faults n d)
    (hd : Prepared codec lossy labels O N index files d) :
    (machine faults).Safe (Undoing codec lossy faults n O)
      (Yields (fun _ t => Armed codec lossy labels O t ∧
          Shows t t.store.view N) (fun _ _ => True))
      (replaceEntries afterReplace index (files.map Prod.fst)).run d := by
  induction files generalizing index d with
  | nil =>
      exact safe_pure ⟨hstanding, hd.armed.undoable⟩
        ⟨hd.armed, fun label => hd.remaining.others label nofun⟩
  | cons e rest ih =>
      obtain ⟨label, bytes⟩ := e
      obtain ⟨i, hi, -⟩ := hd.staged.1
      have hmoved := hd.move hi
      have hlabel : label ≠ workDirName :=
        (hd.listed (label, bytes) List.mem_cons_self).2
      have hdst : d.node (.entry label) ≠ some .dir := by
        simpa [Disk.node, hlabel] using
          hd.remaining.files (label, some bytes) List.mem_cons_self
      have hstanding' : Standing faults n
          (d.move (.staged index) (.entry label) i) := hstanding.move
      apply Safe.bindExcept
      refine Safe.monoExcept (P := fun _ t => t =
          d.move (.staged index) (.entry label) i)
        (safe_rename ⟨hstanding, hd.armed.undoable⟩ hi hdst
          (fun hf => hstanding.storeDir hf)
          ⟨hstanding', hmoved.armed.undoable⟩ rfl)
        (fun _ h => h) ?_ fun _ _ _ _ => trivial
      rintro _ _ ht rfl
      cases hafter : afterReplace index with
      | error e => exact safe_throw ht trivial
      | ok _ => exact ih hstanding' hmoved

/-- The rename that commits the batch. -/
theorem Armed.commit {labels : List String} (h : Armed codec lossy labels O d)
    (hstanding : Standing faults n d)
    (hshown : ∀ V, d.store.Sees lossy V → Shows d V N) (i : Ino) :
    Cleaning codec lossy faults (n + 1) O N
      (d.move (.work .journal) (.work .committed) i) := by
  have hkept : Kept d (d.move (.work .journal) (.work .committed) i) :=
    fun _ h => ⟨h, rfl⟩
  refine ⟨⟨hstanding.workDir, hstanding.storeDir, ?_⟩, ?_, ?_, ?_, Or.inr ?_⟩
  · rw [← hstanding.commits]
    simp [Disk.commits, Disk.move]
  · intro W hW j hj
    rcases Dir.sees_push hW with hW | rfl
    · obtain ⟨hnone, L, hgood, hagrees⟩ := h.undoable.journals W hW j hj
      exact ⟨hnone, L, hgood.of_kept hkept,
        fun V hV => (hagrees V hV).of_kept hkept⟩
    · simp at hj
  · exact fun V hV => (hshown V hV).of_kept hkept
  · simp [NoJournal, Disk.move]
  · apply Dir.stays_push
    · apply Dir.stays_of_never
      intro W hW hgone
      obtain ⟨j, L, hj, -⟩ := h.listed W hW
      have hgone : W.lookup .journal = none := hgone
      rw [hj] at hgone
      cases hgone
    · intro _
      simp [NoJournal]

/-- The batch is under way: it can be undone, or it is committed. -/
def InFlight (codec : Codec) (lossy faults : Bool) (n : ℕ) (O N : Contents)
    (d : Disk) : Prop :=
  Undoing codec lossy faults n O d ∨ Cleaning codec lossy faults (n + 1) O N d

theorem safe_apply (afterReplace : ℕ → Except IoError Unit)
    {files : List (String × Bytes)} (hstanding : Standing faults n d)
    (hd : Prepared codec lossy (files.map Prod.fst) O N 0 files d) :
    (machine faults).Safe (InFlight codec lossy faults n O N)
      (Yields (fun _ t => Cleaning codec lossy faults (n + 1) O N t)
        (fun _ t => Undoing codec lossy faults n O t))
      (apply afterReplace (files.map Prod.fst)).run d := by
  apply Safe.bindExcept
  refine (safe_replaceEntries afterReplace hstanding hd).monoExcept
    (fun _ h => Or.inl h) ?_ fun _ _ h _ => h
  rintro _ t ht ⟨harmed, hshows⟩
  have hsteady : Steady lossy fun t => Standing faults n t ∧
      Armed codec lossy (files.map Prod.fst) O t :=
    fun _ _ h hcalm => ⟨h.1.of_calm hcalm, h.2.of_calm hcalm⟩
  apply Safe.bindExcept
  refine (safe_syncDir hsteady ⟨ht.1, harmed⟩ .store
    ht.1.storeDir).monoExcept (fun _ h => Or.inl ⟨h.1, h.2.undoable⟩) ?_
    fun _ _ h _ => ⟨h.1, h.2.undoable⟩
  rintro _ _ ⟨hstanding, harmed⟩ rfl
  have hall : ∀ V, (t.syncDir .store).store.Sees lossy V →
      Shows (t.syncDir .store) V N := by
    intro V hV
    have hview : V = t.store.view := Dir.sees_sync hV
    rw [hview]
    exact hshows
  obtain ⟨i, L, hi, -⟩ := harmed.listed _ (Dir.sees_view lossy _)
  have hsrc : (t.syncDir .store).node (.work .journal) = some (.file i) := by
    simp [Disk.node, hi]
  have hcommit := harmed.commit hstanding hall i
  have hundoing : Undoing codec lossy faults n O (t.syncDir .store) :=
    ⟨hstanding, harmed.undoable⟩
  have hdst : (t.syncDir .store).node (.work .committed) ≠ some .dir :=
    Disk.node_work_ne_dir (by decide)
  cases hparent : (t.syncDir .store).hasParent (.work .committed) with
  | true =>
      have hexec : perform (.rename (.work .journal) (.work .committed))
          (t.syncDir .store) = (.ok (),
            (t.syncDir .store).move (.work .journal) (.work .committed) i) := by
        simp [perform, hsrc, hdst, hparent]
      exact safe_prim (Or.inl hundoing) hexec (Or.inr hcommit) hcommit
        fun _ _ => ⟨Or.inl hundoing, hundoing⟩
  | false =>
      have hexec : perform (.rename (.work .journal) (.work .committed))
          (t.syncDir .store) = (.error (.os .notFound), t.syncDir .store) := by
        simp [perform, hsrc, hdst, hparent]
      exact safe_prim (Or.inl hundoing) hexec (Or.inl hundoing) hundoing
        fun _ _ => ⟨Or.inl hundoing, hundoing⟩

/-! ## The whole commit -/

/-- The states of a commit: it can be undone, it is committed, or the commit
record is safely on disk. -/
def Committing (codec : Codec) (lossy faults : Bool) (n : ℕ) (O N : Contents)
    (d : Disk) : Prop :=
  InFlight codec lossy faults n O N d ∨
    Cleaning codec lossy faults (n + 1) N N d

theorem safe_rollbackError (hd : Undoing codec lossy faults n O d)
    (error : Error) :
    (machine faults).Safe (Undoing codec lossy faults n O)
      (Yields (fun _ _ => False) (fun _ _ => True))
      (rollbackError codec error).run d := by
  apply Safe.bind
  refine (safe_recover hd).mono (fun _ h => h) ?_
  intro r t ht _
  cases r with
  | ok _ => exact safe_done ht trivial
  | error e => exact safe_done ht trivial

/-- Syncing the commit record makes the batch final. -/
theorem Cleaning.syncDir (h : Cleaning codec lossy faults n O N d) :
    Cleaning codec lossy faults n N N (d.syncDir .work) := by
  obtain ⟨hstanding, hcommitted⟩ := steady_cleaning h (calm_syncDir .work d)
  refine ⟨hstanding, ?_, hcommitted.shown, hcommitted.gone, Or.inl rfl⟩
  intro W hW i hi
  have hview : W = d.work.view := Dir.sees_sync hW
  rw [hview, h.2.gone] at hi
  cases hi

theorem safe_finishCommit (hd : Cleaning codec lossy faults (n + 1) O N d) :
    (machine faults).Safe (Committing codec lossy faults n O N)
      (Yields (fun _ t => Cleaning codec lossy faults (n + 1) N N t)
        (fun _ t => Cleaning codec lossy faults (n + 1) O N t))
      (finishCommit codec).run d := by
  apply Safe.bindExcept
  refine (safe_mapBackend (safe_syncDir steady_cleaning hd .work
    hd.1.workDir) fun _ _ h _ => h).monoExcept
    (fun _ h => Or.inl (Or.inr h)) ?_ fun _ _ _ h => h
  rintro _ _ _ rfl
  apply Safe.discardExcept
  apply Safe.liftExcept
  exact (safe_recover_of_committed hd.syncDir).mono (fun _ h => Or.inr h)
    fun _ _ h _ => h

theorem safe_commitBatch
    (hcodec : ∀ j bytes, codec.encodeJournal j = .ok bytes →
      codec.decodeJournal bytes = .ok j)
    (hd : Resting lossy faults n O d) (entries : List EncryptedEntry)
    (afterReplace : ℕ → Except IoError Unit) :
    (machine faults).Safe
      (Committing codec lossy faults n O (applyBatch codec entries O))
      (Yields
        (fun _ t => Cleaning codec lossy faults (n + 1)
          (applyBatch codec entries O) (applyBatch codec entries O) t)
        (fun _ t => InFlight codec lossy faults n O
          (applyBatch codec entries O) t))
      (commitBatch codec entries afterReplace).run d := by
  have hrollback : ∀ t error, Undoing codec lossy faults n O t →
      (machine faults).Safe
        (Committing codec lossy faults n O (applyBatch codec entries O))
        (Yields
          (fun _ t => Cleaning codec lossy faults (n + 1)
            (applyBatch codec entries O) (applyBatch codec entries O) t)
          (fun _ t => InFlight codec lossy faults n O
            (applyBatch codec entries O) t))
        (rollbackError codec error).run t := by
    intro t error ht
    exact (safe_rollbackError ht error).monoExcept
      (fun _ h => Or.inl (Or.inl h)) (fun _ _ _ h => h.elim)
      fun _ _ h _ => Or.inl h
  apply Safe.bind
  refine (safe_prepare hcodec hd entries).mono
    (fun _ h => Or.inl (Or.inl h)) ?_
  intro r t ht hr
  cases r with
  | error e => exact hrollback t e ht
  | ok labels =>
      obtain ⟨files, rfl, hprepared⟩ := hr
      apply Safe.bind
      refine (safe_apply afterReplace ht.1 hprepared).mono
        (fun _ h => Or.inl h) ?_
      intro r t _ hr
      cases r with
      | error e => exact hrollback t _ hr
      | ok _ =>
          exact (safe_finishCommit hr).monoExcept (fun _ h => h)
            (fun _ _ _ h => h) fun _ _ _ h => Or.inr h

end Connexa.Keystore.Filesystem
