import Connexa.Keystore.Filesystem.Crashes

/-!
# Accesses under input and output errors

Any number of accesses, each of whose primitives may fail.  Every access that
gets past recovery finds what the accesses before it made of the entries, and
that follows from what they reported.
-/

namespace Connexa.Keystore.Filesystem

open HashMap Machine

variable {codec : Codec} {n : ℕ} {d d' : Disk} {O N : Contents}

/-! ## Accesses -/

/-- The methods of `Keystore`. -/
inductive Call where
  | put (entry : EncryptedEntry)
  | putMany (entries : List EncryptedEntry)
  | get (label : String)
  | list
  | remove (label : String)

namespace Call

def Result : Call → Type
  | .put _ => Unit
  | .putMany _ => Unit
  | .get _ => Option EncryptedEntry
  | .list => List KeyMetadata
  | .remove _ => Bool

def program (codec : Codec) : (call : Call) → StoreM call.Result
  | .put entry => Filesystem.put codec entry
  | .putMany entries => Filesystem.putMany codec entries
  | .get label => Filesystem.get codec label
  | .list => Filesystem.list codec
  | .remove label => Filesystem.remove codec label

/-- The part before the operation. -/
def guard (codec : Codec) : Call → StoreM Bool
  | .put _ => passRecover codec true
  | .putMany entries => passRecover codec (!entries.isEmpty)
  | .list => passRecover codec false
  | .get label | .remove label =>
      match validateLabel label with
      | .error e => throw e
      | .ok () => passRecover codec false

/-- The result if there is no store. -/
def missing : (call : Call) → call.Result
  | .put _ => ()
  | .putMany _ => ()
  | .get _ => none
  | .list => []
  | .remove _ => false

/-- The part after recovery. -/
def operation (codec : Codec) : (call : Call) → StoreM call.Result
  | .put entry => commitBatch codec [entry] fun _ => .ok ()
  | .putMany entries =>
      if entries.isEmpty then (pure () : StoreM Unit)
      else commitBatch codec entries fun _ => .ok ()
  | .get label => getEntry codec label
  | .list => listEntries codec
  | .remove label => removeEntry label

theorem program_eq (call : Call) :
    call.program codec = (do
      if ← call.guard codec then call.operation codec
      else return call.missing) := by
  cases call with
  | put entry => rfl
  | putMany entries =>
      cases entries with
      | nil => rfl
      | cons e rest => rfl
  | list => rfl
  | get label =>
      simp only [program, Filesystem.get, guard]
      cases validateLabel label <;> rfl
  | remove label =>
      simp only [program, Filesystem.remove, guard]
      cases validateLabel label <;> rfl

end Call

/-- A run of an access from `d` to `d'`.  If it gets past recovery, its
operation starts on the disk `entered`. -/
inductive Access (codec : Codec) (call : Call) :
    Disk → Option Disk → Except Error call.Result → Disk → Prop where
  | past {d u d' : Disk} {r : Except Error call.Result}
      (hguard : (machine true).Finishes (call.guard codec).run d (.ok true) u)
      (hoperation : (machine true).Finishes (call.operation codec).run u r d') :
      Access codec call d (some u) r d'
  | missing {d d' : Disk}
      (hguard : (machine true).Finishes (call.guard codec).run d (.ok false) d') :
      Access codec call d none (.ok call.missing) d'
  | refused {d d' : Disk} {e : Error}
      (hguard : (machine true).Finishes (call.guard codec).run d (.error e) d') :
      Access codec call d none (.error e) d'

/-- The runs of a method are its accesses. -/
theorem finishes_program_iff {call : Call} {r : Except Error call.Result} :
    (machine true).Finishes (call.program codec).run d r d' ↔
      ∃ entered, Access codec call d entered r d' := by
  rw [Call.program_eq, finishes_bindExcept]
  constructor
  · rintro (⟨b, u, hguard, hrest⟩ | ⟨e, rfl, hguard⟩)
    · cases b with
      | true => exact ⟨some u, .past hguard hrest⟩
      | false =>
          cases hrest
          exact ⟨none, .missing hguard⟩
    · exact ⟨none, .refused hguard⟩
  · rintro ⟨entered, haccess⟩
    cases haccess with
    | past hguard hoperation => exact Or.inl ⟨true, _, hguard, hoperation⟩
    | missing hguard => exact Or.inl ⟨false, d', hguard, .done _ _⟩
    | refused hguard => exact Or.inr ⟨_, rfl, hguard⟩

/-! ## Histories -/

/-- What is recorded of an access. -/
structure Observation where
  call : Call
  /-- The disk on which the operation ran, if the access got past recovery. -/
  entered : Option Disk
  ok : Bool
  after : Disk

/-- Accesses one after the other. -/
inductive History (codec : Codec) : Disk → List Observation → Disk → Prop where
  | nil (d : Disk) : History codec d [] d
  | cons {call : Call} {d d' d'' : Disk} {entered : Option Disk}
      {r : Except Error call.Result} {observations : List Observation}
      (haccess : Access codec call d entered r d')
      (hrest : History codec d' observations d'') :
      History codec d (⟨call, entered, r.isOk, d'⟩ :: observations) d''

/-- The contents without the entry of the label. -/
def eraseLabel (label : String) (O : Contents) : Contents :=
  fun other => if other = label then none else O other

/-- What an operation that ran on `O` may leave behind.  A failed batch counts
only if its journal was renamed to the commit record. -/
def Call.Leads (codec : Codec) (call : Call) (ok : Bool) (renamed : Prop)
    (O O' : Contents) : Prop :=
  match call with
  | .put entry =>
      if ok then O' = applyBatch codec [entry] O
      else O' = O ∨ renamed ∧ O' = applyBatch codec [entry] O
  | .putMany entries =>
      if ok then O' = applyBatch codec entries O
      else O' = O ∨ renamed ∧ O' = applyBatch codec entries O
  | .get _ => O' = O
  | .list => O' = O
  | .remove label =>
      if ok then O' = eraseLabel label O
      else O' = O ∨ O' = eraseLabel label O

/-- Starting from the contents `O`, each access that gets past recovery runs on
what the ones before it left behind, and is right when it reports success. -/
def Explained (codec : Codec) : Contents → List Observation → Prop
  | _, [] => True
  | O, o :: rest =>
      match o.entered with
      | none => Explained codec O rest
      | some u =>
          u.live = O ∧
            ∃ O', o.call.Leads codec o.ok (u.commits < o.after.commits) O O' ∧
              (o.ok = true → o.after.live = O') ∧ Explained codec O' rest

/-! ## Before the operation -/

@[simp] theorem Disk.workDir_assign (path : Path) (value : Option Ino)
    (d : Disk) : (d.assign path value).workDir = d.workDir := by
  cases path with
  | entry label => rfl
  | work name => rfl
  | staged index =>
      simp only [Disk.assign]
      rw [Disk.onStaging_eq]

theorem Disk.workDir_move (src dst : Path) (i : Ino) (d : Disk) :
    (d.move src dst i).workDir = d.workDir := by
  unfold Disk.move
  split
  · rfl
  · rfl
  · rw [Disk.onStaging_eq]
  · simp

/-- Nothing removes `.tmp`. -/
theorem exec_workDir (o : Op) (c : Option Fault) (h : d.workDir = true) :
    (exec o c d).2.workDir = true := by
  by_cases hquiet : o.Quiet d
  · have hcalm : Calm false d (exec o c d).2 := calm_exec hquiet c
    exact hcalm.workDir h
  · cases c with
    | some f =>
        cases o <;> exact h
    | none =>
        simp only [exec]
        cases o with
        | createNew path =>
            simp only [perform]
            split_ifs
            · exact h
            · rw [Disk.workDir_assign]
              exact h
            · exact h
        | writeAll ino bytes => exact h
        | rename src dst =>
            simp only [perform]
            split
            · exact h
            · exact h
            · split_ifs
              · exact h
              · rw [Disk.workDir_move]
                exact h
              · exact h
        | removeFile path =>
            simp only [perform]
            split
            · exact h
            · exact h
            · rw [Disk.workDir_assign]
              exact h
        | _ => exact absurd trivial hquiet

theorem safe_workDir {α : Type} (p : Prog Op Reply α) (h : d.workDir = true) :
    (machine true).Safe (fun t => t.workDir = true) (fun _ _ => True) p d := by
  have hcalls : p.Calls fun _ => True := by
    induction p with
    | done a => trivial
    | call o k ih => exact ⟨trivial, ih⟩
  refine safe_of_calls ?_ hcalls h
  rintro o t r t' - ht ⟨c, -, hexec⟩
  have hwork := exec_workDir o c ht
  rwa [show exec o c t = _ from hexec] at hwork

theorem calls_mapBackend {α : Type} {x : Io α} {P : Op → Prop}
    (h : x.run.Calls P) : (mapBackend x).run.Calls P := by
  refine Prog.Calls.bind h ?_
  intro r
  cases r <;> trivial

section Lock

variable {I : Disk → Prop}

theorem safe_isDir_work (hd : I d) :
    (machine true).Safe I (fun b t => t = d ∧ (b = true → d.workDir = true))
      (Prog.op (Op.isDir .work)) d := by
  have hexec : perform (.isDir .work) d = (d.workDir, d) := rfl
  exact safe_prim hd hexec hd ⟨rfl, fun h => h⟩
    fun _ _ => ⟨hd, rfl, fun h => by cases h⟩

theorem safe_buildDir_work (hI : Steady false I) (hd : I d) :
    (machine true).Safe I
      (Yields (fun _ t => t.workDir = true) (fun _ _ => True))
      (buildDir .work).run d := by
  have hcheck : ∀ (t : Disk) (e : IoError), I t → (machine true).Safe I
      (Yields (fun (_ : Unit) t => t.workDir = true) (fun _ _ => True))
      (if e.kind = .alreadyExists then do
        if ← Prog.op (Op.isDir .work) then return .ok () else return .error e
      else return .error e) t := by
    intro t e ht
    split
    · apply Safe.bind
      refine (safe_isDir_work ht).mono (fun _ h => h) ?_
      rintro b _ hI ⟨rfl, hb⟩
      cases b with
      | true => exact safe_done hI (hb rfl)
      | false => exact safe_done hI trivial
    · exact safe_done ht trivial
  apply Safe.bind
  cases hhas : d.workDir with
  | true =>
      have hexec : perform (.createDir .work) d =
          (.error (.os .alreadyExists), d) := by
        simp [perform, Disk.hasDir, hhas]
      exact safe_prim hd hexec hd (hcheck d _ hd)
        fun _ _ => ⟨hd, hcheck d _ hd⟩
  | false =>
      cases hparent : d.storeDir with
      | true =>
          have hexec : perform (.createDir .work) d =
              (.ok (), d.makeDir .work) := by
            simp [perform, Disk.hasDir, hhas, hparent, DirName.ancestors]
          have hmade : I (d.makeDir .work) := hI hd (calm_makeDir .work d)
          exact safe_prim hd hexec hmade (safe_done hmade rfl)
            fun _ _ => ⟨hd, hcheck d _ hd⟩
      | false =>
          have hexec : perform (.createDir .work) d =
              (.error (.os .notFound), d) := by
            simp [perform, Disk.hasDir, hhas, hparent, DirName.ancestors]
          exact safe_prim hd hexec hd (hcheck d _ hd)
            fun _ _ => ⟨hd, hcheck d _ hd⟩

/-- After the lock is taken, `.tmp` is there. -/
theorem safe_lock (hI : Steady false I) (hd : I d) :
    (machine true).Safe I
      (Yields (fun _ t => t.workDir = true) (fun _ _ => True)) lock.run d := by
  have hsteady : Steady false fun t => I t ∧ t.workDir = true :=
    hI.and fun _ _ h hcalm => hcalm.workDir h
  have hcreate : (machine true).Safe I
      (Yields (fun _ t => t.workDir = true) (fun _ _ => True))
      (createDir .work).run d := by
    apply Safe.bindExcept
    apply Safe.liftExcept
    refine (safe_isDir_work hd).mono (fun _ h => h) ?_
    rintro b _ hd ⟨rfl, hb⟩
    cases b with
    | true => exact safe_pure hd (hb rfl)
    | false =>
        apply Safe.bindExcept
        refine (safe_of_quiet hI hd (quiet_createDirBelow .store _)).monoExcept
          (fun _ h => h) ?_ fun _ _ _ h => h
        intro _ t ht _
        apply Safe.bindExcept
        refine (safe_buildDir_work hI ht).monoExcept (fun _ h => h) ?_
          fun _ _ _ h => h
        intro _ t ht hwork
        exact (safe_of_quiet hsteady ⟨ht, hwork⟩
          (Prog.Calls.bindExcept (calls_syncDir .work)
            fun _ => calls_syncDir .store)).monoExcept
          (fun _ h => h.1) (fun _ _ h _ => h.2) fun _ _ _ _ => trivial
  apply Safe.bindExcept
  refine (safe_mapBackend hcreate fun _ _ _ _ => trivial).monoExcept
    (fun _ h => h) ?_ fun _ _ _ h => h
  intro _ t ht hwork
  have hopen : (do
      mapBackend (ExceptT.mk (Prog.op Op.openLock) : Io Unit)
      mapBackend (ExceptT.mk (Prog.op Op.lockFile) : Io Unit) :
      StoreM Unit).run.Calls Op.AlwaysQuiet :=
    Prog.Calls.bindExcept (calls_mapBackend (Prog.calls_op fun _ => trivial))
      fun _ => calls_mapBackend (Prog.calls_op fun _ => trivial)
  exact (safe_of_quiet hsteady ⟨ht, hwork⟩ hopen).monoExcept
    (fun _ h => h.1) (fun _ _ h _ => h.2) fun _ _ _ _ => trivial

end Lock

/-- Getting past recovery means that the entries are `O` and nothing is under
way. -/
theorem safe_passRecover (hd : Undoing codec false true n O d) (create : Bool) :
    (machine true).Safe (Undoing codec false true n O)
      (Yields (fun b t => b = true → Resting false true n O t)
        (fun _ _ => True))
      (passRecover codec create).run d := by
  have henter : ∀ t, Undoing codec false true n O t →
      (machine true).Safe (Undoing codec false true n O)
        (Yields (fun b t => b = true → Resting false true n O t)
          (fun _ _ => True))
        (do
          lock
          mapBackend (recover codec)
          return true : StoreM Bool).run t := by
    intro t ht
    apply Safe.bindExcept
    refine (safe_lock steady_undoing ht).monoExcept (fun _ h => h) ?_
      fun _ _ _ h => h
    intro _ t ht hwork
    have hrecover := (safe_recover ht).and (safe_workDir (recover codec).run hwork)
    apply Safe.bindExcept
    apply Safe.bind
    refine hrecover.mono (fun _ h => h.1) ?_
    rintro r t ⟨ht, hwork⟩ ⟨hr, -⟩
    cases r with
    | error e => exact safe_done ht trivial
    | ok _ => exact ⟨ht, ht, fun _ => ⟨ht.1, hr, hwork⟩⟩
  cases create with
  | true => exact henter d hd
  | false =>
      apply Safe.bindExcept
      have hexists : (machine true).Safe (Undoing codec false true n O)
          (Yields (fun _ t => t = d) (fun _ _ => True))
          (ExceptT.mk (Prog.op Op.storeExists) : Io Bool).run d :=
        safe_prim hd rfl hd rfl fun _ _ => ⟨hd, trivial⟩
      refine (safe_mapBackend hexists fun _ _ _ _ => trivial).monoExcept
        (fun _ h => h) ?_ fun _ _ _ h => h
      rintro b t ht -
      cases b with
      | true => exact henter t ht
      | false => exact safe_pure ht fun h => by cases h

theorem safe_guard (hd : Undoing codec false true n O d) (call : Call) :
    (machine true).Safe (Undoing codec false true n O)
      (Yields (fun b t => b = true → Resting false true n O t)
        (fun _ _ => True))
      (call.guard codec).run d := by
  cases call with
  | put entry => exact safe_passRecover hd true
  | putMany entries => exact safe_passRecover hd _
  | list => exact safe_passRecover hd false
  | get label =>
      simp only [Call.guard]
      cases validateLabel label with
      | error e => exact safe_throw hd trivial
      | ok _ => exact safe_passRecover hd false
  | remove label =>
      simp only [Call.guard]
      cases validateLabel label with
      | error e => exact safe_throw hd trivial
      | ok _ => exact safe_passRecover hd false

/-! ## Operations -/

section Calls

variable {P : Op → Prop}

theorem calls_codecResult {α : Type} (r : Except String α) :
    (codecResult r).run.Calls P := by
  cases r <;> trivial

theorem calls_readOriginal {label : String} (h : P (.read (.entry label))) :
    (readOriginal label).run.Calls P := by
  refine Prog.Calls.bind (Prog.calls_op h) ?_
  intro r
  cases r <;> trivial

theorem calls_getEntry {label : String} (h : P (.read (.entry label))) :
    (getEntry codec label).run.Calls P := by
  refine Prog.Calls.bindExcept (calls_readOriginal h) ?_
  intro old
  cases old with
  | none => trivial
  | some bytes =>
      exact Prog.Calls.bindExcept (calls_codecResult _) fun _ => trivial

theorem calls_listNames (h : ∀ name, P (.read (.entry name)))
    (names : List (String × Bool)) : (listNames codec names).run.Calls P := by
  induction names with
  | nil => trivial
  | cons e rest ih =>
      obtain ⟨name, isFile⟩ := e
      cases isFile with
      | false =>
          by_cases hname : name = workDirName
          · simpa [listNames, hname] using ih
          · simp only [listNames, if_neg hname]
            trivial
      | true =>
          simp only [listNames]
          refine Prog.Calls.bindExcept (calls_mapBackend (Prog.calls_op (h name)))
            fun bytes => ?_
          refine Prog.Calls.bindExcept (calls_codecResult _) fun decoded => ?_
          by_cases hlabel : name ≠ decoded.metadata.label
          · rw [if_pos hlabel]
            trivial
          · rw [if_neg hlabel]
            exact Prog.Calls.bindExcept ih fun _ => trivial

theorem calls_listEntries (hstore : P .readStore)
    (h : ∀ name, P (.read (.entry name))) :
    (listEntries codec).run.Calls P :=
  Prog.Calls.bindExcept (calls_mapBackend (Prog.calls_op hstore))
    (calls_listNames h)

end Calls

theorem eraseLabel_eq_self {label : String} (h : O label = none) :
    eraseLabel label O = O := by
  funext other
  by_cases hother : other = label
  · simp [eraseLabel, hother, h]
  · simp [eraseLabel, hother]

theorem AtRest.erase (h : AtRest false O d) (label : String) :
    AtRest false (eraseLabel label O) (d.assign (.entry label) none) where
  shown := by
    intro V hV
    have hview : V = Dir.applyUpdate d.store.view [(label, none)] := by
      rw [← Dir.view_push]
      exact hV
    rw [hview]
    intro other
    have hkept : Kept d (d.assign (.entry label) none) := fun _ h => ⟨h, rfl⟩
    by_cases hother : other = label
    · subst hother
      simp [eraseLabel, ShowsAt]
    · simpa [eraseLabel, hother] using
        (h.shown _ (Dir.sees_view false d.store) other).of_kept hkept
  absent := h.absent

/-- Removing an entry changes that entry or nothing. -/
theorem safe_removeEntry (hd : AtRest false O d) (hwork : d.workDir = true)
    (label : String) :
    (machine true).Safe
      (fun t => AtRest false O t ∨ AtRest false (eraseLabel label O) t)
      (Yields (fun _ t => AtRest false (eraseLabel label O) t) (fun _ _ => True))
      (removeEntry label).run d := by
  have hsteady : ∀ O : Contents, Steady false (AtRest false O) :=
    fun _ _ _ h hcalm => h.of_calm hcalm
  have hremove : (machine true).Safe
      (fun t => AtRest false O t ∨ AtRest false (eraseLabel label O) t)
      (Yields (fun _ t => AtRest false (eraseLabel label O) t) (fun _ _ => True))
      (removeFile (.entry label)).run d := by
    apply Safe.bind
    have hfault : ∀ f : Fault,
        Yields (fun (_ : Bool) t => AtRest false (eraseLabel label O) t)
          (fun _ _ => True)
          (if f.kind = .notFound then .ok false
            else .error (IoError.os f.kind)) d := by
      intro f
      rw [if_neg f.real]
      trivial
    cases hnode : d.node (.entry label) with
    | none =>
        have hexec : perform (.removeFile (.entry label)) d =
            (.error (.os .notFound), d) := by
          simp [perform, hnode]
        have hlabel : label ≠ workDirName := by
          rintro rfl
          simp [Disk.node, hwork] at hnode
        have hnone : O label = none := by
          have hshows := hd.shown _ (Dir.sees_view false d.store) label
          rw [Disk.node, if_neg hlabel] at hnode
          rw [hnode] at hshows
          exact hshows.1
        have herase : AtRest false (eraseLabel label O) d := by
          rwa [eraseLabel_eq_self hnone]
        exact safe_prim (Or.inl hd) hexec (Or.inl hd) ⟨Or.inl hd, herase⟩
          fun f _ => ⟨Or.inl hd, Or.inl hd, hfault f⟩
    | some node =>
        cases node with
        | dir =>
            have hexec : perform (.removeFile (.entry label)) d =
                (.error (.os .isADirectory), d) := by
              simp [perform, hnode]
            exact safe_prim (Or.inl hd) hexec (Or.inl hd)
              ⟨Or.inl hd, trivial⟩
              fun f _ => ⟨Or.inl hd, Or.inl hd, hfault f⟩
        | file i =>
            have hexec : perform (.removeFile (.entry label)) d =
                (.ok (), d.assign (.entry label) none) := by
              simp [perform, hnode]
            have herase := hd.erase label
            exact safe_prim (Or.inl hd) hexec (Or.inr herase)
              ⟨Or.inr herase, herase⟩
              fun f _ => ⟨Or.inl hd, Or.inl hd, hfault f⟩
  apply Safe.bindExcept
  refine (safe_mapBackend hremove fun _ _ _ _ => trivial).monoExcept
    (fun _ h => h) ?_ fun _ _ _ h => h
  intro removed t _ ht
  apply Safe.bindExcept
  refine (safe_mapBackend (safe_of_quiet (hsteady _) ht
    (calls_syncDir .store)) fun _ _ _ _ => trivial).monoExcept
    (fun _ h => Or.inr h) ?_ fun _ _ _ h => h
  intro _ t ht _
  exact safe_pure (Or.inr ht) ht

/-- What a disk is like at any point of an access. -/
def Guarded (codec : Codec) (d : Disk) : Prop :=
  ∃ O, Undoable codec false O d

theorem Undoing.guarded (h : Undoing codec false true n O d) :
    Guarded codec d :=
  ⟨O, h.2⟩

theorem Committing.guarded (h : Committing codec false true n O N d) :
    Guarded codec d := by
  rcases h with (hundo | hclean) | hclean
  · exact hundo.guarded
  · exact ⟨N, hclean.2.undoable_of_not_lossy⟩
  · exact hclean.undoing.guarded

/-- What an operation leaves behind, by its result. -/
def Call.Post (codec : Codec) (call : Call) (n : ℕ) (O : Contents) (ok : Bool)
    (t : Disk) : Prop :=
  ∃ O', call.Leads codec ok (n < t.commits) O O' ∧
    Undoable codec false O' t ∧ (ok = true → t.live = O')

/-- The operation of a batch. -/
theorem safe_batch
    (hcodec : ∀ j bytes, codec.encodeJournal j = .ok bytes →
      codec.decodeJournal bytes = .ok j)
    (hd : Resting false true n O d) (entries : List EncryptedEntry) :
    (machine true).Safe (Guarded codec)
      (fun r t => (Call.putMany entries).Post codec n O r.isOk t)
      (commitBatch codec entries fun _ => .ok ()).run d := by
  refine (safe_commitBatch hcodec hd entries _).mono (fun _ h => h.guarded) ?_
  intro r t _ hr
  cases r with
  | ok _ =>
      have hclean : Cleaning codec false true (n + 1) _ _ t := hr
      exact ⟨applyBatch codec entries O, rfl, hclean.2.undoable,
        fun _ => hclean.2.live_eq⟩
  | error e =>
      have hflight : InFlight codec false true n O _ t := hr
      rcases hflight with hundo | hclean
      · exact ⟨O, Or.inl rfl, hundo.2, nofun⟩
      · refine ⟨applyBatch codec entries O, Or.inr ⟨?_, rfl⟩,
          hclean.2.undoable_of_not_lossy, nofun⟩
        rw [hclean.1.commits]
        exact Nat.lt_succ_self n

/-- An operation that only reads. -/
theorem safe_readOnly (call : Call) (hd : Resting false true n O d)
    (hleads : ∀ ok p, call.Leads codec ok p O O) {α : Type} {x : StoreM α}
    (hx : x.run.Calls Op.AlwaysQuiet) :
    (machine true).Safe (Guarded codec)
      (fun r t => call.Post codec n O r.isOk t) x.run d := by
  refine (safe_of_quiet steady_resting hd hx).mono
    (fun _ h => ⟨O, h.2.1.undoable⟩) ?_
  intro r t ht _
  exact ⟨O, hleads _ _, ht.2.1.undoable, fun _ => ht.2.1.live_eq⟩

theorem safe_operation
    (hcodec : ∀ j bytes, codec.encodeJournal j = .ok bytes →
      codec.decodeJournal bytes = .ok j)
    (hd : Resting false true n O d) (call : Call) :
    (machine true).Safe (Guarded codec)
      (fun r t => call.Post codec n O r.isOk t) (call.operation codec).run d := by
  cases call with
  | put entry => exact safe_batch hcodec hd [entry]
  | putMany entries =>
      cases entries with
      | nil =>
          refine safe_readOnly (.putMany []) hd ?_
            (x := (pure () : StoreM Unit)) trivial
          intro ok p
          cases ok <;> simp [Call.Leads, applyBatch]
      | cons e rest => exact safe_batch hcodec hd (e :: rest)
  | get label =>
      exact safe_readOnly (.get label) hd (fun _ _ => rfl)
        (calls_getEntry fun _ => trivial)
  | list =>
      exact safe_readOnly .list hd (fun _ _ => rfl)
        (calls_listEntries (fun _ => trivial) fun _ _ => trivial)
  | remove label =>
      refine (safe_removeEntry hd.2.1 hd.2.2 label).mono ?_ ?_
      · rintro t (hrest | herased)
        · exact ⟨O, hrest.undoable⟩
        · exact ⟨_, herased.undoable⟩
      · intro r t ht hr
        cases r with
        | ok removed =>
            have herased : AtRest false (eraseLabel label O) t := hr
            exact ⟨_, rfl, herased.undoable, fun _ => herased.live_eq⟩
        | error e =>
            rcases ht with hrest | herased
            · exact ⟨O, Or.inl rfl, hrest.undoable, nofun⟩
            · exact ⟨_, Or.inr rfl, herased.undoable, nofun⟩

/-! ## Whole histories -/

theorem Undoable.undoing (h : Undoable codec false O d) :
    Undoing codec false true d.commits O d :=
  ⟨⟨nofun, nofun, rfl⟩, h⟩

/-- An access leads from contents to contents. -/
theorem access_leads
    (hcodec : ∀ j bytes, codec.encodeJournal j = .ok bytes →
      codec.decodeJournal bytes = .ok j)
    (hd : Undoable codec false O d) {call : Call} {entered : Option Disk}
    {r : Except Error call.Result} (haccess : Access codec call d entered r d') :
    match entered with
    | none => Undoable codec false O d'
    | some u => u.live = O ∧ call.Post codec u.commits O r.isOk d' := by
  cases haccess with
  | past hguard hoperation =>
      obtain ⟨-, hresting⟩ := (safe_guard hd.undoing call).finishes hguard
      have hu := hresting rfl
      have hpost := ((safe_operation hcodec hu call).finishes hoperation).2
      refine ⟨hu.2.1.live_eq, ?_⟩
      rw [hu.1.commits]
      exact hpost
  | missing hguard =>
      exact ((safe_guard hd.undoing call).finishes hguard).1.2
  | refused hguard =>
      exact ((safe_guard hd.undoing call).finishes hguard).1.2

theorem explained_of_history
    (hcodec : ∀ j bytes, codec.encodeJournal j = .ok bytes →
      codec.decodeJournal bytes = .ok j)
    {observations : List Observation}
    (hhistory : History codec d observations d')
    (hd : Undoable codec false O d) :
    Explained codec O observations ∧ Guarded codec d' := by
  induction hhistory generalizing O with
  | nil d => exact ⟨trivial, O, hd⟩
  | @cons call d d' d'' entered r observations haccess hrest ih =>
      have hleads := access_leads hcodec hd haccess
      cases entered with
      | none => exact ih hleads
      | some u =>
          obtain ⟨hlive, O', hO', hundo, hok⟩ := hleads
          obtain ⟨hexplained, hguarded⟩ := ih hundo
          exact ⟨⟨hlive, O', hO', hok, hexplained⟩, hguarded⟩

/-- Every visited state of an access is guarded. -/
theorem Guarded.visits
    (hcodec : ∀ j bytes, codec.encodeJournal j = .ok bytes →
      codec.decodeJournal bytes = .ok j)
    (hd : Guarded codec d) {call : Call} {t : Disk}
    (hvisits : (machine true).Visits (call.program codec).run d t) :
    Guarded codec t := by
  obtain ⟨O, hd⟩ := hd
  have hsafe : (machine true).Safe (Guarded codec) (fun _ _ => True)
      (call.program codec).run d := by
    rw [Call.program_eq]
    apply Safe.bind
    refine (safe_guard hd.undoing call).mono (fun _ h => h.guarded) ?_
    intro r t ht hr
    cases r with
    | error e => exact safe_done ht.guarded trivial
    | ok b =>
        cases b with
        | false => exact safe_done ht.guarded trivial
        | true =>
            exact (safe_operation hcodec (hr rfl) call).mono (fun _ h => h)
              fun _ _ _ _ => trivial
  exact hsafe.visits hvisits

theorem Guarded.not_both (h : Guarded codec d) :
    ¬((d.work.view.lookup .journal).isSome = true ∧
      (d.work.view.lookup .committed).isSome = true) := by
  rintro ⟨hjournal, hcommitted⟩
  obtain ⟨O, hundo⟩ := h
  obtain ⟨i, hi⟩ := Option.isSome_iff_exists.mp hjournal
  obtain ⟨hnone, -⟩ := hundo.journals _ (Dir.sees_view false d.work) i hi
  rw [hnone] at hcommitted
  cases hcommitted

theorem Guarded.recover_ne_conflicting (h : Guarded codec d)
    {r : Except IoError Unit}
    (hfinishes : (machine true).Finishes (recover codec).run d r d') :
    r ≠ .error conflictingJournals := by
  obtain ⟨O, hundo⟩ := h
  have hr := ((safe_recover hundo.undoing).finishes hfinishes).2
  rintro rfl
  exact hr.2 rfl

/-- The store reports the truth under input and output errors.  In every
history of accesses from a store at rest, each access that gets past recovery
runs on what the accesses before it left behind: all of a batch that was
reported stored, nothing of one that failed, or all of it if its journal had
become the commit record.  The journal and the commit record are never both
there, and recovery never complains that they are. -/
theorem accesses_report_the_truth
    (hcodec : ∀ j bytes, codec.encodeJournal j = .ok bytes →
      codec.decodeJournal bytes = .ok j)
    (hd : AtRest false d.live d) {observations : List Observation}
    (hhistory : History codec d observations d') :
    Explained codec d.live observations ∧
    ∀ (call : Call) (t : Disk),
      (machine true).Visits (call.program codec).run d' t →
      ¬((t.work.view.lookup .journal).isSome = true ∧
        (t.work.view.lookup .committed).isSome = true) ∧
      ∀ r u, (machine true).Finishes (recover codec).run t r u →
        r ≠ .error conflictingJournals := by
  obtain ⟨hexplained, hguarded⟩ :=
    explained_of_history hcodec hhistory hd.undoable
  refine ⟨hexplained, ?_⟩
  intro call t hvisits
  have ht := hguarded.visits hcodec hvisits
  exact ⟨ht.not_both, fun r u hfinishes => ht.recover_ne_conflicting hfinishes⟩

/-- A schedule for the first batch on an empty store: only the flush of the
commit record fails. -/
def flushFails : List (Option Fault) :=
  List.replicate 29 none ++ [some ⟨.other, 0, by decide⟩]

/-- The first access of the sample history. -/
def sampleAccess : Except Error Unit × Disk :=
  (files true).run ((Call.put sampleEntry).program sampleCodec).run
    flushFails none emptyStore

/-- The second access of the sample history. -/
def sampleRead : Except Error (Option EncryptedEntry) × Disk :=
  (files true).run ((Call.get "a").program sampleCodec).run [] none
    sampleAccess.2

/-- The first access fails after its batch was committed, and the second one
reads the entry. -/
theorem accesses_report_the_truth_flushFails :
    sampleAccess.1.isOk = false ∧ sampleAccess.2.commits = 1 ∧
      ∃ entered entered',
        History sampleCodec emptyStore
          [⟨.put sampleEntry, entered, false, sampleAccess.2⟩,
            ⟨.get "a", entered', sampleRead.1.isOk, sampleRead.2⟩]
          sampleRead.2 ∧
        Explained sampleCodec emptyStore.live
          [⟨.put sampleEntry, entered, false, sampleAccess.2⟩,
            ⟨.get "a", entered', sampleRead.1.isOk, sampleRead.2⟩] := by
  have hfailed : sampleAccess.1.isOk = false := by decide +kernel
  refine ⟨hfailed, by decide +kernel, ?_⟩
  have hallowed : ∀ c, (files true).allowed c := fun _ => Or.inl rfl
  obtain ⟨entered, haccess⟩ := finishes_program_iff.mp
    (Exec.finishes_run ((Call.put sampleEntry).program sampleCodec).run flushFails
      (fun c _ => hallowed c) (hallowed none) emptyStore)
  obtain ⟨entered', hread⟩ := finishes_program_iff.mp
    (Exec.finishes_run ((Call.get "a").program sampleCodec).run []
      (fun c _ => hallowed c) (hallowed none) sampleAccess.2)
  have hhistory := History.cons haccess (History.cons hread (History.nil _))
  change History sampleCodec emptyStore
    [⟨.put sampleEntry, entered, sampleAccess.1.isOk, sampleAccess.2⟩,
      ⟨.get "a", entered', sampleRead.1.isOk, sampleRead.2⟩]
    sampleRead.2 at hhistory
  rw [hfailed] at hhistory
  have hrest : AtRest false emptyStore.live emptyStore :=
    ⟨fun V hV => settled_emptyStore.rest.shown V ⟨0, le_rfl, hV⟩,
      fun W hW => settled_emptyStore.rest.absent W ⟨0, le_rfl, hW⟩⟩
  exact ⟨entered, entered', hhistory,
    (accesses_report_the_truth sampleCodec_roundtrip hrest hhistory).1⟩

end Connexa.Keystore.Filesystem
