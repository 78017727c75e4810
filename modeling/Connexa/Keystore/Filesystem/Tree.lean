import Connexa.Keystore.Filesystem.Recovery
import Mathlib.Logic.Function.Basic

/-!
# Files by name

As long as nothing fails a program cannot tell inodes and unsynced updates
apart: it sees the tree of names and contents.  `Ends` says how a program ends
that is started on a tree, and its rules are those of a plain file system.
-/

namespace Connexa.Keystore.Filesystem

open HashMap Machine

variable {d : Disk}

/-- The directories, and the files by their names. -/
@[ext] structure Tree where
  outsideDir : Bool
  storeDir : Bool
  files : Path → Option Content

def Disk.tree (d : Disk) : Tree where
  outsideDir := d.outsideDir
  storeDir := d.storeDir
  files := fun path => (d.node path).map d.content

/-- Every linked file was created once, and `.tmp` is no entry. -/
structure Sound (d : Disk) : Prop where
  linked : ∀ path i, d.node path = some (.file i) → i < d.nextIno
  apart : d.store.view.lookup workDirName = none

/-- The staging directory or a name in it. -/
def Path.inStaging : Path → Bool
  | .work .staging => true
  | .staged _ => true
  | _ => false

namespace Tree

variable (T : Tree)

/-- Give one name a new content, or remove it. -/
def set (path : Path) (value : Option Content) : Tree :=
  { T with files := Function.update T.files path value }

def hasParent : Path → Bool
  | .entry _ => T.storeDir
  | .work _ => (T.files (.entry workDirName)).isSome
  | .staged _ => (T.files (.work .staging)).isSome

def hasDir : DirName → Bool
  | .here => true
  | .outside => T.outsideDir
  | .store => T.storeDir
  | .work => (T.files (.entry workDirName)).isSome
  | .staging => (T.files (.work .staging)).isSome

/-- Without the staging directory. -/
def dropStaging : Tree :=
  { T with files := fun path => if path.inStaging then none else T.files path }

@[simp] theorem files_set (path other : Path) (value : Option Content) :
    (T.set path value).files other =
      if other = path then value else T.files other :=
  Function.update_apply T.files path value other

@[simp] theorem storeDir_set (path : Path) (value : Option Content) :
    (T.set path value).storeDir = T.storeDir :=
  rfl

@[simp] theorem outsideDir_set (path : Path) (value : Option Content) :
    (T.set path value).outsideDir = T.outsideDir :=
  rfl

theorem set_eq_self {path : Path} {value : Option Content}
    (h : T.files path = value) : T.set path value = T := by
  subst h
  exact Tree.ext rfl rfl (Function.update_eq_self path T.files)

end Tree

/-- A name that is not one of the directories. -/
def Path.Plain : Path → Prop
  | .entry label => label ≠ workDirName
  | .work name => name ≠ .staging
  | .staged _ => True

/-- In `.tmp` only the staging directory is one. -/
theorem Path.plain_work (name : WorkName) (h : name ≠ .staging) :
    (Path.work name).Plain :=
  h

/-! ## The tree of a disk -/

theorem Disk.isSome_entry_workDir (d : Disk) :
    (d.tree.files (.entry workDirName)).isSome = d.workDir := by
  cases h : d.workDir <;> simp [Disk.tree, Disk.node, h]

theorem Disk.isSome_work (d : Disk) (name : WorkName) :
    (d.tree.files (.work name)).isSome = (d.work.view.lookup name).isSome := by
  cases h : d.work.view.lookup name with
  | none => simp [Disk.tree, Disk.node, h]
  | some i =>
      simp only [Disk.tree, Disk.node, h]
      split <;> simp

theorem Disk.hasParent_tree (d : Disk) (path : Path) :
    d.tree.hasParent path = d.hasParent path := by
  cases path with
  | entry label => rfl
  | work name => exact d.isSome_entry_workDir
  | staged index => exact d.isSome_work .staging

theorem Disk.hasDir_tree (d : Disk) (dir : DirName) :
    d.tree.hasDir dir = d.hasDir dir := by
  cases dir with
  | work => exact d.isSome_entry_workDir
  | staging => exact d.isSome_work .staging
  | _ => rfl

theorem Disk.files_eq_none {path : Path} :
    d.tree.files path = none ↔ d.node path = none := by
  simp [Disk.tree]

theorem Disk.files_eq_dir {path : Path} :
    d.tree.files path = some .dir ↔ d.node path = some .dir := by
  cases h : d.node path with
  | none => simp [Disk.tree, h]
  | some node => cases node <;> simp [Disk.tree, h, Disk.content]

theorem Disk.files_eq_file {path : Path} {bytes : Bytes} :
    d.tree.files path = some (.file bytes) ↔
      ∃ i, d.node path = some (.file i) ∧ d.data i = bytes := by
  cases h : d.node path with
  | none => simp [Disk.tree, h]
  | some node => cases node <;> simp [Disk.tree, h, Disk.content]

/-- Soundness by the names of each directory. -/
theorem Sound.of_views
    (hstore : ∀ label i, d.store.view.lookup label = some (.file i) → i < d.nextIno)
    (hwork : ∀ name i, d.work.view.lookup name = some i → i < d.nextIno)
    (hstaging : ∀ s index i, (d.staging s).view.lookup index = some i →
      i < d.nextIno)
    (hapart : d.store.view.lookup workDirName = none) : Sound d where
  linked := by
    intro path i hi
    cases path with
    | entry label =>
        simp only [Disk.node] at hi
        split at hi
        · split at hi <;> cases hi
        · exact hstore label i hi
    | work name =>
        simp only [Disk.node] at hi
        split at hi
        · next j hj =>
          split at hi
          · cases hi
          · cases hi
            exact hwork name i hj
        · cases hi
    | staged index =>
        simp only [Disk.node] at hi
        split at hi
        · next s _ =>
          obtain ⟨j, hj, heq⟩ := Option.map_eq_some_iff.mp hi
          cases heq
          exact hstaging s index i hj
        · cases hi
  apart := hapart

/-- The live entries are those of the tree. -/
theorem Sound.live_eq (h : Sound d) (label : String) :
    d.live label =
      if label = workDirName then none else d.tree.files (.entry label) := by
  by_cases hname : label = workDirName
  · subst hname
    simp [Disk.live, h.apart]
  · simp [hname, Disk.live, Disk.tree, Disk.node]

/-! ## Updates -/

section Updates

variable {path : Path}

theorem Disk.node_assign (hplain : path.Plain) (value : Option Ino)
    (hstaging : ∀ index, path = .staged index → d.stagingIno.isSome = true)
    (other : Path) :
    (d.assign path value).node other =
      if other = path then value.map .file else d.node other := by
  cases path with
  | entry label =>
      cases other with
      | entry label' =>
          by_cases hname : label' = workDirName
          · subst hname
            have hne : Path.entry workDirName ≠ .entry label := by
              simpa using Ne.symm hplain
            rw [if_neg hne]
            rfl
          · simp only [Disk.assign, Disk.node, if_neg hname, Dir.view_push,
              Dir.applyUpdate_cons, Dir.applyUpdate_nil, Dir.lookup_assign,
              Path.entry.injEq]
      | work name => rfl
      | staged index => rfl
  | work name =>
      have hne : WorkName.staging ≠ name := Ne.symm hplain
      cases other with
      | entry label => rfl
      | work name' =>
          by_cases hname : name' = name
          · subst hname
            cases value <;> simp [Disk.assign, Disk.node, Ne.symm hne]
          · simp [Disk.assign, Disk.node, hname]
      | staged index => simp [Disk.assign, Disk.node, Disk.stagingIno, hne]
  | staged index =>
      obtain ⟨s, hs⟩ := Option.isSome_iff_exists.mp (hstaging index rfl)
      have hwork : d.work.view.lookup .staging = some s := hs
      cases other with
      | entry label => simp [Disk.assign, Disk.onStaging, hs, Disk.node]
      | work name => simp [Disk.assign, Disk.onStaging, hs, Disk.node]
      | staged index' =>
          by_cases hname : index' = index
          · simp [Disk.assign, Disk.onStaging, Disk.node, Disk.stagingIno, hwork,
              hname]
          · simp [Disk.assign, Disk.onStaging, Disk.node, Disk.stagingIno, hwork,
              hname]

theorem Disk.dirs_assign (path : Path) (value : Option Ino) (d : Disk) :
    (d.assign path value).outsideDir = d.outsideDir ∧
      (d.assign path value).storeDir = d.storeDir := by
  cases path with
  | entry label => exact ⟨rfl, rfl⟩
  | work name => exact ⟨rfl, rfl⟩
  | staged index =>
      simp only [Disk.assign]
      rw [Disk.onStaging_eq]
      exact ⟨rfl, rfl⟩

theorem Disk.tree_assign (hplain : path.Plain) (value : Option Ino)
    (hstaging : ∀ index, path = .staged index → d.stagingIno.isSome = true) :
    (d.assign path value).tree =
      d.tree.set path (value.map fun i => .file (d.data i)) := by
  obtain ⟨houtside, hstore⟩ := d.dirs_assign path value
  refine Tree.ext houtside hstore ?_
  funext other
  rw [Tree.files_set]
  change ((d.assign path value).node other).map _ = _
  rw [Disk.node_assign hplain value hstaging]
  split
  · cases value <;> simp [Disk.content]
  · change _ = (d.node other).map d.content
    refine Option.map_congr fun node _ => ?_
    cases node <;> simp [Disk.content]

theorem Sound.assign (h : Sound d) (hplain : path.Plain) {value : Option Ino}
    (hstaging : ∀ index, path = .staged index → d.stagingIno.isSome = true)
    (hvalue : ∀ i, value = some i → i < d.nextIno) :
    Sound (d.assign path value) where
  linked := by
    intro other i hi
    rw [Disk.node_assign hplain value hstaging] at hi
    rw [Disk.nextIno_assign]
    split at hi
    · cases value with
      | none => cases hi
      | some j =>
          cases hi
          exact hvalue _ rfl
    · exact h.linked other i hi
  apart := by
    cases path with
    | entry label =>
        have hne : workDirName ≠ label := Ne.symm hplain
        simpa [Disk.assign, hne] using h.apart
    | work name => exact h.apart
    | staged index =>
        simp only [Disk.assign]
        rw [Disk.onStaging_eq]
        exact h.apart

/-- The tree depends on the nodes and the linked data only. -/
theorem Disk.tree_congr {d' : Disk} (houtside : d'.outsideDir = d.outsideDir)
    (hstore : d'.storeDir = d.storeDir) (hnode : d'.node = d.node)
    (hdata : ∀ path i, d.node path = some (.file i) → d'.data i = d.data i) :
    d'.tree = d.tree := by
  refine Tree.ext houtside hstore ?_
  funext path
  change (d'.node path).map d'.content = (d.node path).map d.content
  rw [hnode]
  refine Option.map_congr fun node hmem => ?_
  cases node with
  | dir => rfl
  | file i => exact congrArg Content.file (hdata path i hmem)

theorem Sound.congr {d' : Disk} (h : Sound d) (hnode : d'.node = d.node)
    (hnext : d.nextIno ≤ d'.nextIno) (hview : d'.store.view = d.store.view) :
    Sound d' where
  linked := by
    intro path i hi
    rw [hnode] at hi
    exact (h.linked path i hi).trans_le hnext
  apart := by
    rw [hview]
    exact h.apart

theorem Disk.node_syncDir (dir : DirName) (d : Disk) :
    (d.syncDir dir).node = d.node := by
  cases dir with
  | staging =>
      funext path
      cases hs : d.stagingIno with
      | none => simp [Disk.syncDir, Disk.onStaging, hs]
      | some s =>
          have hwork : d.work.view.lookup .staging = some s := hs
          cases path with
          | staged index =>
              simp [Disk.syncDir, Disk.onStaging, Disk.node, Disk.stagingIno,
                hwork]
          | entry label => simp [Disk.syncDir, Disk.onStaging, hs, Disk.node]
          | work name => simp [Disk.syncDir, Disk.onStaging, hs, Disk.node]
  | _ => rfl

theorem Disk.syncDir_same (dir : DirName) (d : Disk) :
    (d.syncDir dir).outsideDir = d.outsideDir ∧
      (d.syncDir dir).storeDir = d.storeDir ∧
      (d.syncDir dir).data = d.data ∧ (d.syncDir dir).nextIno = d.nextIno ∧
      (d.syncDir dir).store.view = d.store.view := by
  cases dir with
  | staging =>
      simp only [Disk.syncDir]
      rw [Disk.onStaging_eq]
      exact ⟨rfl, rfl, rfl, rfl, rfl⟩
  | _ => exact ⟨rfl, rfl, rfl, rfl, rfl⟩

theorem Disk.tree_syncDir (dir : DirName) (d : Disk) :
    (d.syncDir dir).tree = d.tree := by
  obtain ⟨houtside, hstore, hdata, -, -⟩ := d.syncDir_same dir
  exact Disk.tree_congr houtside hstore (d.node_syncDir dir)
    fun _ _ _ => by rw [hdata]

theorem Sound.syncDir (h : Sound d) (dir : DirName) : Sound (d.syncDir dir) := by
  obtain ⟨-, -, -, hnext, hview⟩ := d.syncDir_same dir
  exact h.congr (d.node_syncDir dir) hnext.ge hview

/-! ### New files -/

theorem Sound.newFile (h : Sound d) : Sound d.newFile :=
  h.congr rfl (Nat.le_succ _) rfl

theorem Sound.withNew (h : Sound d) (hplain : path.Plain)
    (hstaging : ∀ index, path = .staged index → d.stagingIno.isSome = true)
    (bytes : Bytes) : Sound (d.withNew path bytes) := by
  have hassign : Sound (d.newFile.assign path (some d.nextIno)) := by
    apply h.newFile.assign hplain hstaging
    rintro i hi
    cases hi
    exact Nat.lt_succ_self _
  exact hassign.congr rfl le_rfl rfl

theorem Sound.tree_withNew (h : Sound d) (hplain : path.Plain)
    (hstaging : ∀ index, path = .staged index → d.stagingIno.isSome = true)
    (bytes : Bytes) :
    (d.withNew path bytes).tree = d.tree.set path (some (.file bytes)) := by
  obtain ⟨houtside, hstore⟩ := d.newFile.dirs_assign path (some d.nextIno)
  refine Tree.ext houtside hstore ?_
  funext other
  change ((d.newFile.assign path (some d.nextIno)).node other).map _ = _
  have hnode := @Disk.node_assign d.newFile path hplain (some d.nextIno) hstaging
  rw [hnode, Tree.files_set]
  split
  · exact congrArg (fun b => some (Content.file b)) (d.data_withNew path bytes)
  · change (d.node other).map _ = (d.node other).map _
    refine Option.map_congr fun node hmem => ?_
    cases node with
    | dir => rfl
    | file i =>
        have hne : i ≠ d.nextIno := (h.linked other i hmem).ne
        simp [Disk.content, Disk.withNew, Disk.syncFile, Disk.write,
          Disk.newFile, hne]

/-! ### Moves -/

theorem isSome_stagingIno_of_file {path : Path} {i : Ino}
    (h : d.node path = some (.file i))
    (index : ℕ) (hpath : path = .staged index) : d.stagingIno.isSome = true := by
  subst hpath
  cases hs : d.stagingIno with
  | some s => rfl
  | none => simp [Disk.node, hs] at h

/-- The moves that the store makes: in `.tmp`, or into the store directory. -/
def Path.Moves : Path → Path → Prop
  | .work a, .work b => a ≠ b
  | .work _, .entry _ => True
  | .staged _, .entry _ => True
  | _, _ => False

/-- A move links the file under its new name and unlinks the old one. -/
structure Moved (src dst : Path) (i : Ino) (d t : Disk) : Prop where
  node : t.node = ((d.assign dst (some i)).assign src none).node
  outsideDir : t.outsideDir = d.outsideDir
  storeDir : t.storeDir = d.storeDir
  data : t.data = d.data
  nextIno : t.nextIno = d.nextIno
  store : t.store.view = ((d.assign dst (some i)).assign src none).store.view

theorem Disk.moved {src dst : Path} (h : src.Moves dst) (i : Ino) (d : Disk) :
    Moved src dst i d (d.move src dst i) := by
  cases src with
  | entry a => exact h.elim
  | work a =>
      cases dst with
      | entry b => exact ⟨rfl, rfl, rfl, rfl, rfl, rfl⟩
      | staged b => exact h.elim
      | work b =>
          refine ⟨?_, rfl, rfl, rfl, rfl, rfl⟩
          funext other
          cases other with
          | entry label => rfl
          | work name => simp [Disk.move, Disk.assign, Disk.node]
          | staged index =>
              simp [Disk.move, Disk.assign, Disk.node, Disk.stagingIno]
  | staged a =>
      cases dst with
      | entry b =>
          have hmove : d.move (.staged a) (.entry b) i =
              { (d.assign (.entry b) (some i)).assign (.staged a) none with
                renames := d.renames ++ [(.staged a, .entry b)] } := by
            cases hs : d.work.view.lookup .staging with
            | none =>
                simp [Disk.move, Disk.assign, Disk.onStaging, Disk.stagingIno,
                  hs]
            | some s =>
                simp [Disk.move, Disk.assign, Disk.onStaging, Disk.stagingIno,
                  hs]
          rw [hmove]
          obtain ⟨houtside, hstore⟩ :=
            (d.assign (.entry b) (some i)).dirs_assign (.staged a) none
          exact ⟨rfl, houtside, hstore, Disk.data_assign _ _ _,
            Disk.nextIno_assign _ _ _, rfl⟩
      | _ => exact h.elim

section Move

variable {src dst : Path} {i : Ino} (hmoves : src.Moves dst)
  (hsrc : src.Plain) (hdst : dst.Plain) (hi : d.node src = some (.file i))

include hmoves hsrc hdst hi

theorem Disk.node_move (other : Path) :
    (d.move src dst i).node other =
      if other = src then none
      else if other = dst then some (.file i) else d.node other := by
  have hstaging := isSome_stagingIno_of_file hi
  have hnone : ∀ index, dst = .staged index → d.stagingIno.isSome = true := by
    rintro index rfl
    cases src <;> exact hmoves.elim
  have hstill : ∀ index, src = .staged index →
      (d.assign dst (some i)).stagingIno.isSome = true := by
    rintro index rfl
    cases dst with
    | entry label => exact hstaging index rfl
    | _ => exact hmoves.elim
  rw [(Disk.moved hmoves i d).node, Disk.node_assign hsrc none hstill,
    Disk.node_assign hdst (some i) hnone]
  rfl

theorem Disk.tree_move :
    (d.move src dst i).tree =
      (d.tree.set dst (some (.file (d.data i)))).set src none := by
  have hmoved := Disk.moved hmoves i d
  refine Tree.ext hmoved.outsideDir hmoved.storeDir ?_
  funext other
  change ((d.move src dst i).node other).map _ = _
  rw [Disk.node_move hmoves hsrc hdst hi, Tree.files_set, Tree.files_set]
  have hcontent : (d.move src dst i).content = d.content := by
    funext node
    cases node with
    | dir => rfl
    | file j => simp only [Disk.content, hmoved.data]
  rw [hcontent]
  split
  · rfl
  · split
    · rfl
    · rfl

theorem Sound.move (h : Sound d) : Sound (d.move src dst i) where
  linked := by
    intro other j hj
    rw [Disk.node_move hmoves hsrc hdst hi] at hj
    rw [(Disk.moved hmoves i d).nextIno]
    split at hj
    · cases hj
    · split at hj
      · cases hj
        exact h.linked src i hi
      · exact h.linked other j hj
  apart := by
    rw [(Disk.moved hmoves i d).store]
    cases dst with
    | entry label =>
        have hne : workDirName ≠ label := Ne.symm hdst
        cases src with
        | entry a => exact hmoves.elim
        | work a => simpa [Disk.assign, hne] using h.apart
        | staged a =>
            simp only [Disk.assign]
            rw [Disk.onStaging_eq]
            simpa [hne] using h.apart
    | work name =>
        cases src with
        | work a => exact h.apart
        | _ => exact hmoves.elim
    | staged index => cases src <;> exact hmoves.elim

end Move

end Updates

/-! ## Programs on a tree -/

/-- The disk is a sound one with this tree. -/
def IsTree (d : Disk) (T : Tree) : Prop :=
  Sound d ∧ d.tree = T

/-- Started on the tree `T` without faults, the program ends with the result `a`
and the tree `T'`. -/
abbrev Ends {α : Type} (p : Prog Op Reply α) (T : Tree) (a : α) (T' : Tree) :
    Prop :=
  (machine false).Ends IsTree p T a T'

theorem step_machine_false {o : Op} {r : Reply o} {d' : Disk} :
    (machine false).step o d r d' ↔ perform o d = (r, d') := by
  constructor
  · rintro ⟨c, hc, hexec⟩
    obtain rfl : c = none := hc.resolve_left nofun
    exact hexec
  · exact fun h => ⟨none, Or.inr rfl, h⟩

section Rules

variable {T T' : Tree} {path : Path}

theorem ends_perform {o : Op} {r : Reply o}
    (h : ∀ d, IsTree d T → ∃ t, perform o d = (r, t) ∧ IsTree t T') :
    Ends (Prog.op o) T r T' := by
  refine ends_op fun d hd r' t ht => ?_
  obtain ⟨t', hperform, ht'⟩ := h d hd
  rw [step_machine_false, hperform] at ht
  cases ht
  exact ⟨rfl, ht'⟩

/-- A primitive that only looks. -/
theorem ends_look {o : Op} {r : Reply o}
    (h : ∀ d, IsTree d T → perform o d = (r, d)) : Ends (Prog.op o) T r T :=
  ends_perform fun d hd => ⟨d, h d hd, hd⟩

theorem ends_isDir (dir : DirName) :
    Ends (isDir dir).run T (.ok (T.hasDir dir)) T := by
  apply Ends.liftExcept
  refine ends_look ?_
  rintro d ⟨-, rfl⟩
  simp [perform, Disk.hasDir_tree]

theorem ends_workExists (name : WorkName) :
    Ends (workExists name).run T (.ok (T.files (.work name)).isSome) T := by
  refine ends_look ?_
  rintro d ⟨-, rfl⟩
  simp [perform, Disk.isSome_work]

theorem ends_syncDir {dir : DirName} (h : T.hasDir dir = true) :
    Ends (syncDir dir).run T (.ok ()) T := by
  refine ends_perform ?_
  rintro d ⟨hsound, rfl⟩
  rw [Disk.hasDir_tree] at h
  exact ⟨d.syncDir dir, by simp [perform, h], hsound.syncDir dir,
    d.tree_syncDir dir⟩

theorem ends_readFile {bytes : Bytes} (h : T.files path = some (.file bytes)) :
    Ends (readFile path).run T (.ok bytes) T := by
  refine ends_look ?_
  rintro d ⟨-, rfl⟩
  obtain ⟨i, hi, rfl⟩ := Disk.files_eq_file.mp h
  simp [perform, hi]

theorem ends_readFile_missing (h : T.files path = none) :
    Ends (readFile path).run T (.error (.os .notFound)) T := by
  refine ends_look ?_
  rintro d ⟨-, rfl⟩
  simp [perform, Disk.files_eq_none.mp h]

theorem isSome_stagingIno (h : d.tree.hasParent path = true) (index : ℕ)
    (hpath : path = .staged index) : d.stagingIno.isSome = true := by
  subst hpath
  rw [Disk.hasParent_tree] at h
  exact h

theorem ends_writeNew (hplain : path.Plain) (hnone : T.files path = none)
    (hparent : T.hasParent path = true) (bytes : Bytes) :
    Ends (writeNew path bytes).run T (.ok ())
      (T.set path (some (.file bytes))) := by
  rintro d ⟨hsound, rfl⟩
  have hstaging := isSome_stagingIno hparent
  rw [Disk.hasParent_tree] at hparent
  have hnode := Disk.files_eq_none.mp hnone
  have hcreate : perform (.createNew path) d =
      (.ok d.nextIno, d.newFile.assign path (some d.nextIno)) := by
    simp [perform, hnode, hparent]
  refine ⟨trivial, fun r t ht => ?_⟩
  rw [step_machine_false, hcreate] at ht
  cases ht
  refine ⟨trivial, fun r t ht => ?_⟩
  cases step_machine_false.mp ht
  refine ⟨trivial, fun r t ht => ?_⟩
  cases step_machine_false.mp ht
  exact ⟨trivial, rfl, hsound.withNew hplain hstaging bytes,
    hsound.tree_withNew hplain hstaging bytes⟩

theorem ends_renameFile {src dst : Path} {bytes : Bytes}
    (hmoves : src.Moves dst) (hsrc : src.Plain) (hdst : dst.Plain)
    (hfile : T.files src = some (.file bytes)) (hfree : T.files dst ≠ some .dir)
    (hparent : T.hasParent dst = true) :
    Ends (renameFile src dst).run T (.ok ())
      ((T.set dst (some (.file bytes))).set src none) := by
  refine ends_perform ?_
  rintro d ⟨hsound, rfl⟩
  obtain ⟨i, hi, rfl⟩ := Disk.files_eq_file.mp hfile
  rw [Disk.hasParent_tree] at hparent
  rw [Ne, Disk.files_eq_dir] at hfree
  exact ⟨d.move src dst i, by simp [perform, hi, hfree, hparent],
    hsound.move hmoves hsrc hdst hi, Disk.tree_move hmoves hsrc hdst hi⟩

theorem ends_unlink (hplain : path.Plain) {bytes : Bytes}
    (hfile : T.files path = some (.file bytes)) :
    Ends (Prog.op (Op.removeFile path)) T (Except.ok ()) (T.set path none) := by
  refine ends_perform ?_
  rintro d ⟨hsound, rfl⟩
  obtain ⟨i, hi, rfl⟩ := Disk.files_eq_file.mp hfile
  have hstaging := isSome_stagingIno_of_file hi
  exact ⟨d.assign path none, by simp [perform, hi],
    hsound.assign hplain hstaging nofun, Disk.tree_assign hplain none hstaging⟩

/-- Removing a file, which may be missing. -/
theorem ends_removeFile (hplain : path.Plain) (hfree : T.files path ≠ some .dir) :
    Ends (removeFile path).run T (.ok (T.files path).isSome)
      (T.set path none) := by
  cases hfile : T.files path with
  | none =>
      rw [T.set_eq_self hfile]
      have hmissing : Ends (Prog.op (Op.removeFile path)) T
          (Except.error (.os .notFound)) T := by
        refine ends_look ?_
        rintro d ⟨-, rfl⟩
        simp [perform, Disk.files_eq_none.mp hfile]
      exact Ends.bind hmissing (ends_done _ T)
  | some content =>
      cases content with
      | dir => exact absurd hfile hfree
      | file bytes =>
          exact Ends.bind (ends_unlink hplain hfile) (ends_done _ _)

/-! ### The staging directory -/

/-- With an empty staging directory. -/
def Tree.emptyStaging (T : Tree) : Tree :=
  { T with
    files := fun path =>
      match path with
      | .staged _ => none
      | _ => T.files path }

theorem Tree.emptyStaging_set (T : Tree) (index : ℕ) (value : Option Content) :
    (T.set (.staged index) value).emptyStaging = T.emptyStaging := by
  refine Tree.ext rfl rfl ?_
  funext path
  cases path <;> simp [Tree.emptyStaging]

theorem ends_removeStaged {names : List ℕ} (hnodup : names.Nodup)
    (hnames : ∀ index, (T.files (.staged index)).isSome = true ↔ index ∈ names)
    (hfiles : ∀ index, T.files (.staged index) ≠ some .dir) :
    Ends (removeStaged names).run T (.ok ()) T.emptyStaging := by
  induction names generalizing T with
  | nil =>
      have hempty : T.emptyStaging = T := by
        refine Tree.ext rfl rfl ?_
        funext path
        cases path with
        | staged index =>
            have hnone := hnames index
            simp only [List.not_mem_nil, iff_false, Bool.not_eq_true,
              Option.isSome_eq_false_iff, Option.isNone_iff_eq_none] at hnone
            exact hnone.symm
        | _ => rfl
      rw [hempty]
      exact ends_done _ T
  | cons index rest ih =>
      rw [List.nodup_cons] at hnodup
      obtain ⟨bytes, hbytes⟩ :
          ∃ bytes, T.files (.staged index) = some (.file bytes) := by
        obtain ⟨content, hcontent⟩ := Option.isSome_iff_exists.mp
          ((hnames index).mpr List.mem_cons_self)
        cases content with
        | dir => exact absurd hcontent (hfiles index)
        | file bytes => exact ⟨bytes, hcontent⟩
      refine Ends.bindExcept (ends_unlink trivial hbytes) ?_
      rw [← T.emptyStaging_set index none]
      apply ih hnodup.2
      · intro other
        by_cases hother : other = index
        · subst hother
          simp [hnodup.1]
        · simp [hother, hnames other]
      · intro other
        by_cases hother : other = index
        · simp [hother]
        · simpa [hother] using hfiles other

theorem Disk.staged_ne_dir (d : Disk) (index : ℕ) :
    d.tree.files (.staged index) ≠ some .dir := by
  rw [Ne, Disk.files_eq_dir, Disk.node]
  split <;> simp

theorem Disk.exists_stagingIno (h : (d.tree.files (.work .staging)).isSome = true) :
    ∃ s, d.stagingIno = some s := by
  rw [Disk.isSome_work] at h
  exact Option.isSome_iff_exists.mp h

theorem ends_rmdir (hstaging : (T.files (.work .staging)).isSome = true)
    (hempty : ∀ index, T.files (.staged index) = none) :
    Ends (Prog.op Op.removeStaging) T (Except.ok ()) T.dropStaging := by
  refine ends_perform ?_
  rintro d ⟨hsound, rfl⟩
  obtain ⟨s, hs⟩ := Disk.exists_stagingIno hstaging
  have hkeys : (d.staging s).view.keys = [] := by
    rw [List.eq_nil_iff_forall_not_mem]
    intro index hindex
    rw [← AList.mem_keys, ← AList.lookup_isSome] at hindex
    have hnone := Disk.files_eq_none.mp (hempty index)
    simp only [Disk.node, hs, Option.map_eq_none_iff] at hnone
    rw [hnone] at hindex
    cases hindex
  have hnode : ∀ path,
      Disk.node { d with work := d.work.push [(.staging, none)] } path =
        if path.inStaging then none else d.node path := by
    intro path
    cases path with
    | entry label => rfl
    | work name => cases name <;> simp [Disk.node, Path.inStaging]
    | staged index => simp [Disk.node, Disk.stagingIno, Path.inStaging]
  refine ⟨{ d with work := d.work.push [(.staging, none)] },
    by simp [perform, hs, hkeys], ⟨?_, hsound.apart⟩, Tree.ext rfl rfl ?_⟩
  · intro path i hi
    rw [hnode] at hi
    split at hi
    · cases hi
    · exact hsound.linked path i hi
  · funext path
    change (Disk.node _ path).map _ = _
    rw [hnode]
    simp only [Tree.dropStaging]
    split <;> rfl

theorem ends_removeStagingAll (hstaging : (T.files (.work .staging)).isSome = true) :
    Ends removeStagingAll.run T (.ok ()) T.dropStaging := by
  rintro d ⟨hsound, rfl⟩
  obtain ⟨s, hs⟩ := Disk.exists_stagingIno hstaging
  have hnames : ∀ index, (d.tree.files (.staged index)).isSome = true ↔
      index ∈ (d.staging s).view.keys := by
    intro index
    rw [← AList.mem_keys, ← AList.lookup_isSome]
    simp [Disk.tree, Disk.node, hs]
  have hremove := ends_removeStaged (AList.keys_nodup _) hnames d.staged_ne_dir
  have hdrop : d.tree.emptyStaging.dropStaging = d.tree.dropStaging := by
    refine Tree.ext rfl rfl ?_
    funext path
    cases path <;> simp [Tree.dropStaging, Tree.emptyStaging, Path.inStaging]
  have hrmdir := @ends_rmdir d.tree.emptyStaging hstaging fun _ => rfl
  rw [hdrop] at hrmdir
  refine ⟨trivial, fun r t ht => ?_⟩
  rw [step_machine_false] at ht
  simp only [perform, hs] at ht
  cases ht
  exact (Ends.bind hremove hrmdir) d ⟨hsound, rfl⟩

/-- Removing the staging directory, which may be missing. -/
theorem ends_discardStaging :
    Ends discardStaging.run T (.ok ()) T.dropStaging := by
  by_cases hstaging : (T.files (.work .staging)).isSome = true
  · exact Ends.bind (ends_removeStagingAll hstaging) (ends_done _ _)
  · rw [Bool.not_eq_true, Option.isSome_eq_false_iff,
      Option.isNone_iff_eq_none] at hstaging
    rintro d ⟨hsound, rfl⟩
    have hs : d.stagingIno = none := by
      rw [Disk.files_eq_none] at hstaging
      exact Disk.lookup_of_node_work_eq_none hstaging
    have hdrop : d.tree.dropStaging = d.tree := by
      refine Tree.ext rfl rfl ?_
      funext path
      cases path with
      | entry label => rfl
      | work name =>
          cases name with
          | staging => exact hstaging.symm
          | _ => rfl
      | staged index => simp [Tree.dropStaging, Path.inStaging, Disk.tree, Disk.node, hs]
    refine ⟨trivial, fun r t ht => ?_⟩
    rw [step_machine_false] at ht
    simp only [perform, hs] at ht
    cases ht
    exact ⟨trivial, rfl, hsound, hdrop.symm⟩

end Rules

end Connexa.Keystore.Filesystem
